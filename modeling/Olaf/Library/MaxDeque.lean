import Mathlib.Data.List.Perm.Subperm
import Olaf.Library.WindowMax
/-!
# The double-ended queue of a sliding maximum

A window slides over an array; a queue holds the indices of the window that may still become its maximum. They ascend,
their values do not, and for every index of the window there is one at or behind it that is at least as large (`MaxDeque`).
So the front is where the maximum is (`MaxDeque.front`). A new value prunes the back of what is smaller (`Pruned.pop`), is
then appended (`Pruned.push`), and an index that leaves the window can only be the front (`MaxDeque.expire`,
`MaxDeque.keep`).
-/

namespace WindowMax

variable {V : Type} [LinearOrder V]

structure Candidates (a : Nat → V) (lo hi : Nat) (items : List Nat) : Prop where
  ascending : items.Pairwise (· < ·)
  descending : items.Pairwise fun j k => a k ≤ a j
  inside : ∀ j ∈ items, lo ≤ j ∧ j < hi

def Covered (a : Nat → V) (items : List Nat) (k : Nat) : Prop := ∃ j ∈ items, k ≤ j ∧ a k ≤ a j

/-- The queue of the window `[lo, hi)`. -/
structure MaxDeque (a : Nat → V) (lo hi : Nat) (items : List Nat) : Prop extends Candidates a lo hi items where
  covers : ∀ k, lo ≤ k → k < hi → Covered a items k

/-- The same while its back is pruned of what is smaller than the value at `hi`. -/
structure Pruned (a : Nat → V) (lo hi : Nat) (items : List Nat) : Prop extends Candidates a lo hi items where
  covers : ∀ k, lo ≤ k → k < hi → Covered a items k ∨ a k < a hi

variable {a : Nat → V} {lo hi j : Nat} {items : List Nat}

theorem Candidates.length_le (h : Candidates a lo hi items) : items.length ≤ hi := by
  have hnodup : items.Nodup := h.ascending.imp fun hlt => Nat.ne_of_lt hlt
  have hsub : items ⊆ List.range hi := fun j hj => List.mem_range.2 (h.inside j hj).2
  have := (hnodup.subperm hsub).length_le
  rwa [List.length_range] at this

theorem maxDeque_single (a : Nat → V) (lo : Nat) : MaxDeque a lo (lo + 1) [lo] := by
  refine ⟨⟨by simp, by simp, by simp⟩, fun k h1 h2 => ⟨lo, List.mem_singleton_self lo, by omega, ?_⟩⟩
  rw [show k = lo by omega]

/-- The last index of the window is at the back. -/
theorem MaxDeque.last (h : MaxDeque a lo hi items) (hlt : lo < hi) : items.getLast? = some (hi - 1) := by
  obtain ⟨j, hj, hle, _⟩ := h.covers (hi - 1) (by omega) (by omega)
  have hj' := h.inside j hj
  obtain ⟨before, last, rfl⟩ := List.eq_nil_or_concat items |>.resolve_left (List.ne_nil_of_mem hj)
  have hlast := h.inside last (by simp)
  have hasc := (List.pairwise_append.1 (List.concat_eq_append ▸ h.ascending)).2.2
  rw [List.concat_eq_append] at hj ⊢
  rcases List.mem_append.1 hj with hb | hl
  · have := hasc j hb last (by simp)
    omega
  · rw [List.mem_singleton] at hl
    rw [List.getLast?_concat, show last = hi - 1 by omega]

/-- **The front is the maximum.** -/
theorem MaxDeque.front (h : MaxDeque a lo hi (j :: items)) : IsMaxOver a lo (hi - 1) (a j) := by
  have hj := h.inside j (by simp)
  refine ⟨fun k h1 h2 => ?_, j, hj.1, by omega, rfl⟩
  obtain ⟨i, hi', _, hle⟩ := h.covers k h1 (by omega)
  rcases List.mem_cons.1 hi' with rfl | hi'
  · exact hle
  · exact hle.trans ((List.pairwise_cons.1 h.descending).1 i hi')

theorem MaxDeque.prune (h : MaxDeque a lo hi items) : Pruned a lo hi items :=
  ⟨h.toCandidates, fun k h1 h2 => Or.inl (h.covers k h1 h2)⟩

theorem Pruned.pop (h : Pruned a lo hi (items ++ [j])) (hj : a j < a hi) : Pruned a lo hi items := by
  refine ⟨⟨(List.pairwise_append.1 h.ascending).1, (List.pairwise_append.1 h.descending).1,
    fun i hi => h.inside i (List.mem_append_left _ hi)⟩, fun k h1 h2 => ?_⟩
  rcases h.covers k h1 h2 with ⟨i, hi', hle, hai⟩ | hlt
  · rcases List.mem_append.1 hi' with hi' | hi'
    · exact Or.inl ⟨i, hi', hle, hai⟩
    · rw [List.mem_singleton.1 hi'] at hai
      exact Or.inr (hai.trans_lt hj)
  · exact Or.inr hlt

theorem Pruned.push (h : Pruned a lo hi items) (hlast : ∀ j, items.getLast? = some j → a hi ≤ a j) (hle : lo ≤ hi) :
    MaxDeque a lo (hi + 1) (items ++ [hi]) := by
  have hall : ∀ j ∈ items, a hi ≤ a j := by
    intro j hj
    obtain ⟨before, last, rfl⟩ := List.eq_nil_or_concat items |>.resolve_left (List.ne_nil_of_mem hj)
    rw [List.concat_eq_append] at *
    have hback := hlast last List.getLast?_concat
    rcases List.mem_append.1 hj with hb | hl
    · exact hback.trans ((List.pairwise_append.1 h.descending).2.2 j hb last (by simp))
    · rwa [List.mem_singleton.1 hl]
  constructor
  · constructor
    · refine List.pairwise_append.2 ⟨h.ascending, by simp, fun j hj k hk => ?_⟩
      rw [List.mem_singleton.1 hk]
      exact (h.inside j hj).2
    · refine List.pairwise_append.2 ⟨h.descending, by simp, fun j hj k hk => ?_⟩
      rw [List.mem_singleton.1 hk]
      exact hall j hj
    · intro j hj
      rcases List.mem_append.1 hj with hj | hj
      · have := h.inside j hj
        omega
      · rw [List.mem_singleton] at hj
        omega
  · intro k h1 h2
    by_cases hk : k = hi
    · exact ⟨hi, by simp, by omega, by rw [hk]⟩
    · rcases h.covers k h1 (by omega) with ⟨j, hj, hkj, haj⟩ | hlt
      · exact ⟨j, List.mem_append_left _ hj, hkj, haj⟩
      · exact ⟨hi, by simp, by omega, hlt.le⟩

/-- The front leaves the window. -/
theorem MaxDeque.expire (h : MaxDeque a lo hi (lo :: items)) : MaxDeque a (lo + 1) hi items := by
  have hasc := List.pairwise_cons.1 h.ascending
  refine ⟨⟨hasc.2, (List.pairwise_cons.1 h.descending).2, fun j hj => ?_⟩, fun k h1 h2 => ?_⟩
  · have := h.inside j (List.mem_cons_of_mem _ hj)
    have := hasc.1 j hj
    omega
  · obtain ⟨j, hj, hle, haj⟩ := h.covers k (by omega) h2
    rcases List.mem_cons.1 hj with rfl | hj
    · omega
    · exact ⟨j, hj, hle, haj⟩

/-- An index that is not in the queue leaves the window. -/
theorem MaxDeque.keep (h : MaxDeque a lo hi (j :: items)) (hj : j ≠ lo) : MaxDeque a (lo + 1) hi (j :: items) := by
  refine ⟨⟨h.ascending, h.descending, fun i hi => ?_⟩, fun k h1 h2 => h.covers k (by omega) h2⟩
  have hin := h.inside i hi
  have hfront := h.inside j (by simp)
  rcases List.mem_cons.1 hi with rfl | hi
  · omega
  · have := (List.pairwise_cons.1 h.ascending).1 i hi
    omega

end WindowMax
