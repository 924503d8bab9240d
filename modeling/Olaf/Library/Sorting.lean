import Mathlib.Data.List.Sort
/-!
# Sorting by an integer key when ties are in any order

`QSort` is what the C library promises of `qsort`: the result is a permutation and its keys ascend;
elements with equal keys come in any order. A sorted list is the elements below a threshold followed by the
others (`split_at`), which is how a sentinel key moves the unused entries of an array to its end.
-/

namespace Sorting

variable {α : Type} {key : α → Int}

/-- A sorting function for a comparator on `key`. -/
structure QSort (α : Type) (key : α → Int) where
  sort : List α → List α
  perm : ∀ l, (sort l).Perm l
  ascending : ∀ l, (sort l).Pairwise fun a b => key a ≤ key b

/-- Insertion sort, one of them. -/
def QSort.insertion (α : Type) (key : α → Int) : QSort α key where
  sort := List.insertionSort fun a b => key a ≤ key b
  perm := List.perm_insertionSort _
  ascending l :=
    have : Std.Total fun a b : α => key a ≤ key b := ⟨fun _ _ => Int.le_total _ _⟩
    have : IsTrans α fun a b => key a ≤ key b := ⟨fun _ _ _ h1 h2 => Int.le_trans h1 h2⟩
    List.pairwise_insertionSort _ l

/-- A sorting function for keys of any linear order. -/
structure SortBy (α : Type) {β : Type} [LinearOrder β] (key : α → β) where
  sort : List α → List α
  perm : ∀ l, (sort l).Perm l
  ascending : ∀ l, (sort l).Pairwise fun a b => key a ≤ key b

def SortBy.insertion (α : Type) {β : Type} [LinearOrder β] (key : α → β) : SortBy α key where
  sort := List.insertionSort fun a b => key a ≤ key b
  perm := List.perm_insertionSort _
  ascending l :=
    have : Std.Total fun a b : α => key a ≤ key b := ⟨fun _ _ => le_total _ _⟩
    have : IsTrans α fun a b => key a ≤ key b := ⟨fun _ _ _ h1 h2 => le_trans h1 h2⟩
    List.pairwise_insertionSort _ l

/-- A sorting function that looks at the elements through the comparator only: renaming them without changing any
comparison renames what it returns. -/
structure ComparisonSort (α : Type) (key : α → Int) extends QSort α key where
  map : ∀ (f : α → α) (l : List α), (∀ a ∈ l, ∀ b ∈ l, key a ≤ key b ↔ key (f a) ≤ key (f b)) →
    sort (l.map f) = (sort l).map f

def ComparisonSort.insertion (α : Type) (key : α → Int) : ComparisonSort α key where
  toQSort := .insertion α key
  map f l h := (List.map_insertionSort (fun a b => key a ≤ key b) (fun a b => key a ≤ key b) f l h).symm

theorem QSort.mem (q : QSort α key) {l : List α} {x : α} : x ∈ q.sort l ↔ x ∈ l := (q.perm l).mem_iff

theorem QSort.length (q : QSort α key) (l : List α) : (q.sort l).length = l.length := (q.perm l).length_eq

/-- An ascending list is what is below a threshold followed by the rest. -/
theorem split_at (t : Int) : ∀ {l : List α}, (l.Pairwise fun a b => key a ≤ key b) →
    ∃ low high, l = low ++ high ∧ (∀ a ∈ low, key a < t) ∧ (∀ a ∈ high, t ≤ key a)
  | [], _ => ⟨[], [], rfl, by simp, by simp⟩
  | x :: l, hp => by
    obtain ⟨hx, hl⟩ := List.pairwise_cons.1 hp
    by_cases hlt : key x < t
    · obtain ⟨low, high, rfl, h1, h2⟩ := split_at t hl
      exact ⟨x :: low, high, rfl, by simpa [hlt] using h1, h2⟩
    · refine ⟨[], x :: l, rfl, by simp, fun a ha => ?_⟩
      rcases List.mem_cons.1 ha with rfl | ha
      · omega
      · have := hx a ha; omega

/-- The part below the threshold is the filtered list, up to order. -/
theorem split_at_perm {t : Int} {l low high : List α} (hl : (low ++ high).Perm l)
    (h1 : ∀ a ∈ low, key a < t) (h2 : ∀ a ∈ high, t ≤ key a) : low.Perm (l.filter fun a => key a < t) := by
  have hf := hl.filter fun a => decide (key a < t)
  rw [List.filter_append, List.filter_eq_self.2 (by simpa using h1),
    List.filter_eq_nil_iff.2 (fun a ha => by simpa using h2 a ha), List.append_nil] at hf
  exact hf

end Sorting
