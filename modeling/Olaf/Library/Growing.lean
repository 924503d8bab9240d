import Mathlib.Data.List.Induction
/-!
# Lists that grow at their end

What is assumed of a run is often said of each of its elements, with the number of the element and the elements before it. In an
induction along the run it has to be taken apart into what it says of the run so far and of the next element: `each_concat`.
-/

namespace Growing

variable {α : Type} {l : List α} {a : α} {P : Nat → List α → α → Prop}

/-- Each element, and the last one. -/
theorem each_concat : (∀ i x, (l ++ [a])[i]? = some x → P i ((l ++ [a]).take i) x) ↔
    (∀ i x, l[i]? = some x → P i (l.take i) x) ∧ P l.length l a := by
  constructor
  · intro h
    refine ⟨fun i x hi => ?_, ?_⟩
    · have hlt := (List.getElem?_eq_some_iff.1 hi).1
      have hx := h i x (by rw [List.getElem?_append_left hlt, hi])
      rwa [List.take_append_of_le_length (Nat.le_of_lt hlt)] at hx
    · have hlast := h l.length a List.getElem?_concat_length
      rwa [List.take_left] at hlast
  · rintro ⟨hinit, hlast⟩ i x hi
    rcases Nat.lt_trichotomy i l.length with hlt | rfl | hgt
    · rw [List.getElem?_append_left hlt] at hi
      rw [List.take_append_of_le_length (Nat.le_of_lt hlt)]
      exact hinit i x hi
    · rw [List.getElem?_concat_length, Option.some.injEq] at hi
      rw [List.take_left, ← hi]
      exact hlast
    · rw [List.getElem?_eq_none (by rw [List.length_append, List.length_singleton]; omega)] at hi
      cases hi

/-- An element there is before the last one, or the last one. -/
theorem some_concat : (∃ i x, (l ++ [a])[i]? = some x ∧ P i ((l ++ [a]).take i) x) ↔
    (∃ i x, l[i]? = some x ∧ P i (l.take i) x) ∨ P l.length l a := by
  have hnone := each_concat (l := l) (a := a) (P := fun i pre x => ¬ P i pre x)
  rw [← not_iff_not]
  simpa only [not_exists, not_and, not_or] using hnone

/-- A shorter list has the same elements with the same ones before them. -/
theorem each_take (h : ∀ i x, l[i]? = some x → P i (l.take i) x) (n : Nat) :
    ∀ i x, (l.take n)[i]? = some x → P i ((l.take n).take i) x := by
  intro i x hi
  rw [List.getElem?_take] at hi
  split at hi
  · rw [List.take_take, Nat.min_eq_left (by omega)]
    exact h i x hi
  · cases hi

/-- Elements by their numbers. -/
theorem each_getD (d : α) : (∀ i, i < l.length → P i (l.take i) (l.getD i d)) ↔
    ∀ i x, l[i]? = some x → P i (l.take i) x := by
  constructor
  · intro h i x hi
    have hx := h i (List.getElem?_eq_some_iff.1 hi).1
    rwa [List.getD_eq_getElem?_getD, hi] at hx
  · intro h i hi
    rw [List.getD_eq_getElem?_getD, List.getElem?_eq_getElem hi]
    exact h i _ (List.getElem?_eq_getElem hi)

end Growing
