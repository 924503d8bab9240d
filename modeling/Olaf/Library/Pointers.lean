import Mathlib.Data.List.Nodup
import Olaf.Library.Checked
/-!
# Arrays of pointers to buffers

A buffer is what is at its address. Through an array of different pointers a write to one buffer is a write to one element
(`map_update_get`), and an array that is moved one place to the left, with its first pointer put at the end, is rotated
(`Shifted`).
-/

namespace Pointers
open Checked

variable {A C : Type}

/-- `ptrs[i] = p`. -/
def store (ptrs : List A) (i : Nat) (p : A) : Option (List A) := if i < ptrs.length then some (ptrs.set i p) else none

/-- `ptrs[i - 1] = ptrs[i]`. -/
def shift (ptrs : List A) (i : Nat) : Option (List A) := do
  let p ← ptrs[i]?
  store ptrs (i - 1) p

/-- The pointer at `k` is one to `c`. -/
def PointsTo (ptrs : List A) (buffers : A → C) (k : Nat) (c : C) : Prop := ∃ p, ptrs[k]? = some p ∧ buffers p = c

/-! ## Writing through a pointer -/

section Update
variable [DecidableEq A] {ptrs : List A} {p : A}

theorem map_update_of_notMem (hp : p ∉ ptrs) (buffers : A → C) (c : C) :
    ptrs.map (Function.update buffers p c) = ptrs.map buffers := by
  refine List.map_congr_left fun q hq => Function.update_of_ne ?_ c buffers
  rintro rfl
  exact hp hq

theorem map_update_get (hnodup : ptrs.Nodup) {i : Nat} (hp : ptrs[i]? = some p) (buffers : A → C) (c : C) :
    ptrs.map (Function.update buffers p c) = (ptrs.map buffers).set i c := by
  obtain ⟨hi, rfl⟩ := List.getElem?_eq_some_iff.1 hp
  rw [hnodup.map_update, if_pos (List.getElem_mem hi), hnodup.idxOf_getElem]

end Update

/-! ## Moving the pointers -/

/-- The pointers up to `i` have moved one place to the left. -/
structure Shifted (old : List A) (i : Nat) (ptrs : List A) : Prop where
  length : ptrs.length = old.length
  moved : ∀ k, k + 1 < i → ptrs[k]? = old[k + 1]?
  rest : ∀ k, i ≤ k + 1 → ptrs[k]? = old[k]?

variable {old ptrs : List A} {i : Nat}

theorem Shifted.start (old : List A) : Shifted old 1 old := ⟨rfl, fun k hk => by omega, fun _ _ => rfl⟩

theorem Shifted.shift (h : Shifted old i ptrs) (hpos : 1 ≤ i) (hi : i < old.length) :
    Returns (shift ptrs i) (Shifted old (i + 1)) := by
  have hlen := h.length
  have hget : ptrs[i]? = some old[i] := by rw [h.rest i (by omega), List.getElem?_eq_getElem hi]
  rw [Pointers.shift, hget]
  refine ⟨ptrs.set (i - 1) old[i], if_pos (by omega), ?_, fun k hk => ?_, fun k hk => ?_⟩
  · rw [List.length_set, hlen]
  · by_cases hlast : k + 1 = i
    · obtain rfl : i - 1 = k := by omega
      rw [List.getElem?_set_self (by omega), List.getElem?_eq_getElem (by omega)]
      congr 2
      omega
    · rw [List.getElem?_set_ne (by omega), h.moved k (by omega)]
  · rw [List.getElem?_set_ne (by omega), h.rest k (by omega)]

/-- With the first pointer at the end, the array is rotated. -/
theorem Shifted.last {p : A} (h : Shifted old old.length ptrs) (hp : old[0]? = some p) :
    Returns (store ptrs (old.length - 1) p) fun ptrs' => ptrs' = old.drop 1 ++ old.take 1 := by
  cases old with
  | nil => cases hp
  | cons first rest =>
    obtain rfl := Option.some.inj hp
    have hlen := h.length
    rw [List.length_cons] at hlen ⊢
    refine ⟨ptrs.set rest.length first, if_pos (by omega), List.ext_getElem? fun k => ?_⟩
    rw [show (first :: rest).drop 1 ++ (first :: rest).take 1 = rest ++ [first] from rfl]
    rcases Nat.lt_trichotomy k rest.length with hk | hk | hk
    · rw [List.getElem?_set_ne (by omega), h.moved k (by rw [List.length_cons]; omega), List.getElem?_append_left hk]
      rfl
    · subst hk
      rw [List.getElem?_set_self (by omega), List.getElem?_concat_length]
    · rw [List.getElem?_eq_none (by rw [List.length_set]; omega), List.getElem?_eq_none (by simp; omega)]

end Pointers
