import Mathlib.Data.List.Range
/-!
# An array that is filled round after round

The slots of an array of a given size are gone through in order, again and again, and the `n`-th turn changes what its slot
holds. What a turn does not change is left from the round before, so what the slot holds after turn `n` is a recursion
that steps back by the size: `held`. `Filled` is the array after a number of turns.
-/

namespace Rounds

variable {S : Type} (size : Nat) (init : S) (turn : Nat → S → S)

/-- What the slot of turn `n` holds after it. -/
def held (n : Nat) : S := turn n (if _h : n < size ∨ size = 0 then init else held (n - size))
termination_by n
decreasing_by omega

/-- The array after `n` turns. -/
structure Filled (n : Nat) (slots : List S) : Prop where
  length : slots.length = size
  recent : ∀ p, p < n → n ≤ p + size → slots[p % size]? = some (held size init turn p)
  fresh : ∀ j, n ≤ j → j < size → slots[j]? = some init

variable {size init turn} {n : Nat} {slots : List S}

theorem filled_start : Filled size init turn 0 (List.replicate size init) where
  length := List.length_replicate
  recent p h _ := absurd h (Nat.not_lt_zero p)
  fresh j _ hj := by rw [List.getElem?_replicate, if_pos hj]

theorem held_early (hn : n < size) : held size init turn n = turn n init := by
  rw [held, dif_pos (Or.inl hn)]

theorem held_late (hsize : 0 < size) (hn : size ≤ n) : held size init turn n = turn n (held size init turn (n - size)) := by
  rw [held, dif_neg (by omega)]

/-- The slot of the next turn, after it. -/
theorem Filled.next (h : Filled size init turn n slots) (hsize : 0 < size) :
    (slots.modify (n % size) (turn n))[n % size]? = some (held size init turn n) := by
  rw [List.getElem?_modify_eq]
  by_cases hn : n < size
  · rw [held_early hn, Nat.mod_eq_of_lt hn, h.fresh n (Nat.le_refl n) hn]
    rfl
  · rw [held_late hsize (by omega), Nat.mod_eq_sub_mod (by omega), h.recent (n - size) (by omega) (by omega)]
    rfl

theorem Filled.succ (h : Filled size init turn n slots) (hsize : 0 < size) :
    Filled size init turn (n + 1) (slots.modify (n % size) (turn n)) where
  length := by rw [List.length_modify, h.length]
  recent p hp hn := by
    rcases Nat.lt_or_eq_of_le (Nat.le_of_lt_succ hp) with hlt | rfl
    · -- the last `size` turns have different slots
      have hslot : n % size ≠ p % size := by
        intro heq
        have hdvd : size ∣ n - p := Nat.dvd_of_mod_eq_zero (Nat.sub_mod_eq_zero_of_mod_eq heq)
        exact absurd (Nat.le_of_dvd (by omega) hdvd) (by omega)
      rw [List.getElem?_modify_ne _ _ hslot, h.recent p hlt (by omega)]
    · exact h.next hsize
  fresh j hj hlt := by
    rw [List.getElem?_modify_ne, h.fresh j (by omega) hlt]
    rw [Nat.mod_eq_of_lt (by omega)]
    omega

/-- The slots of the round that turn `n` is in, up to it. -/
theorem Filled.take (h : Filled size init turn n slots) {k : Nat} (hk : k ≤ n) (hle : k ≤ size) (hmod : (n - k) % size = 0) :
    slots.take k = (List.range' (n - k) k).map (held size init turn) := by
  apply List.ext_getElem?
  intro i
  by_cases hi : i < k
  · have hslot : (n - k + i) % size = i := by
      rw [Nat.add_mod, hmod, Nat.zero_add, Nat.mod_mod, Nat.mod_eq_of_lt (by omega)]
    rw [List.getElem?_take_of_lt hi, List.getElem?_map, List.getElem?_range' (by omega), Nat.one_mul, Option.map_some,
      ← h.recent (n - k + i) (by omega) (by omega), hslot]
  · rw [List.getElem?_eq_none (by rw [List.length_take]; omega), List.getElem?_eq_none (by simp; omega)]

end Rounds
