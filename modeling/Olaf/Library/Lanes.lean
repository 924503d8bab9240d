import Mathlib.Data.Fin.VecNotation
import Mathlib.Order.Bounds.Basic
import Olaf.Library.WindowMax
/-!
# Maxima in the lanes of a register

A register of `w` lanes runs over an array in steps of `w`: lane `l` sees the elements whose indices leave `l` when divided by `w`
(`stripe`), and together the lanes see them all. `LaneMax` says that each lane has the maximum of what it has seen, and the
maximum over the lanes is then the one over the array (`LaneMax.isMaxOver`), in whatever order it is taken.
-/

namespace Lanes
open WindowMax

variable {V : Type} [LinearOrder V] {w : Nat}

/-- The indices below `stop` that lane `l` sees. -/
def stripe (w stop l : Nat) : Set Nat := {i | i < stop ∧ i % w = l}

theorem stripe_first {l : Nat} (hl : l < w) : stripe w w l = {l} := by
  ext i
  rw [stripe, Set.mem_ofPred_eq, Set.mem_singleton_iff]
  constructor
  · rintro ⟨hi, hmod⟩
    rwa [Nat.mod_eq_of_lt hi] at hmod
  · rintro rfl
    exact ⟨hl, Nat.mod_eq_of_lt hl⟩

/-- One step adds one element. -/
theorem stripe_next {stop l : Nat} (hstop : w ∣ stop) (hl : l < w) :
    stripe w (stop + w) l = insert (stop + l) (stripe w stop l) := by
  obtain ⟨n, rfl⟩ := hstop
  ext i
  rw [Set.mem_insert_iff, stripe, stripe, Set.mem_ofPred_eq, Set.mem_ofPred_eq]
  constructor
  · rintro ⟨hi, hmod⟩
    by_cases hlt : i < w * n
    · exact Or.inr ⟨hlt, hmod⟩
    · have hdiv : i / w = n := Nat.div_eq_of_lt_le (by rw [Nat.mul_comm]; omega) (by rw [Nat.succ_mul, Nat.mul_comm]; omega)
      have hsplit := Nat.div_add_mod i w
      rw [hdiv, hmod] at hsplit
      exact Or.inl hsplit.symm
  · rintro (rfl | ⟨hi, hmod⟩)
    · exact ⟨by omega, by rw [Nat.mul_add_mod, Nat.mod_eq_of_lt hl]⟩
    · exact ⟨by omega, hmod⟩

/-- Each lane has the maximum of the elements that it has seen. -/
def LaneMax (a : Nat → V) (stop : Nat) (v : Fin w → V) : Prop := ∀ l : Fin w, IsGreatest (a '' stripe w stop l) (v l)

theorem laneMax_first (a : Nat → V) {v : Fin w → V} (hv : ∀ l : Fin w, v l = a l) : LaneMax a w v := by
  intro l
  rw [stripe_first l.isLt, Set.image_singleton, hv]
  exact isGreatest_singleton

theorem LaneMax.next {a : Nat → V} {stop : Nat} {v x : Fin w → V} (h : LaneMax a stop v) (hstop : w ∣ stop)
    (hx : ∀ l : Fin w, x l = a (stop + l)) : LaneMax a (stop + w) fun l => max (v l) (x l) := by
  intro l
  dsimp only
  rw [stripe_next hstop l.isLt, Set.image_insert_eq, max_comm, hx]
  exact (h l).insert _

/-- The maximum over the lanes is the one over the array. -/
theorem LaneMax.isMaxOver {a : Nat → V} {hi : Nat} {v : Fin w → V} {m : V} (h : LaneMax a (hi + 1) v) (hw : 0 < w)
    (hm : IsGreatest (Set.range v) m) : IsMaxOver a 0 hi m := by
  obtain ⟨⟨l, hl⟩, hbound⟩ := hm
  constructor
  · intro i _ hi'
    let lane : Fin w := ⟨i % w, Nat.mod_lt i hw⟩
    calc a i ≤ v lane := (h lane).2 ⟨i, ⟨by omega, rfl⟩, rfl⟩
      _ ≤ m := hbound ⟨lane, rfl⟩
  · obtain ⟨i, ⟨hi', _⟩, hai⟩ := (h l).1
    exact ⟨i, Nat.zero_le i, by omega, hai.trans hl⟩

end Lanes
