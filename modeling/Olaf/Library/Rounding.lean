import Mathlib.Algebra.Order.Round
import Mathlib.Data.Int.Log
import Mathlib.Data.Rat.Floor
import Mathlib.Tactic.Linarith
import Mathlib.Tactic.Positivity
/-!
# Rounding to the nearest value of a binary format

A format has so many significant binary digits and a smallest place. What an operation returns in such a format is the
exact result rounded to the nearest value, to the even one of two (`round`); the values here are rationals, and results too
large for a real format are not cut off. Rounding is monotone (`round_mono`), so comparisons outlast it.
-/

namespace Rounding

/-- `precision` significant digits, none of them less than `2 ^ least`. -/
structure Format where
  precision : Nat
  least : ℤ
  positive : 1 ≤ precision

def Format.binary32 : Format := ⟨24, -149, by decide⟩

/-- The nearest integer, the even one of two. -/
def nearest (x : ℚ) : ℤ :=
  if x - ⌊x⌋ < 1 / 2 then ⌊x⌋
  else if 1 / 2 < x - ⌊x⌋ then ⌊x⌋ + 1
  else if ⌊x⌋ % 2 = 0 then ⌊x⌋ else ⌊x⌋ + 1

theorem nearest_floor (x : ℚ) : ⌊x⌋ ≤ nearest x ∧ nearest x ≤ ⌊x⌋ + 1 := by
  unfold nearest
  split_ifs <;> omega

@[simp] theorem nearest_intCast (n : ℤ) : nearest n = n := by
  simp [nearest]

theorem nearest_mono {x y : ℚ} (h : x ≤ y) : nearest x ≤ nearest y := by
  rcases (Int.floor_mono h).lt_or_eq with hlt | heq
  · have := (nearest_floor x).2
    have := (nearest_floor y).1
    omega
  · unfold nearest
    rw [heq]
    split_ifs <;> first | omega | (exfalso; linarith)

/-- The exponent of the last place of the values around `x`. -/
def place (f : Format) (x : ℚ) : ℤ := max (Int.log 2 |x| + 1 - f.precision) f.least

def round (f : Format) (x : ℚ) : ℚ := nearest (x / 2 ^ place f x) * 2 ^ place f x

section Round
variable {f : Format} {x y v : ℚ}

/-- A multiple of the last place, which rounding cannot pass. -/
def Multiple (f : Format) (x v : ℚ) : Prop := ∃ n : ℤ, v = n * 2 ^ place f x

theorem multiple_zero (f : Format) (x : ℚ) : Multiple f x 0 := ⟨0, by simp⟩

theorem Multiple.neg (h : Multiple f x v) : Multiple f x (-v) := by
  obtain ⟨n, rfl⟩ := h
  exact ⟨-n, by push_cast; ring⟩

/-- Powers of two from the last place on. -/
theorem multiple_power {e : ℤ} (h : place f x ≤ e) : Multiple f x (2 ^ e) := by
  obtain ⟨k, hk⟩ := Int.le.dest h
  refine ⟨2 ^ k, ?_⟩
  rw [← hk, zpow_add₀ (by norm_num), zpow_natCast, mul_comm]
  norm_num

theorem power_pos (e : ℤ) : (0 : ℚ) < 2 ^ e := zpow_pos (by norm_num) e

theorem round_le (hv : Multiple f x v) (h : x ≤ v) : round f x ≤ v := by
  obtain ⟨n, rfl⟩ := hv
  have hn := nearest_mono ((div_le_iff₀ (power_pos _)).2 h)
  rw [nearest_intCast] at hn
  exact mul_le_mul_of_nonneg_right (by exact_mod_cast hn) (power_pos _).le

theorem le_round (hv : Multiple f x v) (h : v ≤ x) : v ≤ round f x := by
  obtain ⟨n, rfl⟩ := hv
  have hn := nearest_mono ((le_div_iff₀ (power_pos _)).2 h)
  rw [nearest_intCast] at hn
  exact mul_le_mul_of_nonneg_right (by exact_mod_cast hn) (power_pos _).le

theorem round_nonneg (h : 0 ≤ x) : 0 ≤ round f x := le_round (multiple_zero f x) h

theorem round_nonpos (h : x ≤ 0) : round f x ≤ 0 := round_le (multiple_zero f x) h

@[simp] theorem round_zero (f : Format) : round f 0 = 0 := le_antisymm (round_nonpos le_rfl) (round_nonneg le_rfl)

theorem place_mono (hx : x ≠ 0) (h : |x| ≤ |y|) : place f x ≤ place f y := by
  have := Int.log_mono_right (b := 2) (abs_pos.2 hx) h
  unfold place
  omega

/-- Where the last place changes, a power of two lies between that is a multiple of both. -/
theorem exists_power (hx : x ≠ 0) (h : |x| ≤ |y|) (hne : place f x ≠ place f y) :
    ∃ e : ℤ, Multiple f x (2 ^ e) ∧ Multiple f y (2 ^ e) ∧ |x| ≤ 2 ^ e ∧ 2 ^ e ≤ |y| := by
  have hle := place_mono (f := f) hx h
  have hy : 0 < |y| := (abs_pos.2 hx).trans_le h
  have hp := f.positive
  have hlog : Int.log 2 |x| < Int.log 2 |y| ∧ place f y ≤ Int.log 2 |y| := by
    unfold place at hle hne ⊢
    omega
  have hlt := (Int.lt_zpow_iff_log_lt (by decide) (abs_pos.2 hx)).2 hlog.1
  have hge := Int.zpow_log_le_self (b := 2) (by decide) hy
  exact ⟨_, multiple_power (hle.trans hlog.2), multiple_power hlog.2, by exact_mod_cast hlt.le, by exact_mod_cast hge⟩

/-- **Rounding is monotone.** -/
theorem round_mono (h : x ≤ y) : round f x ≤ round f y := by
  by_cases hsame : place f x = place f y
  · have hn := nearest_mono (div_le_div_of_nonneg_right h (power_pos (place f y)).le)
    rw [round, round, hsame]
    exact mul_le_mul_of_nonneg_right (by exact_mod_cast hn) (power_pos _).le
  rcases lt_trichotomy x 0 with hx | rfl | hx
  · rcases le_or_gt 0 y with hy | hy
    · exact (round_nonpos hx.le).trans (round_nonneg hy)
    · obtain ⟨e, hmy, hmx, hle, hge⟩ := exists_power (f := f) hy.ne
        (by rw [abs_of_neg hx, abs_of_neg hy]; linarith) (Ne.symm hsame)
      rw [abs_of_neg hy] at hle
      rw [abs_of_neg hx] at hge
      exact (round_le hmx.neg (by linarith)).trans (le_round hmy.neg (by linarith))
  · rw [round_zero]
    exact round_nonneg h
  · have hy := hx.trans_le h
    obtain ⟨e, hmx, hmy, hle, hge⟩ := exists_power (f := f) hx.ne' (by rwa [abs_of_pos hx, abs_of_pos hy]) hsame
    rw [abs_of_pos hx] at hle
    rw [abs_of_pos hy] at hge
    exact (round_le hmx hle).trans (le_round hmy hge)

end Round

example : round .binary32 (1 / 10) = 13421773 / 134217728 := by decide +kernel

example : round .binary32 16777217 = 16777216 := by decide +kernel

end Rounding
