import Mathlib.Data.Nat.Bitwise
import Mathlib.Data.Nat.ModEq
import Mathlib.Data.Nat.Prime.Basic
/-!
# The steps of a mixing hash

Hashes of words of `w` bits are built from two steps: adding a word to its own left shift, and xoring it with its own right
shift. The first is a multiplication by an odd number, the second can be undone from the top bit down, so neither lets two
words meet.
-/

namespace Mixing

variable {w k x y : Nat}

/-- The factor is odd. -/
theorem addShift_inj (hk : 0 < k) (hx : x < 2 ^ w) (hy : y < 2 ^ w)
    (h : (x + x <<< k) % 2 ^ w = (y + y <<< k) % 2 ^ w) : x = y := by
  have hmul : ∀ z, z + z <<< k = z * (1 + 2 ^ k) := fun z => by rw [Nat.shiftLeft_eq, Nat.mul_add, Nat.mul_one]
  have hodd : ¬ 2 ∣ 1 + 2 ^ k := by
    have : 2 ∣ 2 ^ k := dvd_pow_self 2 (by omega)
    omega
  have hcoprime : Nat.gcd (2 ^ w) (1 + 2 ^ k) = 1 :=
    Nat.Coprime.pow_left w ((Nat.Prime.coprime_iff_not_dvd Nat.prime_two).2 hodd)
  rw [hmul, hmul] at h
  exact Nat.ModEq.eq_of_lt_of_lt (Nat.ModEq.cancel_right_of_coprime hcoprime h) hx hy

/-- The top bits are those of the word. -/
theorem xorShift_inj (hk : 0 < k) (h : x ^^^ (x >>> k) = y ^^^ (y >>> k)) : x = y := by
  -- the difference is its own shift
  have hdiff : x ^^^ y = (x ^^^ y) >>> k := by
    calc x ^^^ y = x ^^^ (x >>> k) ^^^ (x >>> k) ^^^ y := by rw [Nat.xor_xor_cancel_right]
      _ = y ^^^ (y >>> k) ^^^ (x >>> k) ^^^ y := by rw [h]
      _ = (x >>> k) ^^^ (y >>> k) := by
          rw [Nat.xor_comm, Nat.xor_assoc, Nat.xor_xor_cancel_left, Nat.xor_comm]
      _ = (x ^^^ y) >>> k := Nat.shiftRight_xor_distrib.symm
  rw [Nat.shiftRight_eq_div_pow] at hdiff
  have hzero : x ^^^ y = 0 := by
    by_contra hne
    have := Nat.div_lt_self (Nat.pos_of_ne_zero hne) (Nat.one_lt_two_pow (by omega : k ≠ 0))
    omega
  exact Nat.eq_of_xor_eq_zero hzero

end Mixing
