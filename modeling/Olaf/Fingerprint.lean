import Olaf.Config
/-!
# Fingerprints and their hash (`olaf_fp_extractor.h`, `olaf_fp_extractor_hash`)

The hash is a sum of shifted, masked fields. Every field is below its width, so the sum is the number
`timeSpan + 2^6 * features` with the time span modulo 64 in the low six bits (`hash_eq`).
-/

namespace Olaf

/-- `struct fingerprint`. -/
structure Fingerprint (V : Type) where
  frequencyBin1 : Int
  timeIndex1 : Int
  magnitude1 : V
  frequencyBin2 : Int
  timeIndex2 : Int
  magnitude2 : V
  frequencyBin3 : Int
  timeIndex3 : Int
  magnitude3 : V
deriving DecidableEq

variable {V : Type}

/-- The conversion of an `int` to `uint64_t`. -/
def u64 (x : Int) : Nat := (x % 2 ^ 64).toNat

/-- A C comparison as a number. -/
def flag (p : Prop) [Decidable p] : Nat := if p then 1 else 0

theorem flag_lt (p : Prop) [Decidable p] : flag p < 2 := by unfold flag; split <;> omega

/-- Masking the low six or eight bits of a converted `int`. -/
theorem u64_mod (x : Int) : u64 x % 64 = (x % 64).toNat ∧ u64 x % 256 = (x % 256).toNat := by
  unfold u64; omega

/-- A masked and shifted field of the hash: `(x & ((1 << width) - 1)) << shift`. -/
def field (x width shift : Nat) : Nat := (x &&& (1 <<< width - 1)) <<< shift

theorem field_eq (x width shift : Nat) : field x width shift = x % 2 ^ width * 2 ^ shift := by
  rw [field, Nat.shiftLeft_eq, Nat.shiftLeft_eq, Nat.one_mul, Nat.and_two_pow_sub_one_eq_mod]

namespace Fingerprint

/-- `olaf_fp_extractor_hash` (`olaf_fp_extractor.c:92`). The three magnitude comparisons are computed
there and then overwritten with zero. -/
def hash (f : Fingerprint V) : Nat :=
  let f1 := f.frequencyBin1
  let f2 := f.frequencyBin2
  let f3 := f.frequencyBin3
  let t1 := f.timeIndex1
  let t2 := f.timeIndex2
  let t3 := f.timeIndex3
  let f1LargerThanF2 := flag (f1 > f2)
  let f2LargerThanF3 := flag (f2 > f3)
  let f3LargerThanF1 := flag (f3 > f1)
  let m1LargerThanm2 := 0
  let m2LargerThanm3 := 0
  let m3LargerThanm1 := 0
  let dt1t2LargerThant3t2 := flag (t2 - t1 > t3 - t2)
  let df1f2LargerThanf3f2 := flag ((f2 - f1).natAbs > (f3 - f2).natAbs)
  let f1Range := u64 (f1 >>> (1 : Nat))
  let df2f1 := (f2 - f1).natAbs >>> 2
  let df3f2 := (f3 - f2).natAbs >>> 2
  let diffT := u64 (t3 - t1)
  field diffT 6 0 +
  field f1LargerThanF2 1 6 +
  field f2LargerThanF3 1 7 +
  field f3LargerThanF1 1 8 +
  field m1LargerThanm2 1 9 +
  field m2LargerThanm3 1 10 +
  field m3LargerThanm1 1 11 +
  field dt1t2LargerThant3t2 1 12 +
  field df1f2LargerThanf3f2 1 13 +
  field f1Range 8 14 +
  field df2f1 6 22 +
  field df3f2 6 28

/-- All fields of the hash but the time span, packed as they are packed above bit 6. -/
def features (f : Fingerprint V) : Nat :=
  flag (f.frequencyBin1 > f.frequencyBin2) +
  2 * flag (f.frequencyBin2 > f.frequencyBin3) +
  4 * flag (f.frequencyBin3 > f.frequencyBin1) +
  64 * flag (f.timeIndex2 - f.timeIndex1 > f.timeIndex3 - f.timeIndex2) +
  128 * flag ((f.frequencyBin2 - f.frequencyBin1).natAbs > (f.frequencyBin3 - f.frequencyBin2).natAbs) +
  256 * (f.frequencyBin1 / 2 % 256).toNat +
  2 ^ 16 * ((f.frequencyBin2 - f.frequencyBin1).natAbs / 4 % 64) +
  2 ^ 22 * ((f.frequencyBin3 - f.frequencyBin2).natAbs / 4 % 64)

/-- The time between the first and the last event point. -/
def timeSpan (f : Fingerprint V) : Int := f.timeIndex3 - f.timeIndex1

theorem hash_eq (f : Fingerprint V) : f.hash = (f.timeSpan % 64).toNat + 64 * f.features := by
  have hf := fun (p : Prop) [Decidable p] => Nat.mod_eq_of_lt (flag_lt p)
  simp only [hash, field_eq, Nat.shiftRight_eq_div_pow, Int.shiftRight_eq_div_pow, Nat.reducePow, Nat.pow_one, hf,
    (u64_mod _).1, (u64_mod _).2, features, timeSpan]
  omega

/-- The hash has 34 bits. -/
theorem hash_lt (f : Fingerprint V) : f.hash < 2 ^ 34 := by
  have hf := fun (p : Prop) [Decidable p] => flag_lt p
  have h1 := hf (f.frequencyBin1 > f.frequencyBin2)
  have h2 := hf (f.frequencyBin2 > f.frequencyBin3)
  have h3 := hf (f.frequencyBin3 > f.frequencyBin1)
  have h4 := hf (f.timeIndex2 - f.timeIndex1 > f.timeIndex3 - f.timeIndex2)
  have h5 := hf ((f.frequencyBin2 - f.frequencyBin1).natAbs > (f.frequencyBin3 - f.frequencyBin2).natAbs)
  rw [hash_eq]
  simp only [features]
  omega

end Fingerprint

end Olaf
