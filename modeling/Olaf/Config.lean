import Mathlib.Order.MinMax
import Mathlib.Algebra.Order.Ring.Rat
/-!
# Sample values and the configuration record

| here | there |
| --- | --- |
| `Sample`         | the `float` values of the extractor: everything it asks of them is a comparison, a literal, `re * re + im * im` and `sqrt` |
| `Config`         | `struct Olaf_Config` (`olaf_config.h:50`), the fields that the modelled functions read |
| `Config.default` | `olaf_config_default` (`olaf_config.c:23`) |

Sizes and indices are `Nat`; the `int` fields the code compares with signed values are `Int`. The two
float fields of the matcher are durations in seconds and are kept as exact rationals.
-/

namespace Olaf

/-- The `float`s of the extractor. A comparison of two `float`s is a comparison in a linear order (no
NaN); rounding a literal is monotone and keeps `0` below `0.001`; the two arithmetic operations are
whatever the machine computes. -/
class Sample (V : Type) extends LinearOrder V where
  /-- A float literal of the source. -/
  lit : ℚ → V
  lit_mono : ∀ {a b : ℚ}, a ≤ b → lit a ≤ lit b
  lit_zero_lt : lit 0 < lit (1 / 1000)
  /-- `re * re + im * im`. -/
  power : V → V → V
  sqrt : V → V

/-- Exact rational arithmetic. `sqrt` is only reached under `sqrtMagnitude`, which no rational run here sets. -/
instance : Sample ℚ where
  lit q := q
  lit_mono h := h
  lit_zero_lt := by decide +kernel
  power re im := re * re + im * im
  sqrt q := q

/-- `struct Olaf_Config`. -/
structure Config (V : Type) where
  audioBlockSize : Nat
  audioSampleRate : Nat
  audioStepSize : Nat
  filterSizeTime : Nat
  halfFilterSizeTime : Nat
  minEventPointMagnitude : V
  minFrequencyBin : Nat
  maxEventPointUsages : Int
  maxEventPoints : Nat
  eventPointThreshold : Int
  sqrtMagnitude : Bool
  numberOfEPsPerFP : Int
  minTimeDistance : Int
  maxTimeDistance : Int
  minFreqDistance : Int
  maxFreqDistance : Int
  maxFingerprints : Nat
  searchRange : Nat
  keepMatchesFor : ℚ
  printResultEvery : ℚ
  maxDBCollisions : Nat

/-- `olaf_config_default` (`olaf_config.c:23`). -/
def Config.default (V : Type) [Sample V] : Config V where
  audioBlockSize := 1024
  audioSampleRate := 16000
  audioStepSize := 128
  filterSizeTime := 24
  halfFilterSizeTime := 12
  minEventPointMagnitude := Sample.lit (1 / 1000)
  minFrequencyBin := 9
  maxEventPointUsages := 10
  maxEventPoints := 60
  eventPointThreshold := 30
  sqrtMagnitude := false
  numberOfEPsPerFP := 3
  minTimeDistance := 2
  maxTimeDistance := 33
  minFreqDistance := 1
  maxFreqDistance := 128
  maxFingerprints := 300
  searchRange := 5
  keepMatchesFor := 0
  printResultEvery := 0
  maxDBCollisions := 2000

end Olaf
