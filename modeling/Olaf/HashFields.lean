import Olaf.SearchRange
import Olaf.TimeShift
/-!
# What a hash tells apart (`olaf_fp_extractor_hash`)

| here | there |
| --- | --- |
| `WithinLimits`  | the bins of a spectrum and the distances that the default configuration allows (`olaf_config.c:72-79`) |
| `SameQuantised` | what the hash keeps of a fingerprint (`olaf_fp_extractor.c:104-130`) |

The quotients fit their fields. The time span does not: two gaps of up to 33 blocks make up to 66, and the field has
six bits. But two gaps of at least 2 make at least 4, so the spans that wrap, to 0, 1 and 2, meet no other.
-/

namespace Olaf

variable {V : Type}

theorem flag_inj {p q : Prop} [Decidable p] [Decidable q] : flag p = flag q ↔ (p ↔ q) := by
  unfold flag
  by_cases hp : p <;> by_cases hq : q <;> simp [hp, hq]

namespace Fingerprint

/-- Bins of a spectrum, and gaps that the default configuration allows. -/
structure WithinLimits [Sample V] (f : Fingerprint V) : Prop where
  bin1 : 0 ≤ f.frequencyBin1 ∧ f.frequencyBin1 ≤ 511
  bin2 : 0 ≤ f.frequencyBin2 ∧ f.frequencyBin2 ≤ 511
  bin3 : 0 ≤ f.frequencyBin3 ∧ f.frequencyBin3 ≤ 511
  time12 : (Config.default V).minTimeDistance ≤ f.timeIndex2 - f.timeIndex1 ∧
    f.timeIndex2 - f.timeIndex1 ≤ (Config.default V).maxTimeDistance
  time23 : (Config.default V).minTimeDistance ≤ f.timeIndex3 - f.timeIndex2 ∧
    f.timeIndex3 - f.timeIndex2 ≤ (Config.default V).maxTimeDistance
  freq12 : (f.frequencyBin2 - f.frequencyBin1).natAbs ≤ (Config.default V).maxFreqDistance
  freq23 : (f.frequencyBin3 - f.frequencyBin2).natAbs ≤ (Config.default V).maxFreqDistance

structure SameQuantised (f g : Fingerprint V) : Prop where
  timeSpan : f.timeIndex3 - f.timeIndex1 = g.timeIndex3 - g.timeIndex1
  f1LargerThanF2 : f.frequencyBin1 > f.frequencyBin2 ↔ g.frequencyBin1 > g.frequencyBin2
  f2LargerThanF3 : f.frequencyBin2 > f.frequencyBin3 ↔ g.frequencyBin2 > g.frequencyBin3
  f3LargerThanF1 : f.frequencyBin3 > f.frequencyBin1 ↔ g.frequencyBin3 > g.frequencyBin1
  timeGaps : f.timeIndex2 - f.timeIndex1 > f.timeIndex3 - f.timeIndex2 ↔
    g.timeIndex2 - g.timeIndex1 > g.timeIndex3 - g.timeIndex2
  freqGaps : (f.frequencyBin2 - f.frequencyBin1).natAbs > (f.frequencyBin3 - f.frequencyBin2).natAbs ↔
    (g.frequencyBin2 - g.frequencyBin1).natAbs > (g.frequencyBin3 - g.frequencyBin2).natAbs
  f1Range : f.frequencyBin1 / 2 = g.frequencyBin1 / 2
  df2f1 : (f.frequencyBin2 - f.frequencyBin1).natAbs / 4 = (g.frequencyBin2 - g.frequencyBin1).natAbs / 4
  df3f2 : (f.frequencyBin3 - f.frequencyBin2).natAbs / 4 = (g.frequencyBin3 - g.frequencyBin2).natAbs / 4

/-- The span and the other fields do not mix. -/
theorem hash_eq_iff (f g : Fingerprint V) :
    f.hash = g.hash ↔ f.timeSpan % 64 = g.timeSpan % 64 ∧ f.fields = g.fields := by
  rw [← features_eq_iff, hash_eq, hash_eq]
  omega

variable [Sample V] {f g : Fingerprint V}

theorem WithinLimits.timeSpan (h : WithinLimits f) : 4 ≤ f.timeSpan ∧ f.timeSpan ≤ 66 := by
  have h12 := h.time12
  have h23 := h.time23
  simp only [Config.default] at h12 h23
  unfold Fingerprint.timeSpan
  omega

/-- No quotient is cut by its field. -/
theorem WithinLimits.ranges (h : WithinLimits f) : (f.frequencyBin1 / 2 % 256).toNat = f.frequencyBin1 / 2 ∧
    (f.frequencyBin2 - f.frequencyBin1).natAbs / 4 % 64 = (f.frequencyBin2 - f.frequencyBin1).natAbs / 4 ∧
    (f.frequencyBin3 - f.frequencyBin2).natAbs / 4 % 64 = (f.frequencyBin3 - f.frequencyBin2).natAbs / 4 := by
  have h1 := h.bin1
  have h12 := h.freq12
  have h23 := h.freq23
  simp only [Config.default] at h12 h23
  omega

/-- The spans that wrap meet no other. -/
theorem WithinLimits.timeSpan_eq_iff (hf : WithinLimits f) (hg : WithinLimits g) :
    f.timeSpan % 64 = g.timeSpan % 64 ↔ f.timeSpan = g.timeSpan := by
  have hf := hf.timeSpan
  have hg := hg.timeSpan
  omega

theorem WithinLimits.fields_eq_iff (hf : WithinLimits f) (hg : WithinLimits g) :
    f.timeSpan = g.timeSpan ∧ f.fields = g.fields ↔ SameQuantised f g := by
  obtain ⟨hf1, hf2, hf3⟩ := hf.ranges
  obtain ⟨hg1, hg2, hg3⟩ := hg.ranges
  simp only [fields, hf2, hf3, hg2, hg3, List.cons.injEq, flag_inj, true_and, and_true]
  constructor
  · rintro ⟨hspan, h12, h23, h31, ht, hd, hbin, hd12, hd23⟩
    exact ⟨hspan, h12, h23, h31, ht, hd, by omega, hd12, hd23⟩
  · rintro ⟨hspan, h12, h23, h31, ht, hd, hbin, hd12, hd23⟩
    exact ⟨hspan, h12, h23, h31, ht, hd, by omega, hd12, hd23⟩

/-- **The hash separates exactly the quantised fingerprints**, has 34 bits, and does not depend on when. -/
theorem hash_separates (hf : WithinLimits f) (hg : WithinLimits g) :
    (f.hash = g.hash ↔ SameQuantised f g) ∧ f.hash < 2 ^ 34 ∧ ∀ d, (f.later d).hash = f.hash := by
  refine ⟨?_, f.hash_lt, fun d => f.hash_later d⟩
  rw [hash_eq_iff, hf.timeSpan_eq_iff hg, hf.fields_eq_iff hg]

/-- A span of 66, which wraps to 2. -/
def widest : Fingerprint ℚ := ⟨10, 0, 1, 20, 33, 1, 30, 66, 1⟩

/-- A span of 4. -/
def narrowest : Fingerprint ℚ := ⟨10, 0, 1, 20, 2, 1, 30, 4, 1⟩

theorem hash_separates_widest : (widest.hash = narrowest.hash ↔ SameQuantised widest narrowest) ∧ widest.hash < 2 ^ 34 ∧
    ∀ d, (widest.later d).hash = widest.hash :=
  hash_separates (by constructor <;> decide) (by constructor <;> decide)

end Fingerprint

end Olaf
