import Olaf.InOrder
import Olaf.FpMatcher
/-!
# The search range around a hash (`olaf_fp_matcher_match_single_fingerprint`)

| here | there |
| --- | --- |
| `fields`   | the fields of the hash above the time span (`olaf_fp_extractor.c:132-143`) |
| `Produced` | a fingerprint that `olaf_fp_extractor_extract_three` emits under the default configuration |

The keys looked up are `FpMatcher.startKey` and `FpMatcher.stopKey`. The time span sits in the low six bits
("6 bits max"), so that nearby hashes differ in their time span only. Each of the two distance tests lets 33
blocks pass, so the span reaches 66 and wraps: spans of 64 and 4 get neighbouring hashes, spans of 64 and 60
do not. `lookup_iff` says exactly for which pairs the range finds what it is meant to find.
-/

namespace Olaf

variable {V : Type}

namespace Fingerprint

/-- The fields of the hash above the time span, in order; the three magnitude flags are always zero. -/
def fields (f : Fingerprint V) : List Nat :=
  [flag (f.frequencyBin1 > f.frequencyBin2), flag (f.frequencyBin2 > f.frequencyBin3),
    flag (f.frequencyBin3 > f.frequencyBin1), 0, 0, 0,
    flag (f.timeIndex2 - f.timeIndex1 > f.timeIndex3 - f.timeIndex2),
    flag ((f.frequencyBin2 - f.frequencyBin1).natAbs > (f.frequencyBin3 - f.frequencyBin2).natAbs),
    (f.frequencyBin1 / 2 % 256).toNat, (f.frequencyBin2 - f.frequencyBin1).natAbs / 4 % 64,
    (f.frequencyBin3 - f.frequencyBin2).natAbs / 4 % 64]

/-- Numbers below their widths can be read off their weighted sum. -/
theorem pack_inj {a b c d e x y z a' b' c' d' e' x' y' z' : Nat} (ha : a < 2) (hb : b < 2) (hc : c < 2) (hd : d < 2)
    (he : e < 2) (hx : x < 256) (hy : y < 64) (ha' : a' < 2) (hb' : b' < 2) (hc' : c' < 2) (hd' : d' < 2) (he' : e' < 2)
    (hx' : x' < 256) (hy' : y' < 64)
    (h : a + 2 * b + 4 * c + 64 * d + 128 * e + 256 * x + 2 ^ 16 * y + 2 ^ 22 * z =
      a' + 2 * b' + 4 * c' + 64 * d' + 128 * e' + 256 * x' + 2 ^ 16 * y' + 2 ^ 22 * z') :
    a = a' ∧ b = b' ∧ c = c' ∧ d = d' ∧ e = e' ∧ x = x' ∧ y = y' ∧ z = z' := by
  -- from the top down, one width at a time
  have hz : z = z' := by omega
  have hyy : y = y' := by omega
  have hxx : x = x' := by omega
  have hee : e = e' := by omega
  have hdd : d = d' := by omega
  have hcc : c = c' := by omega
  have hbb : b = b' := by omega
  exact ⟨by omega, hbb, hcc, hdd, hee, hxx, hyy, hz⟩

theorem features_eq_iff (f g : Fingerprint V) : f.features = g.features ↔ f.fields = g.fields := by
  constructor
  · intro h
    obtain ⟨h1, h2, h3, h4, h5, h6, h7, h8⟩ := pack_inj (flag_lt _) (flag_lt _) (flag_lt _) (flag_lt _) (flag_lt _)
      (by omega) (Nat.mod_lt _ (by omega)) (flag_lt _) (flag_lt _) (flag_lt _) (flag_lt _) (flag_lt _) (by omega)
      (Nat.mod_lt _ (by omega)) h
    simp only [fields, h1, h2, h3, h4, h5, h6, h7, h8]
  · intro h
    simp only [fields, List.cons.injEq, and_true, true_and] at h
    obtain ⟨h1, h2, h3, h4, h5, h6, h7, h8⟩ := h
    simp only [features, h1, h2, h3, h4, h5, h6, h7, h8]

end Fingerprint

namespace FpExtractor
open Fingerprint FpMatcher

variable [Sample V]

structure Produced (V : Type) [Sample V] where
  fingerprint : Fingerprint V
  eventPoints : EventPoints V
  audioBlockIndex : Int
  shaped : eventPoints.Shaped (.default V)
  ascending : eventPoints.live.Pairwise fun a b => a.timeIndex ≤ b.timeIndex
  bins : ∀ p ∈ eventPoints.live, 9 ≤ p.frequencyBin ∧ p.frequencyBin ≤ 510
  emitted : fingerprint ∈ (extractThree (.default V) eventPoints [] audioBlockIndex).fingerprints

/-- What the tests let through: the span is between 4 and 66, the first bin is in range. -/
theorem Produced.bounds (p : Produced V) :
    4 ≤ p.fingerprint.timeSpan ∧ p.fingerprint.timeSpan ≤ 66 ∧ 9 ≤ p.fingerprint.frequencyBin1 ∧
      p.fingerprint.frequencyBin1 ≤ 510 := by
  have hn := p.shaped.index_le
  obtain ⟨L, he, _, hmay, _⟩ := combine_yields (.default V) p.eventPoints [] p.audioBlockIndex hn
  have hemit := p.emitted
  rw [show extractThree (.default V) p.eventPoints [] p.audioBlockIndex =
    combine (.default V) p.eventPoints [] p.audioBlockIndex from rfl, he.fingerprints, List.nil_append] at hemit
  obtain ⟨c, hc, hf⟩ := List.mem_map.1 hemit
  have hc := hmay c hc
  have hlt := hc.lt; have hle := hc.le; have hb := hc.bound
  have hbin := p.bins _ (mem_live.2 ⟨c.1, by omega, by omega, rfl⟩)
  obtain ⟨h1, h2, _⟩ := hc.near
  rcases hc.third with ⟨h, _⟩ | ⟨_, _, h3, h4, _⟩
  · exact absurd h (show ¬ (3 : Int) = 2 by decide)
  · rw [← hf]
    simp only [fingerprintOf, FpExtractor.fingerprint, timeSpan]
    simp only [Config.default] at h1 h2 h3 h4
    omega

/-- The exact condition. With equal features the spans are not torn apart or pushed together by the wrap at
64; with consecutive features the span does not carry. -/
structure Separated (p q : Fingerprint V) : Prop where
  wrap : p.features = q.features → 64 ≤ p.timeSpan → q.timeSpan < 64 →
    p.timeSpan - q.timeSpan < 59 ∧ 5 < p.timeSpan - q.timeSpan
  wrap' : p.features = q.features → 64 ≤ q.timeSpan → p.timeSpan < 64 →
    q.timeSpan - p.timeSpan < 59 ∧ 5 < q.timeSpan - p.timeSpan
  carry : q.features = p.features + 1 → p.timeSpan % 64 < 59 + q.timeSpan % 64
  borrow : p.features = q.features + 1 → q.timeSpan % 64 < 59 + p.timeSpan % 64

/-- Two packed numbers at most five apart: equal above the low six bits, or consecutive there and next to the
carry below. -/
theorem near_pack {a b F G : Nat} (ha : a < 64) (hb : b < 64) (h : 5 ≤ a + 64 * F) :
    (a + 64 * F - 5 ≤ b + 64 * G ∧ b + 64 * G ≤ a + 64 * F + 5) ↔
      (F = G ∧ a ≤ b + 5 ∧ b ≤ a + 5) ∨ (G = F + 1 ∧ 59 + b ≤ a) ∨ (F = G + 1 ∧ 59 + a ≤ b) := by
  constructor
  · rintro ⟨h1, h2⟩
    rcases Nat.lt_trichotomy F G with hlt | heq | hgt
    · exact Or.inr (Or.inl (by omega))
    · exact Or.inl (by omega)
    · exact Or.inr (Or.inr (by omega))
  · rintro (⟨rfl, h1, h2⟩ | ⟨rfl, h1⟩ | ⟨rfl, h1⟩) <;> omega

omit [Sample V] in
theorem near_hash (f g : Fingerprint V) (h : 5 ≤ f.hash) :
    (f.hash - 5 ≤ g.hash ∧ g.hash ≤ f.hash + 5) ↔
      (f.features = g.features ∧ f.timeSpan % 64 ≤ g.timeSpan % 64 + 5 ∧ g.timeSpan % 64 ≤ f.timeSpan % 64 + 5) ∨
      (g.features = f.features + 1 ∧ 59 + g.timeSpan % 64 ≤ f.timeSpan % 64) ∨
      (f.features = g.features + 1 ∧ 59 + f.timeSpan % 64 ≤ g.timeSpan % 64) := by
  have hf : ((f.timeSpan % 64).toNat : Int) = f.timeSpan % 64 := Int.toNat_of_nonneg (by omega)
  have hg : ((g.timeSpan % 64).toNat : Int) = g.timeSpan % 64 := Int.toNat_of_nonneg (by omega)
  rw [hash_eq] at h
  rw [hash_eq, hash_eq, near_pack (by omega) (by omega) h, ← hf, ← hg]
  norm_cast

theorem Produced.keys (p : Produced V) : 5 ≤ p.fingerprint.hash ∧
    startKey (.default V) p.fingerprint.hash = p.fingerprint.hash - 5 ∧
    stopKey (.default V) p.fingerprint.hash = p.fingerprint.hash + 5 := by
  obtain ⟨_, _, h1, h2⟩ := p.bounds
  exact keys_default h1 h2

/-- **The search range finds the fingerprints with the same features and a span at most `searchRange` away,
exactly for separated pairs.** -/
theorem lookup_iff (p q : Produced V) :
    ((startKey (.default V) p.fingerprint.hash ≤ q.fingerprint.hash ∧
        q.fingerprint.hash ≤ stopKey (.default V) p.fingerprint.hash) ↔
      (p.fingerprint.fields = q.fingerprint.fields ∧
        (p.fingerprint.timeSpan - q.fingerprint.timeSpan).natAbs ≤ (Config.default V).searchRange)) ↔
    Separated p.fingerprint q.fingerprint := by
  obtain ⟨hp1, hp2, _⟩ := p.bounds
  obtain ⟨hq1, hq2, _⟩ := q.bounds
  obtain ⟨hlow, hstart, hstop⟩ := p.keys
  have hrange : (Config.default V).searchRange = 5 := rfl
  rw [hstart, hstop, hrange, ← features_eq_iff, near_hash _ _ hlow]
  generalize p.fingerprint = f at *
  generalize q.fingerprint = g at *
  constructor
  · intro h
    -- what the equivalence says when the features are equal
    have heq : f.features = g.features →
        ((f.timeSpan % 64 ≤ g.timeSpan % 64 + 5 ∧ g.timeSpan % 64 ≤ f.timeSpan % 64 + 5) ↔
          (f.timeSpan - g.timeSpan).natAbs ≤ 5) := by
      intro he
      constructor
      · intro hlow
        exact (h.1 (Or.inl ⟨he, hlow⟩)).2
      · intro hspan
        rcases h.2 ⟨he, hspan⟩ with h1 | h1 | h1
        · exact h1.2
        · omega
        · omega
    refine ⟨fun he h1 h2 => ?_, fun he h1 h2 => ?_, fun he => ?_, fun he => ?_⟩
    · have := heq he; omega
    · have := heq he; omega
    · by_contra hcarry
      have := (h.1 (Or.inr (Or.inl ⟨he, by omega⟩))).1
      omega
    · by_contra hborrow
      have := (h.1 (Or.inr (Or.inr ⟨he, by omega⟩))).1
      omega
  · rintro ⟨hwrap, hwrap', hcarry, hborrow⟩
    constructor
    · rintro (⟨he, h1⟩ | ⟨he, h1⟩ | ⟨he, h1⟩)
      · have h2 := hwrap he; have h3 := hwrap' he
        clear hwrap hwrap' hcarry hborrow
        exact ⟨he, by omega⟩
      · exact absurd h1 (Int.not_le.2 (hcarry he))
      · exact absurd h1 (Int.not_le.2 (hborrow he))
    · rintro ⟨he, h1⟩
      have h2 := hwrap he; have h3 := hwrap' he
      clear hwrap hwrap' hcarry hborrow
      exact Or.inl ⟨he, by omega⟩

def trio (t1 t2 t3 : Int) : EventPoints ℚ :=
  (EventPoints.init (.default ℚ)).addPoints (.default ℚ) [⟨10, t1, 1, 0⟩, ⟨20, t2, 1, 0⟩, ⟨30, t3, 1, 0⟩]

/-- Steps of 31 and 33 blocks: a span of 64. -/
def wide : Produced ℚ where
  fingerprint := ⟨10, 11, 1, 20, 42, 1, 30, 75, 1⟩
  eventPoints := trio 11 42 75
  audioBlockIndex := 87
  shaped := (EventPoints.shaped_init _).addPoints _
  ascending := by decide +kernel
  bins := by decide +kernel
  emitted := by decide +kernel

/-- Two steps of 2 blocks: a span of 4. -/
def narrow : Produced ℚ where
  fingerprint := ⟨10, 11, 1, 20, 13, 1, 30, 15, 1⟩
  eventPoints := trio 11 13 15
  audioBlockIndex := 87
  shaped := (EventPoints.shaped_init _).addPoints _
  ascending := by decide +kernel
  bins := by decide +kernel
  emitted := by decide +kernel

theorem wide_finds_narrow :
    ¬ ∀ p q : Produced ℚ,
      (startKey (.default ℚ) p.fingerprint.hash ≤ q.fingerprint.hash ∧
          q.fingerprint.hash ≤ stopKey (.default ℚ) p.fingerprint.hash) ↔
        (p.fingerprint.fields = q.fingerprint.fields ∧
          (p.fingerprint.timeSpan - q.fingerprint.timeSpan).natAbs ≤ (Config.default ℚ).searchRange) := by
  intro h
  have := h wide narrow
  revert this
  decide +kernel

end FpExtractor

end Olaf
