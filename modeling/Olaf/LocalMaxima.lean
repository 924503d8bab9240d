import Olaf.Impulses
import Olaf.InOrder
/-!
# Event points are maxima in frequency and time

| here | there |
| --- | --- |
| `InWindow` | the bins whose maximum `olaf_max_filter` puts at bin `f` (`olaf_max_filter_perceptual_van_herk.c:93`, `:120`) |
| `found`    | the event points that one call of `extract_internal` has for the buffer (`olaf_ep_extractor.c:139-181`) |

A bin that the filter writes holds the maximum of its window in each of the frames of the ring, and the largest of
these is what an event point has to equal. A bin that it does not write holds the zero of `calloc`, however often the
ring was rotated, and no magnitude above the threshold equals that.
-/

namespace Olaf.EpExtractor
open WindowMax MaxFilter

variable {V : Type} [Sample V]

/-- The frequency window of bin `f`: `[min_idx[f], max_idx[f])` in the table, 51 bins to either side above it. -/
def InWindow (f g : Nat) : Prop :=
  if f ≤ 81 then perceptualMinIdx.getD f 0 ≤ g ∧ g < perceptualMaxIdx.getD f 0 else f - 51 ≤ g ∧ g ≤ f + 51

theorem inWindow_iff {f g : Nat} (hf : Filtered f) : InWindow f g ↔ windowLo f ≤ g ∧ g ≤ windowHi f := by
  obtain ⟨h1, h2, _⟩ := window_mem hf
  unfold InWindow
  unfold windowLo windowHi at *
  by_cases h : f < 82
  · simp only [h, show f ≤ 81 by omega, ↓reduceIte] at h1 h2 ⊢
    have := table_windows f (by unfold Filtered at hf; omega) h
    omega
  · simp only [h, show ¬ f ≤ 81 by omega, ↓reduceIte]

/-- `p` is at least every magnitude in the window of its bin in each of the frames that `mags` holds. -/
structure LocalMax (cfg : Config V) (mags : List (Nat → V)) (p : EventPoint V) : Prop where
  bin : ∃ f : Nat, p.frequencyBin = f ∧ ((9 ≤ f ∧ f ≤ 81) ∨ (133 ≤ f ∧ f ≤ 460)) ∧
    ∀ t, t < cfg.filterSizeTime → ∀ g, InWindow f g → slot mags t g ≤ p.magnitude
  loud : cfg.minEventPointMagnitude ≤ p.magnitude

theorem isPeak_iff {cfg : Config V} {mags maxes : List (Nat → V)} {j : Nat} : isPeak cfg mags maxes j = true ↔
    cfg.minEventPointMagnitude ≤ slot mags cfg.halfFilterSizeTime j ∧
    slot mags cfg.halfFilterSizeTime j = slot maxes cfg.halfFilterSizeTime j ∧
    slot mags cfg.halfFilterSizeTime j = maxFilterTime (fun t => slot maxes t j) cfg.filterSizeTime := by
  simp only [isPeak]
  split
  · rename_i h
    refine iff_of_false (by simp) fun hp => ?_
    cases h with
    | inl h => exact absurd hp.1 (not_le.2 h)
    | inr h => exact h hp.2.1
  · rename_i h
    rw [not_or, not_lt, not_not] at h
    exact ⟨fun he => ⟨h.1, h.2, of_decide_eq_true he⟩, fun he => decide_eq_true he.2.2⟩

section Ring
variable {frames : List (Frame V)} {ep : State V} {fr : Frame V}

/-- **A full ring**: what passes the tests of a bin is a maximum of its window in every slot. -/
theorem localMax_of_isPeak (hh : History (.default V) frames ep) (hf : Filtering (.default V) frames ep)
    (hmag : NonNegative (.default V) (frames ++ [fr])) (hfull : ep.filterIndex = 23) {j : Nat}
    (hj : isPeak (.default V) (load (.default V) ep fr).mags (load (.default V) ep fr).maxes j) (b : Int) :
    LocalMax (.default V) (load (.default V) ep fr).mags (peakPoint (.default V) (load (.default V) ep fr).mags b j) := by
  have hT : 1 ≤ (Config.default V).filterSizeTime := by simp [Config.default]
  have hn : 23 ≤ frames.length := by
    have := hh.index
    have : (Config.default V).filterSizeTime - 1 = 23 := rfl
    omega
  have hlast : ∀ i, i < 512 → Sample.lit 0 ≤ magnitudes (.default V) fr i := hmag fr (by simp)
  obtain ⟨hloud, hvert, htime⟩ := isPeak_iff.1 hj
  have hfj : Filtered j := by
    -- the zero of `calloc` is not loud enough
    by_contra hno
    rw [hvert, hf.load_zero hh hT rfl hlast _ hno] at hloud
    exact absurd hloud (not_le.2 Sample.lit_zero_lt)
  have hmax := fun t (ht : t < 24) => hf.load_window hh hT rfl hlast (k := t) (by omega) hfj
  -- no slot of `maxes` is negative, so the running maximum over the slots is their maximum
  have hlow : ∀ t, t < 24 → Sample.lit (-10000000) ≤ slot (load (.default V) ep fr).maxes t j := fun t ht =>
    le_trans (Sample.lit_mono (by decide +kernel)) (hf.load_nonneg hh hT rfl hmag (by omega) j)
  have hall := maxFilterTime_isMax (a := fun t => slot (load (.default V) ep fr).maxes t j) (by omega) hlow
  refine ⟨⟨j, rfl, by unfold Filtered at hfj; omega, fun t ht g hg => ?_⟩, hloud⟩
  have ht : t < 24 := ht
  rw [inWindow_iff hfj] at hg
  have hslot := hh.load_mag hT fr (k := t) (by omega)
  calc slot (load (.default V) ep fr).mags t g
      ≤ slot (load (.default V) ep fr).maxes t j := by rw [hslot]; exact (hmax t ht).bound g hg.1 hg.2
    _ ≤ maxFilterTime (fun t => slot (load (.default V) ep fr).maxes t j) 24 := hall.bound t (by omega) (by omega)
    _ = slot (load (.default V) ep fr).mags (Config.default V).halfFilterSizeTime j := htime.symm

/-- The points that one call finds, and the frames that its slots hold. -/
theorem localMax_of_found (hh : History (.default V) frames ep) (hf : Filtering (.default V) frames ep)
    (hmag : NonNegative (.default V) (frames ++ [fr])) {b : Int} {p : EventPoint V}
    (hp : p ∈ found (.default V) ep fr b) :
    LocalMax (.default V) (load (.default V) ep fr).mags p ∧ 23 ≤ frames.length ∧
      ∀ t, t < 24 → slot (load (.default V) ep fr).mags t =
        magnitudes (.default V) (frameAt (frames ++ [fr]) (frames.length - 23 + t)) := by
  have hindex : ep.filterIndex = min frames.length 23 := hh.index
  simp only [found] at hp
  split at hp
  · rename_i hfull
    have hfull : ep.filterIndex + 1 = 24 := hfull
    obtain ⟨j, hj, rfl⟩ := List.mem_map.1 hp
    refine ⟨localMax_of_isPeak hh hf hmag (by omega) (List.mem_filter.1 hj).2 b, by omega, fun t ht => ?_⟩
    rw [hh.load_mag (by simp [Config.default]) fr (by omega), show ep.filterIndex = 23 by omega]
  · cases hp

end Ring

end Olaf.EpExtractor

namespace Olaf.StreamProcessor
open EpExtractor Sorting

variable {V σ : Type} [Sample V]

/-- **Every event point of a run is a local maximum** of the 24 frames that the ring holds, in frequency and in
time, and lies in a bin that the filter writes. The points that a call adds to the buffer are those it finds. -/
theorem loop_localMax (q : QSort (EventPoint V) EventPoint.timeIndex) (handle : σ → List (Fingerprint V) → σ) (sink : σ)
    (frames : List (Frame V)) (fr : Frame V) (hmag : NonNegative (.default V) (frames ++ [fr])) :
    (EpExtractor.extract (.default V) (loop (.default V) q handle sink frames).epExtractor fr frames.length).eventPoints =
      (loop (.default V) q handle sink frames).epExtractor.eventPoints.addPoints (.default V)
        (found (.default V) (loop (.default V) q handle sink frames).epExtractor fr frames.length) ∧
    ∀ p ∈ found (.default V) (loop (.default V) q handle sink frames).epExtractor fr frames.length,
      LocalMax (.default V) (load (.default V) (loop (.default V) q handle sink frames).epExtractor fr).mags p ∧
        23 ≤ frames.length ∧
        ∀ t, t < 24 → slot (load (.default V) (loop (.default V) q handle sink frames).epExtractor fr).mags t =
          magnitudes (.default V) (frameAt (frames ++ [fr]) (frames.length - 23 + t)) := by
  have hT : 1 ≤ (Config.default V).filterSizeTime := by simp [Config.default]
  obtain ⟨hring, _⟩ := loop_ring (.default V) q handle sink frames
  have hload := hring.load (.default V) fr
  refine ⟨extract_eventPoints _ _ fr _, fun p hp => ?_⟩
  rw [hring.found] at hp
  rw [hload.1]
  exact localMax_of_found (detect_history hT frames) (detect_filtering hT rfl fun x hx => hmag x (by simp [hx])) hmag hp

theorem loop_localMax_oneImpulse :
    NonNegative (.default ℚ) ((oneImpulse ++ [[]]).map impulses) ∧
      LocalMax (.default ℚ) (load (.default ℚ)
        (loop (.default ℚ) (.insertion _ _) collect [] (oneImpulse.map impulses)).epExtractor (impulses [])).mags
        ⟨200, 11, 1, 0⟩ := by
  have hmag := nonNegative_impulses (oneImpulse ++ [[]])
  refine ⟨hmag, ((loop_localMax (.insertion _ _) collect [] (oneImpulse.map impulses) (impulses []) ?_).2 _ ?_).1⟩
  · rwa [List.map_append] at hmag
  · obtain ⟨h, f⟩ := detect_impulses oneImpulse
    rw [(loop_ring (.default ℚ) (.insertion _ _) collect [] (oneImpulse.map impulses)).1.found, List.length_map,
      found_impulses h f []]
    decide +kernel

end Olaf.StreamProcessor
