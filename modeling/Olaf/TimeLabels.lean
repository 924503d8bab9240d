import Olaf.Impulses
import Olaf.InOrder
/-!
# The time of an event point

| here | there |
| --- | --- |
| `recorded`     | the points that one call of `extract_internal` writes (`olaf_ep_extractor.c:158-177`): those found while there is room |
| `recordedBins` | the bins `j` that they are in |

A point is labelled `audioBlockIndex - halfFilterSizeTime` (`:159`), the "time index (audio block index) of
the event point" (`olaf_ep_extractor.h:37`), and its magnitude is read from slot `halfFilterSizeTime` of the ring. With the
ring full that slot holds the frame of `filterSizeTime - 1 - halfFilterSizeTime` blocks ago, which is the labelled
one for odd filters only: for even ones, the default of 24 among them, it is the frame after it (`labelled_iff`).
-/

namespace Olaf.EpExtractor

variable {V : Type} [Sample V]

def recordedBins (cfg : Config V) (ep : State V) (fftOut : Frame V) : List Nat :=
  let ld := load cfg ep fftOut
  if ld.filterIndex + 1 = cfg.filterSizeTime then
    ((bins cfg).filter (isPeak cfg ld.mags ld.maxes)).take (cfg.maxEventPoints - ep.eventPoints.eventPointIndex)
  else []

/-- The event points that one call writes to the buffer. -/
def recorded (cfg : Config V) (ep : State V) (fftOut : Frame V) (audioBlockIndex : Int) : List (EventPoint V) :=
  (recordedBins cfg ep fftOut).map (peakPoint cfg (load cfg ep fftOut).mags audioBlockIndex)

theorem recorded_eq (cfg : Config V) (ep : State V) (fftOut : Frame V) (b : Int) :
    recorded cfg ep fftOut b = (found cfg ep fftOut b).take (cfg.maxEventPoints - ep.eventPoints.eventPointIndex) := by
  simp only [recorded, recordedBins, found, peaks]
  split
  · rw [List.map_take]
  · simp

theorem extract_live {cfg : Config V} {ep : State V} (h : ep.eventPoints.Shaped cfg) (fftOut : Frame V) (b : Int) :
    (extract cfg ep fftOut b).eventPoints.live = ep.eventPoints.live ++ recorded cfg ep fftOut b := by
  rw [extract_eventPoints, (EventPoints.addPoints_live _ h).1, recorded_eq]

/-- The point carries the time of a frame in which its bin has its magnitude. -/
def FromFrame (cfg : Config V) (frames : List (Frame V)) (p : EventPoint V) : Prop :=
  ∃ t f : Nat, p.timeIndex = t ∧ p.frequencyBin = f ∧ t < frames.length ∧ p.magnitude = magnitudes cfg (frameAt frames t) f

/-- The frame a point is read from, by the parity of the filter. -/
theorem recorded_magnitude {cfg : Config V} {frames : List (Frame V)} {ep : State V} (hh : History cfg frames ep)
    (hT : 2 ≤ cfg.filterSizeTime) (hhalf : cfg.halfFilterSizeTime = cfg.filterSizeTime / 2) {fr : Frame V} {j : Nat}
    (hj : j ∈ recordedBins cfg ep fr) (b : Int) :
    cfg.filterSizeTime - 1 ≤ frames.length ∧
      (peakPoint cfg (load cfg ep fr).mags b j).magnitude = magnitudes cfg
        (frameAt (frames ++ [fr]) (frames.length - cfg.halfFilterSizeTime + (1 - cfg.filterSizeTime % 2))) j := by
  have hindex := hh.index
  simp only [recordedBins] at hj
  split at hj
  · rename_i hfull
    have hfull : ep.filterIndex + 1 = cfg.filterSizeTime := hfull
    have hn : cfg.filterSizeTime - 1 ≤ frames.length := by omega
    refine ⟨hn, ?_⟩
    show slot (load cfg ep fr).mags cfg.halfFilterSizeTime j = _
    rw [hh.load_mag (by omega) fr (by omega)]
    congr 2
    omega
  · cases hj

end Olaf.EpExtractor

namespace Olaf.StreamProcessor
open EpExtractor Sorting

variable {V : Type} [Sample V]

/-- Every point that a run records comes from the frame it is labelled with. -/
def Labelled (cfg : Config V) (q : QSort (EventPoint V) EventPoint.timeIndex) (frames : List (Frame V)) : Prop :=
  ∀ b fr, frames[b]? = some fr → ∀ p ∈ recorded cfg (loop cfg q collect [] (frames.take b)).epExtractor fr b,
    FromFrame cfg frames p

/-- In every bin that a call records, the labelled frame and the one after it have the same magnitude. -/
def Still (cfg : Config V) (q : QSort (EventPoint V) EventPoint.timeIndex) (frames : List (Frame V)) : Prop :=
  ∀ b fr, frames[b]? = some fr → ∀ j ∈ recordedBins cfg (loop cfg q collect [] (frames.take b)).epExtractor fr,
    magnitudes cfg (frameAt frames (b - cfg.halfFilterSizeTime)) j =
      magnitudes cfg (frameAt frames (b - cfg.halfFilterSizeTime + 1)) j

/-- One call of a run: where its points are read from and what they are labelled. -/
theorem fromFrame_iff {cfg : Config V} (q : QSort (EventPoint V) EventPoint.timeIndex) (hT : 2 ≤ cfg.filterSizeTime)
    (hhalf : cfg.halfFilterSizeTime = cfg.filterSizeTime / 2) {frames : List (Frame V)} {b : Nat} {fr : Frame V}
    (hb : frames[b]? = some fr) {j : Nat}
    (hj : j ∈ recordedBins cfg (loop cfg q collect [] (frames.take b)).epExtractor fr) :
    FromFrame cfg frames (peakPoint cfg (load cfg (loop cfg q collect [] (frames.take b)).epExtractor fr).mags b j) ↔
      cfg.filterSizeTime % 2 = 1 ∨ magnitudes cfg (frameAt frames (b - cfg.halfFilterSizeTime)) j =
        magnitudes cfg (frameAt frames (b - cfg.halfFilterSizeTime + 1)) j := by
  have hlt := (List.getElem?_eq_some_iff.1 hb).1
  have hlen : (frames.take b).length = b := by rw [List.length_take]; omega
  obtain ⟨hn, hmag⟩ := recorded_magnitude (loop_history q collect [] (by omega) (frames.take b)) hT hhalf hj b
  rw [hlen] at hn hmag
  -- the frames up to `b` are those of the whole run
  have hframe : ∀ k, k ≤ b → frameAt (frames.take b ++ [fr]) k = frameAt frames k := fun k hk => by
    rw [frameAt_append, hlen]
    split
    · rename_i he
      rw [he, frameAt, List.getD_eq_getElem?_getD, hb, Option.getD_some]
    · rw [frameAt, frameAt, List.getD_eq_getElem?_getD, List.getD_eq_getElem?_getD, List.getElem?_take_of_lt (by omega)]
  rw [hframe _ (by omega)] at hmag
  have htime : ((b - cfg.halfFilterSizeTime : Nat) : Int) = b - cfg.halfFilterSizeTime := by omega
  constructor
  · rintro ⟨t, f, ht, hf, _, hm⟩
    obtain rfl : f = j := (Int.ofNat.inj hf).symm
    obtain rfl : t = b - cfg.halfFilterSizeTime := by
      have : (b : Int) - cfg.halfFilterSizeTime = t := ht
      omega
    rw [hmag] at hm
    rcases Nat.mod_two_eq_zero_or_one cfg.filterSizeTime with hpar | hpar
    · rw [hpar] at hm
      exact Or.inr hm.symm
    · exact Or.inl hpar
  · intro h
    refine ⟨b - cfg.halfFilterSizeTime, j, htime.symm, rfl, by omega, ?_⟩
    rw [hmag]
    rcases Nat.mod_two_eq_zero_or_one cfg.filterSizeTime with hpar | hpar
    · rw [hpar]
      exact (h.resolve_left (by omega)).symm
    · rw [hpar]
      rfl

theorem loop_live (cfg : Config V) (q : QSort (EventPoint V) EventPoint.timeIndex) (frames : List (Frame V)) (fr : Frame V) (b : Int) :
    (EpExtractor.extract cfg (loop cfg q collect [] frames).epExtractor fr b).eventPoints.live =
      (loop cfg q collect [] frames).epExtractor.eventPoints.live ++
        recorded cfg (loop cfg q collect [] frames).epExtractor fr b :=
  extract_live (loop_reached cfg q collect ([] : List (List (Fingerprint V))) frames).buffer.shaped fr b

/-- **The labels are right iff the filter is odd or nothing changes from the labelled frame to the next.** The labelled points
are those that the calls put into the buffer. -/
theorem labelled_iff (cfg : Config V) (q : QSort (EventPoint V) EventPoint.timeIndex) (frames : List (Frame V))
    (hT : 2 ≤ cfg.filterSizeTime) (hhalf : cfg.halfFilterSizeTime = cfg.filterSizeTime / 2) :
    (∀ b fr, (EpExtractor.extract cfg (loop cfg q collect [] (frames.take b)).epExtractor fr b).eventPoints.live =
      (loop cfg q collect [] (frames.take b)).epExtractor.eventPoints.live ++
        recorded cfg (loop cfg q collect [] (frames.take b)).epExtractor fr b) ∧
    (Labelled cfg q frames ↔ cfg.filterSizeTime % 2 = 1 ∨ Still cfg q frames) := by
  refine ⟨fun b fr => loop_live cfg q (frames.take b) fr b, ?_⟩
  constructor
  · intro h
    rcases Nat.mod_two_eq_zero_or_one cfg.filterSizeTime with hpar | hpar
    · refine Or.inr fun b fr hb j hj => ?_
      exact ((fromFrame_iff q hT hhalf hb hj).1 (h b fr hb _ (List.mem_map_of_mem hj))).resolve_left (by omega)
    · exact Or.inl hpar
  · intro h b fr hb p hp
    obtain ⟨j, hj, rfl⟩ := List.mem_map.1 hp
    exact (fromFrame_iff q hT hhalf hb hj).2 (h.imp_right fun h => h b fr hb j hj)

theorem labelled_iff_odd :
    2 ≤ ({ Config.default ℚ with filterSizeTime := 25 } : Config ℚ).filterSizeTime ∧
      Labelled { Config.default ℚ with filterSizeTime := 25 } (.insertion _ _) (oneImpulse.map impulses) :=
  ⟨by decide, (labelled_iff { Config.default ℚ with filterSizeTime := 25 } (.insertion _ _) (oneImpulse.map impulses)
    (by decide) rfl).2.2 (Or.inl rfl)⟩

/-- With the default 24, an impulse in frame 12 is labelled 11, where its bin is silent. -/
theorem mislabelled_oneImpulse : ¬ Labelled (.default ℚ) (.insertion _ _) ((oneImpulse ++ [[]]).map impulses) := by
  intro h
  have hget : ((oneImpulse ++ [[]]).map impulses)[23]? = some (impulses []) := rfl
  have htake : ((oneImpulse ++ [[]]).map impulses).take 23 = oneImpulse.map impulses := rfl
  have hlast := h 23 _ hget ⟨200, 11, 1, 0⟩
  rw [htake, recorded_eq, loop_eventPoints, run_quiet _ (by decide)] at hlast
  obtain ⟨hh, hf⟩ := detect_impulses oneImpulse
  have hfound := found_impulses hh hf []
  rw [(loop_ring (.default ℚ) (.insertion _ _) collect [] (oneImpulse.map impulses)).1.found] at hlast
  rw [show oneImpulse.length = 23 from rfl] at hfound
  obtain ⟨t, f, ht, hf, _, hm⟩ := hlast (by rw [hfound]; decide +kernel)
  obtain rfl : t = 11 := (Int.ofNat.inj ht).symm
  obtain rfl : f = 200 := (Int.ofNat.inj hf).symm
  rw [frameAt_impulses, magnitudes_impulses] at hm
  revert hm
  decide +kernel

end Olaf.StreamProcessor
