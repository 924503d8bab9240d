import Mathlib.Data.List.Induction
import Olaf.Compaction
import Olaf.History
/-!
# The processing loop (`olaf_stream_processor.c`)

| here | there |
| --- | --- |
| `Loop`     | the locals and extractors that `olaf_stream_processor_process` (`:95`) changes from block to block |
| `body`     | one iteration of the `while` loop (`:127-178`), from the transformed frame on |
| `finish`   | the handling of the last event points (`:183-190`) |
| `Stream`   | the same loop as a machine on the event points of each block |
| `detected` | the event points that each frame of a run yields |

What a mode does with a batch is the argument `handle` on its `sink`: it never feeds back into the
extractors, so a run in any mode folds `handle` over one list of batches (`loop_sink`). And what a frame
yields does not depend on the buffer, so a run on frames is a run of `Stream` on `detected` (`loop_stream`).
-/

namespace Olaf.StreamProcessor
open Sorting EpExtractor

variable {V : Type} [Sample V] {σ : Type}

/-- What the loop changes. `fingerprintsSet` says that `fingerprints` is no longer `NULL`. -/
structure Loop (V σ : Type) where
  epExtractor : EpExtractor.State V
  fpExtractor : FpExtractor.State V
  fingerprintsSet : Bool
  audioBlockIndex : Nat
  sink : σ

/-- The state before the first block. -/
def Loop.init (cfg : Config V) (sink : σ) : Loop V σ := ⟨EpExtractor.init cfg, .init, false, 0, sink⟩

/-- One iteration: `handle` is what the mode does with a batch of fingerprints. -/
def body (cfg : Config V) (q : QSort (EventPoint V) EventPoint.timeIndex) (handle : σ → List (Fingerprint V) → σ)
    (s : Loop V σ) (fftOut : Frame V) : Loop V σ :=
  let ep := EpExtractor.extract cfg s.epExtractor fftOut s.audioBlockIndex
  if ep.eventPoints.eventPointIndex > cfg.eventPointThreshold then
    let r := FpExtractor.extract cfg q s.fpExtractor ep.eventPoints s.audioBlockIndex
    ⟨{ ep with eventPoints := r.2 }, { r.1 with fingerprints := [] }, true, s.audioBlockIndex + 1,
      handle s.sink r.1.fingerprints⟩
  else ⟨ep, s.fpExtractor, s.fingerprintsSet, s.audioBlockIndex + 1, s.sink⟩

/-- The `while` loop over the frames of a run. -/
def loop (cfg : Config V) (q : QSort (EventPoint V) EventPoint.timeIndex) (handle : σ → List (Fingerprint V) → σ)
    (sink : σ) (frames : List (Frame V)) : Loop V σ :=
  frames.foldl (body cfg q handle) (.init cfg sink)

/-- What the end of the run has in hand: `fingerprints`, `none` for `NULL`, and the total. -/
structure Rest (V : Type) where
  fingerprints : Option (List (Fingerprint V))
  total : Nat

/-- The last event points. `eventPoints` is `NULL` before the first block only, when the index is `0` as well. -/
def finish (cfg : Config V) (q : QSort (EventPoint V) EventPoint.timeIndex) (s : Loop V σ) : Rest V :=
  if s.epExtractor.eventPoints.eventPointIndex > 0 then
    let r := (FpExtractor.extract cfg q s.fpExtractor s.epExtractor.eventPoints s.audioBlockIndex).1
    ⟨some r.fingerprints, r.totalFpExtracted⟩
  else ⟨if s.fingerprintsSet then some s.fpExtractor.fingerprints else none, s.fpExtractor.totalFpExtracted⟩

/-! ## The loop on event points -/

/-- The loop without the event point extractor, keeping the batches it hands over. -/
structure Stream (V : Type) where
  eventPoints : EventPoints V
  fpExtractor : FpExtractor.State V
  fingerprintsSet : Bool
  audioBlockIndex : Nat
  batches : List (List (Fingerprint V))

namespace Stream

def init (cfg : Config V) : Stream V := ⟨.init cfg, .init, false, 0, []⟩

/-- One block that yields the event points `new`. -/
def step (cfg : Config V) (q : QSort (EventPoint V) EventPoint.timeIndex) (s : Stream V) (new : List (EventPoint V)) :
    Stream V :=
  let eps := s.eventPoints.addPoints cfg new
  if eps.eventPointIndex > cfg.eventPointThreshold then
    let r := FpExtractor.extract cfg q s.fpExtractor eps s.audioBlockIndex
    ⟨r.2, { r.1 with fingerprints := [] }, true, s.audioBlockIndex + 1, s.batches ++ [r.1.fingerprints]⟩
  else ⟨eps, s.fpExtractor, s.fingerprintsSet, s.audioBlockIndex + 1, s.batches⟩

def run (cfg : Config V) (q : QSort (EventPoint V) EventPoint.timeIndex) (blocks : List (List (EventPoint V))) :
    Stream V :=
  blocks.foldl (step cfg q) (init cfg)

def finish (cfg : Config V) (q : QSort (EventPoint V) EventPoint.timeIndex) (s : Stream V) : Rest V :=
  if s.eventPoints.eventPointIndex > 0 then
    let r := (FpExtractor.extract cfg q s.fpExtractor s.eventPoints s.audioBlockIndex).1
    ⟨some r.fingerprints, r.totalFpExtracted⟩
  else ⟨if s.fingerprintsSet then some s.fpExtractor.fingerprints else none, s.fpExtractor.totalFpExtracted⟩

/-- All fingerprints of a run that has reached `s`, the final call included. -/
def delivered (cfg : Config V) (q : QSort (EventPoint V) EventPoint.timeIndex) (s : Stream V) : List (Fingerprint V) :=
  s.batches.flatten ++ ((finish cfg q s).fingerprints.getD [])

@[simp] theorem run_nil_eventPoints (cfg : Config V) (q : QSort (EventPoint V) EventPoint.timeIndex) :
    (run cfg q []).eventPoints = .init cfg := rfl

@[simp] theorem run_nil_batches (cfg : Config V) (q : QSort (EventPoint V) EventPoint.timeIndex) :
    (run cfg q []).batches = [] := rfl

theorem run_append (cfg : Config V) (q : QSort (EventPoint V) EventPoint.timeIndex) (blocks : List (List (EventPoint V)))
    (new : List (EventPoint V)) : run cfg q (blocks ++ [new]) = step cfg q (run cfg q blocks) new := by
  rw [run, List.foldl_concat]; rfl

end Stream

/-! ## Runs on frames are runs on event points -/

theorem loop_append (cfg : Config V) (q : QSort (EventPoint V) EventPoint.timeIndex)
    (handle : σ → List (Fingerprint V) → σ) (sink : σ) (frames : List (Frame V)) (fr : Frame V) :
    loop cfg q handle sink (frames ++ [fr]) = body cfg q handle (loop cfg q handle sink frames) fr := by
  rw [loop, List.foldl_concat]; rfl

/-- The extractor's state after a run of frames and the event points of each block. -/
def detect (cfg : Config V) (frames : List (Frame V)) : EpExtractor.State V × List (List (EventPoint V)) :=
  frames.foldl (fun s fr => (EpExtractor.extract cfg s.1 fr s.2.length, s.2 ++ [found cfg s.1 fr s.2.length]))
    (EpExtractor.init cfg, [])

/-- The event points that each frame of a run yields. -/
def detected (cfg : Config V) (frames : List (Frame V)) : List (List (EventPoint V)) := (detect cfg frames).2

theorem detect_append (cfg : Config V) (frames : List (Frame V)) (fr : Frame V) :
    detect cfg (frames ++ [fr]) = (EpExtractor.extract cfg (detect cfg frames).1 fr (detected cfg frames).length,
      detected cfg frames ++ [found cfg (detect cfg frames).1 fr (detected cfg frames).length]) := by
  rw [detected, detect, List.foldl_concat]; rfl

/-- The ring of every run holds its last frames. -/
theorem detect_history {cfg : Config V} (hT : 1 ≤ cfg.filterSizeTime) (frames : List (Frame V)) :
    History cfg frames (detect cfg frames).1 := by
  induction frames using List.reverseRecOn with
  | nil => exact history_init cfg
  | append_singleton frames fr ih =>
    rw [detect_append]
    exact ih.extract hT _ _

/-- Under the production filter it also holds their window maxima. -/
theorem detect_filtering {cfg : Config V} (hT : 1 ≤ cfg.filterSizeTime) (h512 : cfg.audioBlockSize = 1024)
    {frames : List (Frame V)} (hmag : NonNegative cfg frames) :
    Filtering cfg frames (detect cfg frames).1 := by
  induction frames using List.reverseRecOn with
  | nil => exact filtering_init cfg
  | append_singleton frames fr ih =>
    rw [detect_append]
    exact (ih fun x hx => hmag x (by simp [hx])).extract (detect_history hT _) hT h512 (hmag fr (by simp)) _

theorem detected_length (cfg : Config V) (frames : List (Frame V)) : (detected cfg frames).length = frames.length := by
  induction frames using List.reverseRecOn with
  | nil => rfl
  | append_singleton frames fr ih =>
    rw [detected, detect_append, List.length_append, List.length_append, ih, List.length_singleton, List.length_singleton]

theorem detected_append (cfg : Config V) (frames : List (Frame V)) (fr : Frame V) :
    detected cfg (frames ++ [fr]) = detected cfg frames ++ [found cfg (detect cfg frames).1 fr frames.length] := by
  rw [detected, detect_append, detected_length]

theorem detected_prefix (cfg : Config V) (frames more : List (Frame V)) :
    ∃ blocks, detected cfg (frames ++ more) = detected cfg frames ++ blocks := by
  induction more using List.reverseRecOn with
  | nil => exact ⟨[], by simp⟩
  | append_singleton more fr ih =>
    obtain ⟨blocks, hb⟩ := ih
    rw [← List.append_assoc, detected_append, hb, List.append_assoc]
    exact ⟨_, rfl⟩

/-- Block `i` of a run, and the blocks before it. -/
theorem detected_get (cfg : Config V) {frames : List (Frame V)} {i : Nat} {fr : Frame V} (h : frames[i]? = some fr) :
    (detected cfg frames).take i = detected cfg (frames.take i) ∧
      (detected cfg frames)[i]? = some (found cfg (detect cfg (frames.take i)).1 fr i) := by
  obtain ⟨hi, rfl⟩ := List.getElem?_eq_some_iff.1 h
  have hlen : (frames.take i).length = i := by rw [List.length_take]; omega
  obtain ⟨blocks, hb⟩ := detected_prefix cfg (frames.take i ++ [frames[i]]) (frames.drop (i + 1))
  rw [List.append_assoc, List.singleton_append, List.getElem_cons_drop, List.take_append_drop, detected_append,
    List.append_assoc] at hb
  have hd : (detected cfg (frames.take i)).length = i := (detected_length cfg _).trans hlen
  rw [hb, hlen]
  refine ⟨List.take_left' hd, ?_⟩
  rw [List.getElem?_append_right (by omega), hd, Nat.sub_self]
  rfl

/-- The part of a loop state that `Stream` keeps. -/
def Loop.stream (s : Loop V (List (List (Fingerprint V)))) : Stream V :=
  ⟨s.epExtractor.eventPoints, s.fpExtractor, s.fingerprintsSet, s.audioBlockIndex, s.sink⟩

/-- The two states have the same frames in their ring. -/
def SameRing (ep ep' : EpExtractor.State V) : Prop :=
  ep.mags = ep'.mags ∧ ep.maxes = ep'.maxes ∧ ep.filterIndex = ep'.filterIndex

omit [Sample V] in
/-- They differ in the event points only. -/
theorem SameRing.eq {ep ep' : EpExtractor.State V} (h : SameRing ep ep') : ep' = { ep with eventPoints := ep'.eventPoints } := by
  obtain ⟨mags, maxes, filterIndex, _⟩ := ep
  obtain ⟨_, _, _, _⟩ := ep'
  obtain ⟨rfl, rfl, rfl⟩ := h
  rfl

theorem SameRing.found {cfg : Config V} {ep ep' : EpExtractor.State V} (h : SameRing ep ep') (fr : Frame V) (b : Int) :
    found cfg ep fr b = found cfg ep' fr b := by
  rw [h.eq]
  rfl

theorem SameRing.load (cfg : Config V) {ep ep' : EpExtractor.State V} (h : SameRing ep ep') (fr : Frame V) :
    SameRing (load cfg ep fr) (load cfg ep' fr) := by
  rw [h.eq]
  exact ⟨rfl, rfl, rfl⟩

theorem SameRing.extract (cfg : Config V) {ep ep' : EpExtractor.State V} (h : SameRing ep ep') (fr : Frame V) (b b' : Int) :
    SameRing (extract cfg ep fr b) (extract cfg ep' fr b') := by
  have hr := extract_ring cfg ep fr b
  have hr' := extract_ring cfg ep' fr b'
  have ha : advance cfg ep fr = advance cfg ep' fr := by
    rw [h.eq]
    rfl
  rw [ha, ← hr'] at hr
  simp only [Prod.mk.injEq] at hr
  exact ⟨hr.1, hr.2.1, hr.2.2⟩

theorem body_ring (cfg : Config V) (q : QSort (EventPoint V) EventPoint.timeIndex) (handle : σ → List (Fingerprint V) → σ)
    (s : Loop V σ) (fr : Frame V) :
    SameRing (body cfg q handle s fr).epExtractor (EpExtractor.extract cfg s.epExtractor fr s.audioBlockIndex) := by
  unfold body
  simp only
  split <;> exact ⟨rfl, rfl, rfl⟩

theorem body_index (cfg : Config V) (q : QSort (EventPoint V) EventPoint.timeIndex) (handle : σ → List (Fingerprint V) → σ)
    (s : Loop V σ) (fr : Frame V) : (body cfg q handle s fr).audioBlockIndex = s.audioBlockIndex + 1 := by
  unfold body
  simp only
  split <;> rfl

/-- A batch list as a sink. -/
def collect (batches : List (List (Fingerprint V))) (fps : List (Fingerprint V)) : List (List (Fingerprint V)) :=
  batches ++ [fps]

theorem body_stream (cfg : Config V) (q : QSort (EventPoint V) EventPoint.timeIndex)
    (s : Loop V (List (List (Fingerprint V)))) (fr : Frame V) :
    (body cfg q collect s fr).stream = Stream.step cfg q s.stream (found cfg s.epExtractor fr s.audioBlockIndex) := by
  unfold Loop.stream body Stream.step
  simp only [extract_eventPoints]
  split
  · rfl
  · simp only [extract_eventPoints]

/-- The ring and the block index of a run do not depend on the mode. -/
theorem loop_ring (cfg : Config V) (q : QSort (EventPoint V) EventPoint.timeIndex)
    (handle : σ → List (Fingerprint V) → σ) (sink : σ) (frames : List (Frame V)) :
    SameRing (loop cfg q handle sink frames).epExtractor (detect cfg frames).1 ∧
      (loop cfg q handle sink frames).audioBlockIndex = frames.length := by
  induction frames using List.reverseRecOn with
  | nil => exact ⟨⟨rfl, rfl, rfl⟩, rfl⟩
  | append_singleton frames fr ih =>
    rw [loop_append, detect_append, body_index, ih.2, List.length_append, List.length_singleton]
    refine ⟨?_, rfl⟩
    obtain ⟨h1, h2, h3⟩ := body_ring cfg q handle (loop cfg q handle sink frames) fr
    obtain ⟨h1', h2', h3'⟩ := ih.1.extract cfg fr (loop cfg q handle sink frames).audioBlockIndex
      (detected cfg frames).length
    exact ⟨h1.trans h1', h2.trans h2', h3.trans h3'⟩

theorem loop_history {cfg : Config V} (q : QSort (EventPoint V) EventPoint.timeIndex)
    (handle : σ → List (Fingerprint V) → σ) (sink : σ) (hT : 1 ≤ cfg.filterSizeTime) (frames : List (Frame V)) :
    History cfg frames (loop cfg q handle sink frames).epExtractor := by
  have hh := detect_history hT frames
  obtain ⟨h1, h2, h3⟩ := (loop_ring cfg q handle sink frames).1
  exact ⟨by rw [h1, hh.magsLen], by rw [h2, hh.maxesLen], by rw [h3, hh.index],
    fun k hk => by rw [h1, h3, hh.mag k (by omega)]⟩

/-- **A run on frames is a run of `Stream` on the event points they yield.** -/
theorem loop_stream (cfg : Config V) (q : QSort (EventPoint V) EventPoint.timeIndex) (frames : List (Frame V)) :
    (loop cfg q collect [] frames).stream = Stream.run cfg q (detected cfg frames) := by
  induction frames using List.reverseRecOn with
  | nil => rfl
  | append_singleton frames fr ih =>
    obtain ⟨hring, hidx⟩ := loop_ring cfg q collect [] frames
    rw [loop_append, body_stream, detected_append, Stream.run_append, ih, hring.found, hidx]

theorem loop_finish (cfg : Config V) (q : QSort (EventPoint V) EventPoint.timeIndex) (frames : List (Frame V)) :
    finish cfg q (loop cfg q collect [] frames) = Stream.finish cfg q (Stream.run cfg q (detected cfg frames)) := by
  rw [← loop_stream]; rfl

/-- **Any mode folds its handler over the same batches.** -/
theorem loop_sink (cfg : Config V) (q : QSort (EventPoint V) EventPoint.timeIndex)
    (handle : σ → List (Fingerprint V) → σ) (sink : σ) (frames : List (Frame V)) :
    loop cfg q handle sink frames =
      { loop cfg q collect [] frames with sink := (loop cfg q collect [] frames).sink.foldl handle sink } := by
  induction frames using List.reverseRecOn with
  | nil => rfl
  | append_singleton frames fr ih =>
    rw [loop_append, loop_append, ih]
    simp only [body]
    split
    · simp only [collect, List.foldl_concat]
    · rfl

theorem loop_eventPoints (cfg : Config V) (q : QSort (EventPoint V) EventPoint.timeIndex)
    (handle : σ → List (Fingerprint V) → σ) (sink : σ) (frames : List (Frame V)) :
    (loop cfg q handle sink frames).epExtractor.eventPoints = (Stream.run cfg q (detected cfg frames)).eventPoints := by
  rw [loop_sink, ← loop_stream]; rfl

/-- The buffer that frame `i` of a run leaves to the fingerprint extractor. -/
theorem extract_buffer (cfg : Config V) (q : QSort (EventPoint V) EventPoint.timeIndex)
    (handle : σ → List (Fingerprint V) → σ) (sink : σ) {frames : List (Frame V)} {i : Nat} {fr : Frame V}
    (h : frames[i]? = some fr) :
    (EpExtractor.extract cfg (loop cfg q handle sink (frames.take i)).epExtractor fr i).eventPoints =
      (Stream.run cfg q ((detected cfg frames).take i)).eventPoints.addPoints cfg
        (found cfg (detect cfg (frames.take i)).1 fr i) := by
  rw [extract_eventPoints, (loop_ring cfg q handle sink (frames.take i)).1.found, loop_eventPoints, (detected_get cfg h).1]

/-- **The calls of a run on frames** find the buffers that the run on their event points has. -/
theorem each_call (cfg : Config V) (q : QSort (EventPoint V) EventPoint.timeIndex)
    (handle : σ → List (Fingerprint V) → σ) (sink : σ) (frames : List (Frame V)) (P : Nat → EventPoints V → Prop) :
    (∀ i new, (detected cfg frames)[i]? = some new →
      P i ((Stream.run cfg q ((detected cfg frames).take i)).eventPoints.addPoints cfg new)) ↔
    ∀ i fr, frames[i]? = some fr →
      P i (EpExtractor.extract cfg (loop cfg q handle sink (frames.take i)).epExtractor fr i).eventPoints := by
  constructor
  · intro h i fr hfr
    rw [extract_buffer cfg q handle sink hfr]
    exact h i _ (detected_get cfg hfr).2
  · intro h i new hnew
    have hi := (List.getElem?_eq_some_iff.1 hnew).1
    rw [detected_length] at hi
    have hfr := List.getElem?_eq_getElem hi
    have hcall := h i _ hfr
    rw [(detected_get cfg hfr).2, Option.some.injEq] at hnew
    rwa [extract_buffer cfg q handle sink hfr, hnew] at hcall

end Olaf.StreamProcessor
