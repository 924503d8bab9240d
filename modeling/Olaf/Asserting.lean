import Olaf.Repeats
/-!
# The functions with their assertions

| here | there |
| --- | --- |
| `assert`                      | `assert(…)`, and the bounds of an array access: the run ends (`none`) or goes on |
| `addPoint`, `extractInternal` | `extract_internal` (`olaf_ep_extractor.c:128`), with the assertion of `:176` |
| `rotate`                      | `rotate` (`olaf_ep_extractor.c:185`), with the assertion of `:198` |
| `kLoop`, `jLoop`              | the loops of `olaf_fp_extractor_extract_three` (`olaf_fp_extractor.c:154`), with its assertions |
| `jLoop2`                      | the inner loop of `olaf_fp_extractor_extract_two` (`:279`), with its assertions |
| `fpExtract`                   | `olaf_fp_extractor_extract` (`:372`), which reads the slot before `eventPointIndex` |
| `body`, `loop`, `finish`      | `olaf_stream_processor_process` (`olaf_stream_processor.c:95`) over these |

Each function is the one of the same name in the other modules with the source's assertions put back where they
stand. `loop_passes` is that none of them ever ends a run: in every state the points are in time order
(`InOrder`), and a `minTimeDistance` of at least one makes a combined point later, not only no earlier. The
indices of the blocks are `int`s, which the model does not wrap: a run has fewer than `2^31` of them.
-/

namespace Olaf.Asserting
open FpExtractor StreamProcessor Sorting

variable {V σ α : Type}

/-- `assert(c)`, before the rest. -/
def assert (c : Prop) [Decidable c] (rest : Option α) : Option α := if c then rest else none

theorem assert_pass {c : Prop} [Decidable c] {rest : Option α} (h : c) : assert c rest = rest := if_pos h

variable [Sample V]

/-! ## The event point extractor -/

/-- The append of one event point. -/
def addPoint (cfg : Config V) (eps : EventPoints V) (p : EventPoint V) : Option (EventPoints V) :=
  if eps.eventPointIndex = cfg.maxEventPoints then assert (eps.eventPointIndex ≤ cfg.maxEventPoints) (some eps)
  else
    assert (eps.eventPointIndex < eps.eventPoints.length) <|
    assert (eps.eventPointIndex + 1 ≤ cfg.maxEventPoints) <|
    some ⟨eps.eventPoints.set eps.eventPointIndex p, eps.eventPointIndex + 1⟩

/-- The loop of `extract_internal` over the bins. -/
def binLoop (cfg : Config V) (mags maxes : List (Nat → V)) (audioBlockIndex : Int) :
    (bins : List Nat) → EventPoints V → Option (EventPoints V)
  | [], eps => some eps
  | j :: bins, eps =>
    if EpExtractor.isPeak cfg mags maxes j then
      (addPoint cfg eps (EpExtractor.peakPoint cfg mags audioBlockIndex j)).bind
        (binLoop cfg mags maxes audioBlockIndex bins)
    else binLoop cfg mags maxes audioBlockIndex bins eps

def extractInternal (cfg : Config V) (ep : EpExtractor.State V) (audioBlockIndex : Int) :
    Option (EpExtractor.State V) :=
  (binLoop cfg ep.mags ep.maxes audioBlockIndex (EpExtractor.bins cfg) ep.eventPoints).map fun eps =>
    { ep with eventPoints := eps }

def rotate (cfg : Config V) (ep : EpExtractor.State V) : Option (EpExtractor.State V) :=
  assert (ep.filterIndex = cfg.filterSizeTime - 1) (some (EpExtractor.rotate ep))

/-- `olaf_ep_extractor_extract`. -/
def epExtract (cfg : Config V) (ep : EpExtractor.State V) (fftOut : EpExtractor.Frame V) (audioBlockIndex : Int) :
    Option (EpExtractor.State V) :=
  let ep := EpExtractor.load cfg ep fftOut
  if ep.filterIndex + 1 = cfg.filterSizeTime then (extractInternal cfg ep audioBlockIndex).bind (rotate cfg)
  else some { ep with filterIndex := ep.filterIndex + 1 }

/-! ## The fingerprint extractor -/

/-- `for (k = j+1; …)` of `extract_three`. -/
def kLoop (cfg : Config V) (i j : Nat) (p1 p2 : EventPoint V) :
    (rem k : Nat) → (tDiff : Int) → Pass V → Option (Pass V)
  | 0, _, _, s => some s
  | rem + 1, k, tDiff, s =>
    assert (k < s.eventPoints.length) <|
    let p3 := point s.eventPoints k
    if p3.usages > cfg.maxEventPointUsages then some s
    else if tDiff > cfg.maxTimeDistance then some s
    else
      assert (p3.timeIndex ≥ p2.timeIndex) <|
      assert (p3.timeIndex - p2.timeIndex ≥ 0) <|
      if Near cfg p2 p3 then
        assert (p3.timeIndex > p2.timeIndex) <|
        kLoop cfg i j p1 p2 rem (k + 1) (p3.timeIndex - p2.timeIndex) (emitThree cfg i j k p1 p2 p3 s)
      else kLoop cfg i j p1 p2 rem (k + 1) (p3.timeIndex - p2.timeIndex) s

/-- `for (j = i+1; …)` of `extract_three`; the assertions stand before the usages are tested. -/
def jLoop (cfg : Config V) (i : Nat) (p1 : EventPoint V) : (rem j : Nat) → Pass V → Option (Pass V)
  | 0, _, s => some s
  | rem + 1, j, s =>
    assert (j < s.eventPoints.length) <|
    let p2 := point s.eventPoints j
    assert (p2.timeIndex ≥ p1.timeIndex) <|
    assert (p2.timeIndex - p1.timeIndex ≥ 0) <|
    if p2.usages > cfg.maxEventPointUsages then some s
    else if p2.timeIndex - p1.timeIndex > cfg.maxTimeDistance then some s
    else if Near cfg p1 p2 then
      assert (p2.timeIndex > p1.timeIndex) <|
      (kLoop cfg i j p1 p2 rem (j + 1) (p2.timeIndex - p1.timeIndex) s).bind (jLoop cfg i p1 rem (j + 1))
    else jLoop cfg i p1 rem (j + 1) s

/-- `for (j = i+1; …)` of `extract_two`. -/
def jLoop2 (cfg : Config V) (i : Nat) (p1 : EventPoint V) : (rem j : Nat) → Pass V → Option (Pass V)
  | 0, _, s => some s
  | rem + 1, j, s =>
    assert (j < s.eventPoints.length) <|
    let p2 := point s.eventPoints j
    assert (p2.timeIndex ≥ p1.timeIndex) <|
    assert (p2.timeIndex - p1.timeIndex ≥ 0) <|
    if p2.usages > cfg.maxEventPointUsages then some s
    else if p2.timeIndex - p1.timeIndex > cfg.maxTimeDistance then some s
    else if Near cfg p1 p2 then
      assert (p2.timeIndex > p1.timeIndex) <|
      assert ((emitTwo cfg i j p1 p2 s).fingerprints.length ≤ cfg.maxFingerprints) <|
      jLoop2 cfg i p1 rem (j + 1) (emitTwo cfg i j p1 p2 s)
    else jLoop2 cfg i p1 rem (j + 1) s

/-- `for (i = 0; …)` of both. -/
def iLoop (cfg : Config V) (audioBlockIndex : Int)
    (inner : (i : Nat) → (p1 : EventPoint V) → (rem j : Nat) → Pass V → Option (Pass V)) :
    (rem i : Nat) → Pass V → Option (Pass V)
  | 0, _, s => some s
  | rem + 1, i, s =>
    assert (i < s.eventPoints.length) <|
    let p1 := point s.eventPoints i
    if p1.frequencyBin = 0 ∧ p1.timeIndex = 0 then some s
    else if p1.usages > cfg.maxEventPointUsages then some s
    else if p1.timeIndex > audioBlockIndex - cfg.maxTimeDistance then some s
    else (inner i p1 rem (i + 1) s).bind (iLoop cfg audioBlockIndex inner rem (i + 1))

/-- The combination stage. Its own `assert(false)` is about a configuration without combination loops. -/
def combine (cfg : Config V) (eps : EventPoints V) (fps : List (Fingerprint V)) (audioBlockIndex : Int) :
    Option (Pass V) :=
  if cfg.numberOfEPsPerFP = 2 then
    iLoop cfg audioBlockIndex (jLoop2 cfg) eps.eventPointIndex 0 ⟨eps.eventPoints, fps⟩
  else if cfg.numberOfEPsPerFP = 3 then
    iLoop cfg audioBlockIndex (jLoop cfg) eps.eventPointIndex 0 ⟨eps.eventPoints, fps⟩
  else some ⟨eps.eventPoints, fps⟩

/-- `olaf_fp_extractor_extract`. -/
def fpExtract (cfg : Config V) (q : QSort (EventPoint V) EventPoint.timeIndex) (fx : FpExtractor.State V)
    (eps : EventPoints V) (audioBlockIndex : Int) : Option (FpExtractor.State V × EventPoints V) :=
  (combine cfg eps fx.fingerprints audioBlockIndex).bind fun s =>
    assert (1 ≤ eps.eventPointIndex ∧ eps.eventPointIndex ≤ s.eventPoints.length) <|
    some (⟨s.fingerprints, fx.totalFpExtracted + s.fingerprints.length⟩,
      compact cfg q ⟨s.eventPoints, eps.eventPointIndex⟩)

/-! ## The processing loop -/

def body (cfg : Config V) (q : QSort (EventPoint V) EventPoint.timeIndex) (handle : σ → List (Fingerprint V) → σ)
    (s : Loop V σ) (fftOut : EpExtractor.Frame V) : Option (Loop V σ) :=
  (epExtract cfg s.epExtractor fftOut s.audioBlockIndex).bind fun ep =>
    if ep.eventPoints.eventPointIndex > cfg.eventPointThreshold then
      (fpExtract cfg q s.fpExtractor ep.eventPoints s.audioBlockIndex).map fun r =>
        ⟨{ ep with eventPoints := r.2 }, { r.1 with fingerprints := [] }, true, s.audioBlockIndex + 1,
          handle s.sink r.1.fingerprints⟩
    else some ⟨ep, s.fpExtractor, s.fingerprintsSet, s.audioBlockIndex + 1, s.sink⟩

def loop (cfg : Config V) (q : QSort (EventPoint V) EventPoint.timeIndex) (handle : σ → List (Fingerprint V) → σ)
    (sink : σ) (frames : List (EpExtractor.Frame V)) : Option (Loop V σ) :=
  frames.foldlM (body cfg q handle) (.init cfg sink)

def finish (cfg : Config V) (q : QSort (EventPoint V) EventPoint.timeIndex) (s : Loop V σ) : Option (Rest V) :=
  if s.epExtractor.eventPoints.eventPointIndex > 0 then
    (fpExtract cfg q s.fpExtractor s.epExtractor.eventPoints s.audioBlockIndex).map fun r =>
      ⟨some r.1.fingerprints, r.1.totalFpExtracted⟩
  else some ⟨if s.fingerprintsSet then some s.fpExtractor.fingerprints else none, s.fpExtractor.totalFpExtracted⟩

/-! ## None of them fails -/

section Extract
variable {cfg : Config V}

omit [Sample V] in
theorem addPoint_passes {eps : EventPoints V} (h : eps.Shaped cfg) (p : EventPoint V) :
    addPoint cfg eps p = some (eps.addPoint cfg p) := by
  have hlen := h.len
  have hidx := h.idx
  unfold addPoint EventPoints.addPoint
  split
  · exact assert_pass hidx
  · rw [assert_pass (by omega), assert_pass (by omega)]

theorem binLoop_passes {mags maxes : List (Nat → V)} {b : Int} : ∀ (bins : List Nat) {eps : EventPoints V},
    eps.Shaped cfg → binLoop cfg mags maxes b bins eps = some (bins.foldl (fun eps j =>
      if EpExtractor.isPeak cfg mags maxes j then eps.addPoint cfg (EpExtractor.peakPoint cfg mags b j) else eps) eps)
  | [], _, _ => rfl
  | j :: bins, eps, h => by
    rw [binLoop, List.foldl_cons]
    split
    · rw [addPoint_passes h, Option.bind_some, binLoop_passes bins (h.addPoint _)]
    · exact binLoop_passes bins h

theorem epExtract_passes {ep : EpExtractor.State V} (h : ep.eventPoints.Shaped cfg) (fftOut : EpExtractor.Frame V)
    (b : Int) : epExtract cfg ep fftOut b = some (EpExtractor.extract cfg ep fftOut b) := by
  have hl : (EpExtractor.load cfg ep fftOut).eventPoints.Shaped cfg := h
  simp only [epExtract, EpExtractor.extract]
  split
  · rename_i hfull
    rw [extractInternal, binLoop_passes _ hl, Option.map_some, Option.bind_some, rotate, assert_pass]
    · rfl
    · show (EpExtractor.load cfg ep fftOut).filterIndex = _
      omega
  · rfl

end Extract

section Loops
variable {cfg : Config V} {base : List (EventPoint V)} {n : Nat}

omit [Sample V] in
/-- Points that may be combined are not of the same time. -/
theorem Near.lt (hmin : 1 ≤ cfg.minTimeDistance) {p q : EventPoint V} (h : Near cfg p q) :
    p.timeIndex < q.timeIndex := by
  have := h.1
  omega

theorem kLoop_passes (hmin : 1 ≤ cfg.minTimeDistance) (hn : n ≤ base.length) (ha : Ascending base n) {i j : Nat}
    (hij : i < j) {p1 p2 : EventPoint V} (h1 : Agree p1 (point base i)) (h2 : Agree p2 (point base j)) :
    ∀ (rem k : Nat) (tDiff : Int) (s : Pass V), k + rem = n → j < k → SamePoints base s.eventPoints →
      kLoop cfg i j p1 p2 rem k tDiff s = some (FpExtractor.kLoop cfg i j p1 p2 rem k tDiff s)
  | 0, _, _, _, _, _, _ => rfl
  | rem + 1, k, tDiff, s, hk, hjk, hs => by
    have hag := hs.agree k
    have hord := ha.le_of_agree hjk (by omega) h2 hag
    rw [kLoop, FpExtractor.kLoop, assert_pass (by have := hs.length; omega)]
    simp only
    split
    · rfl
    split
    · rfl
    rw [assert_pass hord, assert_pass (by omega)]
    split
    · rename_i hN
      rw [assert_pass (Near.lt hmin hN)]
      exact kLoop_passes hmin hn ha hij h1 h2 rem (k + 1) _ _ (by omega) (by omega)
        (hs.trans (emitThree_yields cfg hij hjk hs h1 h2 hag).same)
    · exact kLoop_passes hmin hn ha hij h1 h2 rem (k + 1) _ _ (by omega) (by omega) hs

theorem jLoop_passes (hmin : 1 ≤ cfg.minTimeDistance) (hn : n ≤ base.length) (ha : Ascending base n) {i : Nat}
    {p1 : EventPoint V} (h1 : Agree p1 (point base i)) :
    ∀ (rem j : Nat) (s : Pass V), j + rem = n → i < j → SamePoints base s.eventPoints →
      jLoop cfg i p1 rem j s = some (FpExtractor.jLoop cfg i p1 rem j s)
  | 0, _, _, _, _, _ => rfl
  | rem + 1, j, s, hj, hij, hs => by
    have hag := hs.agree j
    have hord := ha.le_of_agree hij (by omega) h1 hag
    rw [jLoop, FpExtractor.jLoop, assert_pass (by have := hs.length; omega)]
    simp only
    rw [assert_pass hord, assert_pass (by omega)]
    split
    · rfl
    split
    · rfl
    rename_i hfar
    split
    · rename_i hN
      have hk : Yields cfg s _ _ _ := kLoop_yields hij hn h1 hag rem (j + 1)
        ((point s.eventPoints j).timeIndex - p1.timeIndex) s (by omega) (by omega) hs (Or.inl (by omega))
      rw [assert_pass (Near.lt hmin hN), kLoop_passes hmin hn ha hij h1 hag rem (j + 1) _ s (by omega) (by omega) hs,
        Option.bind_some]
      exact jLoop_passes hmin hn ha h1 rem (j + 1) _ (by omega) (by omega) (hs.trans hk.same)
    · exact jLoop_passes hmin hn ha h1 rem (j + 1) _ (by omega) (by omega) hs

theorem jLoop2_passes (hmin : 1 ≤ cfg.minTimeDistance) (hn : n ≤ base.length) (ha : Ascending base n) {i : Nat}
    {p1 : EventPoint V} (h1 : Agree p1 (point base i)) :
    ∀ (rem j : Nat) (s : Pass V), j + rem = n → i < j → SamePoints base s.eventPoints →
      s.fingerprints.length ≤ cfg.maxFingerprints →
      jLoop2 cfg i p1 rem j s = some (FpExtractor.jLoop2 cfg i p1 rem j s)
  | 0, _, _, _, _, _, _ => rfl
  | rem + 1, j, s, hj, hij, hs, hroom => by
    have hag := hs.agree j
    have hord := ha.le_of_agree hij (by omega) h1 hag
    rw [jLoop2, FpExtractor.jLoop2, assert_pass (by have := hs.length; omega)]
    simp only
    rw [assert_pass hord, assert_pass (by omega)]
    split
    · rfl
    split
    · rfl
    split
    · rename_i hN
      have he := emitTwo_yields cfg hij hs h1 hag
      have hroom' := he.bounded hroom
      rw [assert_pass (Near.lt hmin hN), assert_pass hroom']
      exact jLoop2_passes hmin hn ha h1 rem (j + 1) _ (by omega) (by omega) (hs.trans he.same) hroom'
    · exact jLoop2_passes hmin hn ha h1 rem (j + 1) _ (by omega) (by omega) hs hroom

/-- The outer loop passes if its inner loop does and keeps the points and the bound on the fingerprints. -/
theorem iLoop_passes {b : Int} {inner : (i : Nat) → (p1 : EventPoint V) → (rem j : Nat) → Pass V → Option (Pass V)}
    {inner' : (i : Nat) → (p1 : EventPoint V) → (rem j : Nat) → Pass V → Pass V} (hn : n ≤ base.length)
    (hinner : ∀ i p1 rem s, Agree p1 (point base i) → i + 1 + rem = n → SamePoints base s.eventPoints →
      s.fingerprints.length ≤ cfg.maxFingerprints →
      inner i p1 rem (i + 1) s = some (inner' i p1 rem (i + 1) s) ∧
        ∃ may must, Yields cfg s (inner' i p1 rem (i + 1) s) may must) :
    ∀ (rem i : Nat) (s : Pass V), i + rem = n → SamePoints base s.eventPoints →
      s.fingerprints.length ≤ cfg.maxFingerprints →
      iLoop cfg b inner rem i s = some (FpExtractor.iLoop cfg b inner' rem i s)
  | 0, _, _, _, _, _ => rfl
  | rem + 1, i, s, hi, hs, hroom => by
    rw [iLoop, FpExtractor.iLoop, assert_pass (by have := hs.length; omega)]
    simp only
    split
    · rfl
    split
    · rfl
    split
    · rfl
    obtain ⟨he, may, must, hy⟩ := hinner i _ rem s (hs.agree i) (by omega) hs hroom
    rw [he, Option.bind_some]
    exact iLoop_passes hn hinner rem (i + 1) _ (by omega) (hs.trans hy.same) (hy.bounded hroom)

/-- **The combination loops pass their assertions on a buffer in time order.** -/
theorem combine_passes (hmin : 1 ≤ cfg.minTimeDistance) {now : Int} {eps : EventPoints V} (h : InOrder cfg now eps)
    {fps : List (Fingerprint V)} (hroom : fps.length ≤ cfg.maxFingerprints) (b : Int) :
    combine cfg eps fps b = some (FpExtractor.combine cfg eps fps b) := by
  have hn := h.index_le
  have ha := h.slots
  unfold combine FpExtractor.combine
  split
  · exact iLoop_passes hn (fun i p1 rem s h1 hr hs hl =>
      ⟨jLoop2_passes hmin hn ha h1 rem (i + 1) s hr (by omega) hs hl, _, _,
        jLoop2_yields hn h1 rem (i + 1) s hr (by omega) hs⟩) _ _ _ (by omega) (.refl _) hroom
  · split
    · exact iLoop_passes hn (fun i p1 rem s h1 hr hs _ =>
        ⟨jLoop_passes hmin hn ha h1 rem (i + 1) s hr (by omega) hs, _, _,
          jLoop_yields hn h1 rem (i + 1) s hr (by omega) hs⟩) _ _ _ (by omega) (.refl _) hroom
    · rfl

end Loops

section Run
variable {cfg : Config V} (q : QSort (EventPoint V) EventPoint.timeIndex) (handle : σ → List (Fingerprint V) → σ)

theorem fpExtract_passes (hmin : 1 ≤ cfg.minTimeDistance) {now : Int} {eps : EventPoints V} (h : InOrder cfg now eps)
    (h1 : 1 ≤ eps.eventPointIndex) {fx : FpExtractor.State V} (hfx : fx.fingerprints.length ≤ cfg.maxFingerprints)
    (b : Int) : fpExtract cfg q fx eps b = some (FpExtractor.extract cfg q fx eps b) := by
  have hlen := (combined_same cfg fx.fingerprints b h.index_le).length
  have hidx := h.index_le
  rw [fpExtract, combine_passes hmin h hfx, Option.bind_some, assert_pass]
  · rfl
  · exact ⟨h1, by rw [← hlen] at hidx; exact hidx⟩

theorem body_passes (hmin : 1 ≤ cfg.minTimeDistance) (h0 : 0 ≤ cfg.eventPointThreshold) {b : Nat} {s : Loop V σ}
    (h : Reached cfg b s) (fr : EpExtractor.Frame V) :
    body cfg q handle s fr = some (StreamProcessor.body cfg q handle s fr) := by
  have hl := h.loaded fr
  rw [← h.index] at hl
  rw [body, epExtract_passes h.buffer.shaped, Option.bind_some, StreamProcessor.body]
  simp only
  split
  · rw [fpExtract_passes q hmin hl (by omega) (by rw [h.empty]; exact Nat.zero_le _), Option.map_some]
  · rfl

end Run

/-- The shared buffer has its size, an index that stays in it, and its points in time order. -/
structure Sound (cfg : Config V) (eps : EventPoints V) : Prop where
  slots : eps.eventPoints.length = cfg.maxEventPoints
  index : eps.eventPointIndex ≤ cfg.maxEventPoints
  ascending : eps.live.Pairwise fun a b => a.timeIndex ≤ b.timeIndex

/-- What holds of a state between two frames, and of what the two extractors make of it with any next frame. -/
structure Kept (cfg : Config V) (q : QSort (EventPoint V) EventPoint.timeIndex) (s : Loop V σ) : Prop where
  buffer : Sound cfg s.epExtractor.eventPoints
  loaded : ∀ fr, Sound cfg (EpExtractor.extract cfg s.epExtractor fr s.audioBlockIndex).eventPoints
  fingerprints : s.fpExtractor.fingerprints.length ≤ cfg.maxFingerprints
  extracted : ∀ fr, (FpExtractor.extract cfg q s.fpExtractor
    (EpExtractor.extract cfg s.epExtractor fr s.audioBlockIndex).eventPoints
    s.audioBlockIndex).1.fingerprints.length ≤ cfg.maxFingerprints

omit [Sample V] in
theorem sound_of_inOrder {cfg : Config V} {now : Int} {eps : EventPoints V} (h : InOrder cfg now eps) : Sound cfg eps :=
  ⟨h.shaped.len, h.shaped.idx, h.ascending⟩

theorem kept_of_reached {cfg : Config V} (q : QSort (EventPoint V) EventPoint.timeIndex) {b : Nat} {s : Loop V σ}
    (h : Reached cfg b s) : Kept cfg q s := by
  refine ⟨sound_of_inOrder h.buffer, fun fr => ?_, by rw [h.empty]; exact Nat.zero_le _, fun fr => ?_⟩
  · rw [h.index]
    exact sound_of_inOrder (h.loaded fr)
  · simp only [FpExtractor.extract, h.empty, h.index]
    exact combine_bounded (h.loaded fr).index_le b

/-- **No assertion ends a run, and the shared buffer keeps its shape.** -/
theorem loop_passes (cfg : Config V) (q : QSort (EventPoint V) EventPoint.timeIndex)
    (handle : σ → List (Fingerprint V) → σ) (sink : σ) (frames : List (EpExtractor.Frame V))
    (hmin : 1 ≤ cfg.minTimeDistance) (h0 : 0 ≤ cfg.eventPointThreshold) :
    loop cfg q handle sink frames = some (StreamProcessor.loop cfg q handle sink frames) ∧
      finish cfg q (StreamProcessor.loop cfg q handle sink frames) =
        some (StreamProcessor.finish cfg q (StreamProcessor.loop cfg q handle sink frames)) ∧
      Kept cfg q (StreamProcessor.loop cfg q handle sink frames) := by
  have hr := loop_reached cfg q handle sink frames
  refine ⟨?_, ?_, kept_of_reached q hr⟩
  · clear hr
    induction frames using List.reverseRecOn with
    | nil => rfl
    | append_singleton frames fr ih =>
      have hlast := body_passes q handle hmin h0 (loop_reached cfg q handle sink frames) fr
      rw [loop] at ih ⊢
      rw [List.foldlM_append, ih, loop_append, ← hlast]
      simp
  · unfold finish StreamProcessor.finish
    split
    · rw [fpExtract_passes q hmin hr.buffer (by omega) (by rw [hr.empty]; exact Nat.zero_le _), Option.map_some]
    · rfl

/-- The default configuration meets the conditions, in a run that combines three points. -/
theorem loop_passes_busyAfter :
    (1 : Int) ≤ (Config.default ℚ).minTimeDistance ∧ (0 : Int) ≤ (Config.default ℚ).eventPointThreshold ∧
      loop (.default ℚ) (.insertion _ _) collect [] ((busyAfter 39).map EpExtractor.impulses) =
        some (StreamProcessor.loop (.default ℚ) (.insertion _ _) collect [] ((busyAfter 39).map EpExtractor.impulses)) ∧
      (StreamProcessor.loop (.default ℚ) (.insertion _ _) collect []
        ((busyAfter 39).map EpExtractor.impulses)).sink.flatten.length = 1 := by
  refine ⟨by decide, by decide, (loop_passes (.default ℚ) (.insertion _ _) collect [] _ (by decide) (by decide)).1, ?_⟩
  rw [loop_batches, detected_impulses]
  decide +kernel

end Olaf.Asserting
