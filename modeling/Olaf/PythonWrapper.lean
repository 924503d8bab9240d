import Olaf.IdentityFilter
import Olaf.ParallelStore
import Olaf.Reader
import Olaf.SelfMatch
import Olaf.TimeLabels
/-!
# The Python front end (`python-wrapper/olaf.py`)

| here | there |
| --- | --- |
| `slidingBlocks` | the `sliding_window_view` and its steps (`:96`); `none` for its `ValueError`, when the audio is shorter than a block |
| `Locals`        | the variables of `do` and what the objects of the library hold |
| `init`, `body`  | `__init__` (`:43`) with the first lines of `do` (`:91`), and an iteration of its loop (`:105-158`), from the transformed frame on |
| `finish`        | the trailing extract and what each command does with it (`:164-215`), with the writer that `__del__` closes (`:74`) |
| `run`           | `do` on the transformed blocks |

The rest of the library is the one of the command line: the extractors, the writer and the matcher are those of `StreamProcessor`, and a
command does to a batch what the mode does that it stands for. `olaf_fft_forward` has the window and the transform of
`olaf_stream_processor_process`. `librosa.load` gives the samples, and the object has the default configuration.

The reader of the command line starts with the block that ends with the second step of the audio and goes on to one that is filled up
with silence. The wrapper has whole blocks only. So it sees the same blocks without the first six and the last (`wrapper_agrees`), and its
times are six blocks earlier; an audio is stored under the hash of its path, also when the path is a numeral.
-/

namespace Olaf.PythonWrapper
open EpExtractor StreamProcessor Reader Sorting ParallelQuery

inductive OlafCommand
  | store
  | query
  | extractEventPoints
  | extractFingerprints
  | extractMagnitudes
deriving DecidableEq

variable {V : Type} [Sample V]

omit [Sample V] in
def slidingBlocks (cfg : Config V) (y : List V) : Option (List (List V)) :=
  if y.length < cfg.audioBlockSize then none
  else some ((List.range ((y.length - cfg.audioBlockSize) / cfg.audioStepSize + 1)).map fun k =>
    (y.drop (k * cfg.audioStepSize)).take cfg.audioBlockSize)

/-- What a batch goes to. A row of a fingerprint has its hash and its fields. -/
structure Sinks (V : Type) where
  fpDbWriter : Db × FpDbWriter.Writer
  fpMatcher : FpMatcher.Matcher
  fingerprints : List (Nat × Fingerprint V)

/-- `loop` has the extractors, the index of the block and whether `fps` is no longer `None`. -/
structure Locals (V : Type) where
  loop : Loop V (Sinks V)
  eventPoints : List (Int × Int)
  magnitudes : List (List V)

def row (f : Fingerprint V) : Nat × Fingerprint V := (f.hash, f)

/-- Its time and its bin. -/
def place (p : EventPoint V) : Int × Int := (p.timeIndex, p.frequencyBin)

/-- The magnitudes are for pictures. -/
def config (command : OlafCommand) : Config V := { Config.default V with sqrtMagnitude := decide (command = .extractMagnitudes) }

/-- The hash of the path, which is bytes. -/
def audioIdentifier (char : UInt8 → UInt32) (path : String) : UInt32 := stringHash char path.toUTF8.data.toList

/-- The first 512 floats of the newest slot. -/
def mags (cfg : Config V) (ep : EpExtractor.State V) : List V :=
  (List.range 512).map (slot ep.mags (if ep.filterIndex + 1 = cfg.filterSizeTime then cfg.filterSizeTime - 2 else ep.filterIndex - 1))

/-- What a command does with a batch. -/
def handle (cfg : Config V) (command : OlafCommand) (s : Sinks V) (fps : List (Fingerprint V)) : Sinks V :=
  match command with
  | .store => { s with fpDbWriter := FpDbWriter.store s.fpDbWriter fps }
  | .query => { s with fpMatcher := FpMatcher.matchFingerprints cfg s.fpMatcher fps }
  | .extractFingerprints => { s with fingerprints := s.fingerprints ++ fps.map row }
  | .extractEventPoints | .extractMagnitudes => s

section Definitions
variable (q : QSort (EventPoint V) EventPoint.timeIndex) (command : OlafCommand)

def init (id : UInt32) (db : Db) : Locals V where
  loop := ⟨EpExtractor.init (config command), .init, false, 0, ⟨(db, FpDbWriter.new id), FpMatcher.new db, []⟩⟩
  eventPoints := []
  magnitudes := []

def body (s : Locals V) (fftSamples : Frame V) : Locals V :=
  let cfg := config command
  let eps := EpExtractor.extract cfg s.loop.epExtractor fftSamples s.loop.audioBlockIndex
  let magnitudes := if command = .extractMagnitudes then s.magnitudes ++ [mags cfg eps] else s.magnitudes
  if eps.eventPoints.eventPointIndex > cfg.eventPointThreshold then
    let eventPoints := if command = .extractEventPoints then s.eventPoints ++ eps.eventPoints.live.map place else s.eventPoints
    let fps := FpExtractor.extract cfg q s.loop.fpExtractor eps.eventPoints s.loop.audioBlockIndex
    { loop :=
        { epExtractor := { eps with eventPoints := fps.2 }
          fpExtractor := { fps.1 with fingerprints := [] }
          fingerprintsSet := true
          audioBlockIndex := s.loop.audioBlockIndex + 1
          sink := handle cfg command s.loop.sink fps.1.fingerprints }
      eventPoints, magnitudes }
  else
    { loop := { s.loop with epExtractor := eps, audioBlockIndex := s.loop.audioBlockIndex + 1 }
      eventPoints := s.eventPoints
      magnitudes }

/-- What `do` returns and the destructor leaves. -/
structure Outcome (V : Type) where
  db : Db
  results : Nat → Option FpMatcher.MatchResult
  eventPoints : List (Int × Int)
  fingerprints : List (Nat × Fingerprint V)
  magnitudes : List (List V)

/-- For the metadata the duration is that of the steps. The path is shorter than 512 bytes: a longer one does not get into the
`ffi.new` of its array, and `do` raises before it has stored the metadata. -/
def finish (id : UInt32) (path : String) (s : Locals V) : Outcome V :=
  let cfg : Config V := config command
  let rest := StreamProcessor.finish cfg q s.loop
  let sink := match rest.fingerprints with
    | some fps => handle cfg command s.loop.sink fps
    | none => s.loop.sink
  let db :=
    if command = .store then
      FpDbWriter.destroy (sink.fpDbWriter.1.storeMetaData id
        ⟨path, s.loop.audioBlockIndex * cfg.audioStepSize / cfg.audioSampleRate, rest.total⟩, sink.fpDbWriter.2) true
    else sink.fpDbWriter.1
  ⟨db, sink.fpMatcher.results, s.eventPoints, sink.fingerprints, s.magnitudes⟩

def run (id : UInt32) (path : String) (db : Db) (frames : List (Frame V)) : Outcome V :=
  finish q command id path (frames.foldl (body q command) (init command id db))

end Definitions

/-! ## The blocks -/

section Blocks
variable (V) in
theorem default_sizes : (Config.default V).audioBlockSize = 1024 ∧ (Config.default V).audioStepSize = 128 := ⟨rfl, rfl⟩

/-- A block of the wrapper is the one that the reader has eight calls later. -/
theorem slidingBlock_eq {y : List V} {k : Nat} (h : k * 128 + 1024 ≤ y.length) :
    (y.drop (k * 128)).take 1024 = (calls (.default V) y (k + 8)).block (.default V) := by
  obtain ⟨hblock, hstep⟩ := default_sizes V
  refine List.ext_getElem ?_ fun j hj _ => ?_
  · rw [Read.block, List.length_map, List.length_range, hblock, List.length_take, List.length_drop]
    omega
  · rw [List.length_take, List.length_drop] at hj
    have hposition : (((k + 8) * 128 : Nat) + j - (1024 : Nat) : Int) = (k * 128 + j : Nat) := by omega
    have hwindow := @calls_window V _ (.default V) y (hstep.le.trans (by rw [hblock]; decide)) (k + 8) j (by rw [hblock]; omega)
    rw [hblock, hstep, hposition, sampleAt, if_pos (Int.natCast_nonneg _), Int.toNat_natCast] at hwindow
    simp only [Read.block, List.getElem_map, List.getElem_range, List.getElem_take, List.getElem_drop]
    rw [hwindow, List.getD_eq_getElem?_getD, List.getElem?_eq_getElem (by omega), Option.getD_some]

/-- **The wrapper's blocks are those of the reader**, without the first six and the one that is filled up. -/
theorem slidingBlocks_eq {y : List V} (hlong : 1024 ≤ y.length) :
    ∃ last blocks, readBlocks (.default V) y = some (last, blocks) ∧
      slidingBlocks (.default V) y = some ((blocks.drop 6).dropLast) := by
  obtain ⟨hblock, hstep⟩ := default_sizes V
  refine ⟨_, _, readBlocks_eq (.default V) y (by rw [hstep]; decide), ?_⟩
  rw [slidingBlocks, hblock, hstep, if_neg (by omega), Option.some.injEq]
  refine List.ext_getElem ?_ fun k hk _ => ?_
  · simp only [List.length_map, List.length_range, List.length_dropLast, List.length_drop]
    omega
  · rw [List.length_map, List.length_range] at hk
    simp only [List.getElem_map, List.getElem_range, List.getElem_dropLast, List.getElem_drop]
    rw [slidingBlock_eq (by omega), show 6 + k + 2 = k + 8 by omega]

end Blocks

/-! ## The loop is that of the command line -/

section Loop
variable (q : QSort (EventPoint V) EventPoint.timeIndex) (command : OlafCommand) (id : UInt32) (db : Db)

theorem body_loop (s : Locals V) (fftSamples : Frame V) : (body q command s fftSamples).loop =
    StreamProcessor.body (config command) q (handle (config command) command) s.loop fftSamples := by
  unfold body StreamProcessor.body
  dsimp only
  split
  · rfl
  · rfl

/-- The variables after some blocks. -/
def after (frames : List (Frame V)) : Locals V := frames.foldl (body q command) (init command id db)

theorem after_append (frames : List (Frame V)) (fr : Frame V) :
    after q command id db (frames ++ [fr]) = body q command (after q command id db frames) fr := by
  rw [after, List.foldl_concat]
  rfl

theorem after_loop (frames : List (Frame V)) : (after q command id db frames).loop =
    loop (config command) q (handle (config command) command) (init (V := V) command id db).loop.sink frames := by
  induction frames using List.reverseRecOn with
  | nil => rfl
  | append_singleton frames fr ih => rw [after_append, body_loop, ih, loop_append]

/-- A run folds what the command does with a batch over what a storing run hands over. -/
theorem run_sink (frames : List (Frame V)) :
    (match (StreamProcessor.finish (config command) q (after q command id db frames).loop).fingerprints with
      | some fps => handle (config command) command (after q command id db frames).loop.sink fps
      | none => (after q command id db frames).loop.sink) =
    (handed (config command) q .store frames).foldl (handle (config command) command) (init (V := V) command id db).loop.sink := by
  have hfeed := feed_handed (config command) q .store (handle (config command) command) (init (V := V) command id db).loop.sink frames
  rw [after_loop]
  exact congrArg Prod.fst hfeed

theorem run_total (frames : List (Frame V)) :
    (StreamProcessor.finish (config command) q (after q command id db frames).loop).total = total (config command) q frames := by
  have hfeed := feed_handed (config command) q .store (handle (config command) command) (init (V := V) command id db).loop.sink frames
  rw [after_loop]
  exact congrArg Prod.snd hfeed

end Loop

/-! ## What the commands do with the batches -/

section Handle
variable (cfg : Config V) (batches : List (List (Fingerprint V))) (s : Sinks V)

omit [Sample V] in
theorem handle_store : (batches.foldl (handle cfg .store) s).fpDbWriter = batches.foldl FpDbWriter.store s.fpDbWriter := by
  induction batches generalizing s with
  | nil => rfl
  | cons fps batches ih => exact ih _

omit [Sample V] in
theorem handle_query : (batches.foldl (handle cfg .query) s).fpMatcher = batches.foldl (FpMatcher.matchFingerprints cfg) s.fpMatcher := by
  induction batches generalizing s with
  | nil => rfl
  | cons fps batches ih => exact ih _

omit [Sample V] in
theorem handle_fingerprints : (batches.foldl (handle cfg .extractFingerprints) s).fingerprints =
    s.fingerprints ++ batches.flatten.map row := by
  induction batches generalizing s with
  | nil => exact (List.append_nil _).symm
  | cons fps batches ih =>
    rw [List.foldl_cons, ih, List.flatten_cons, List.map_append, ← List.append_assoc]
    rfl

omit [Sample V] in
theorem handle_others {command : OlafCommand} (hcommand : command ≠ .store) : (batches.foldl (handle cfg command) s).fpDbWriter = s.fpDbWriter := by
  induction batches generalizing s with
  | nil => rfl
  | cons fps batches ih =>
    rw [List.foldl_cons, ih]
    cases command with
    | store => exact absurd rfl hcommand
    | query | extractEventPoints | extractFingerprints | extractMagnitudes => rfl

end Handle

/-- The metadata may as well be stored after the pairs. -/
theorem store_storeMetaData (db : Db) (ps : List (Nat × Nat)) (id : UInt32) (m : ResourceMetaData) :
    (db.storeMetaData id m).store ps = (db.store ps).storeMetaData id m := by
  obtain ⟨hmap, hwarning⟩ := Db.store_rest ps (db.storeMetaData id m)
  obtain ⟨hmap', hwarning'⟩ := Db.store_rest ps db
  refine Db.ext (fun e => ?_) ?_ ?_
  · rw [Db.mem_store, Db.storeMetaData_fps, Db.storeMetaData_fps, Db.mem_store]
  · rw [hmap, Db.storeMetaData_resourceMap, Db.storeMetaData_resourceMap, hmap']
  · exact hwarning.trans hwarning'.symm

theorem destroy_storeMetaData (w : Db × FpDbWriter.Writer) (id : UInt32) (m : ResourceMetaData) :
    FpDbWriter.destroy (w.1.storeMetaData id m, w.2) true = (FpDbWriter.destroy w true).storeMetaData id m :=
  store_storeMetaData w.1 w.2.pending id m

/-! ## Magnitudes and event points -/

section Lists
variable {cfg : Config V} {frames : List (Frame V)} {ep : EpExtractor.State V}

/-- The newest slot has the last frame. -/
theorem mags_newest (h : History cfg frames ep) (hT : 2 ≤ cfg.filterSizeTime) (hne : 1 ≤ frames.length) :
    mags cfg ep = (List.range 512).map (magnitudes cfg (frameAt frames (frames.length - 1))) := by
  have hindex := h.index
  have hslot : (if ep.filterIndex + 1 = cfg.filterSizeTime then cfg.filterSizeTime - 2 else ep.filterIndex - 1) = ep.filterIndex - 1 := by
    split <;> omega
  have hnewest := h.mag (ep.filterIndex - 1) (by omega)
  rw [show frames.length - ep.filterIndex + (ep.filterIndex - 1) = frames.length - 1 by omega] at hnewest
  rw [mags, hslot, hnewest]

variable (q : QSort (EventPoint V) EventPoint.timeIndex) (id : UInt32) (db : Db) (frames)

theorem after_magnitudes : (after q .extractMagnitudes id db frames).magnitudes =
    frames.map fun fr => (List.range 512).map (magnitudes (config .extractMagnitudes) fr) := by
  induction frames using List.reverseRecOn with
  | nil => rfl
  | append_singleton frames fr ih =>
    have hsize : 2 ≤ (config .extractMagnitudes : Config V).filterSizeTime := show 2 ≤ 24 by decide
    have hhistory := loop_history q (handle (config .extractMagnitudes) .extractMagnitudes)
      (init (V := V) .extractMagnitudes id db).loop.sink (Nat.le_of_lt hsize) (frames ++ [fr])
    rw [← after_loop, after_append] at hhistory
    have hnewest := mags_newest hhistory hsize (by simp)
    have hlast : frameAt (frames ++ [fr]) ((frames ++ [fr]).length - 1) = fr := by simp [frameAt]
    rw [hlast] at hnewest
    rw [after_append, List.map_append, ← ih, List.map_singleton, ← hnewest]
    unfold body
    dsimp only
    split
    · rfl
    · rfl

/-- **No event point is lost**: it is listed by the next call of the extractor, or in the buffer at the end. -/
theorem after_eventPoints {b : Nat} {fr : Frame V} (hb : frames[b]? = some fr) {p : EventPoint V}
    (hp : p ∈ recorded (.default V) (loop (.default V) q collect [] (frames.take b)).epExtractor fr b) :
    place p ∈ (after q .extractEventPoints id db frames).eventPoints ∨
      place p ∈ (loop (.default V) q collect [] frames).epExtractor.eventPoints.live.map place := by
  induction frames using List.reverseRecOn with
  | nil => cases hb
  | append_singleton frames last ih =>
    have hloop : (after q .extractEventPoints id db frames).loop =
        loop (.default V) q (handle (.default V) .extractEventPoints) (init (V := V) .extractEventPoints id db).loop.sink frames :=
      after_loop q .extractEventPoints id db frames
    rw [loop_sink] at hloop
    have hreached := loop_reached (.default V) q collect ([] : List (List (Fingerprint V))) frames
    have hlive := extract_live hreached.buffer.shaped last frames.length
    have hrecorded : place p ∈ (after q .extractEventPoints id db frames).eventPoints ∨
        place p ∈ (EpExtractor.extract (.default V) (loop (.default V) q collect [] frames).epExtractor last
          frames.length).eventPoints.live.map place := by
      rw [hlive, List.map_append, List.mem_append]
      rcases Nat.lt_or_ge b frames.length with hlt | hge
      · rw [List.getElem?_append_left hlt] at hb
        rw [List.take_append_of_le_length hlt.le] at hp
        exact (ih hb hp).imp_right .inl
      · have hlen := (List.getElem?_eq_some_iff.1 hb).1
        rw [List.length_append, List.length_singleton] at hlen
        obtain rfl : b = frames.length := by omega
        rw [List.getElem?_concat_length, Option.some.injEq] at hb
        subst hb
        rw [List.take_left] at hp
        exact .inr (.inr (List.mem_map_of_mem hp))
    have hconfig : (config .extractEventPoints : Config V) = .default V := rfl
    rw [after_append, loop_append]
    unfold body StreamProcessor.body
    rw [hloop, hconfig]
    dsimp only
    rw [hreached.index]
    -- what is in the buffer is listed before the extractor is called
    by_cases hfull : ((EpExtractor.extract (.default V) (loop (.default V) q collect [] frames).epExtractor last
        frames.length).eventPoints.eventPointIndex : Int) > (Config.default V).eventPointThreshold
    · refine .inl ?_
      rw [if_pos hfull, if_pos rfl, List.mem_append]
      exact hrecorded
    · rw [if_neg hfull, if_neg hfull]
      exact hrecorded

end Lists

/-! ## The wrapper and the command line -/

/-- What the wrapper makes of some frames, next to the command line on the same ones. -/
structure Agrees (q : QSort (EventPoint V) EventPoint.timeIndex) (fmt : MagnitudeFormat V) (id : UInt32) (path : String) (db : Db)
    (frames : List (Frame V)) : Prop where
  store : (run q .store id path db frames).db =
    (db.store ((extracted (.default V) q frames).map (FpDbWriter.pair id))).storeMetaData id
      ⟨path, frames.length * 128 / 16000, total (.default V) q frames⟩
  query : ∀ (audio : Audio V) (queryId : UInt32), audio.frames = frames →
    (process (.default V) q fmt .query audio queryId db).map StreamProcessor.Outcome.results = some (run q .query id path db frames).results
  fingerprints : (run q .extractFingerprints id path db frames).fingerprints = (extracted (.default V) q frames).map row
  magnitudes : (run q .extractMagnitudes id path db frames).magnitudes =
    frames.map fun fr => (List.range 512).map (magnitudes (config .extractMagnitudes) fr)
  eventPoints : ∀ b fr, frames[b]? = some fr →
    ∀ p ∈ recorded (.default V) (loop (.default V) q collect [] (frames.take b)).epExtractor fr b,
      place p ∈ (run q .extractEventPoints id path db frames).eventPoints ∨
        place p ∈ (loop (.default V) q collect [] frames).epExtractor.eventPoints.live.map place
  others : ∀ command, command ≠ .store → (run q command id path db frames).db = db

variable (q : QSort (EventPoint V) EventPoint.timeIndex) (fmt : MagnitudeFormat V) (id : UInt32) (path : String) (db : Db)
  (frames : List (Frame V))

theorem run_store : (run q .store id path db frames).db =
    (db.store ((extracted (.default V) q frames).map (FpDbWriter.pair id))).storeMetaData id
      ⟨path, frames.length * 128 / 16000, total (.default V) q frames⟩ := by
  have hsink := run_sink q .store id db frames
  have htotal := run_total q .store id db frames
  have hindex : (after q .store id db frames).loop.audioBlockIndex = frames.length := by
    rw [after_loop]
    exact (loop_ring _ q _ _ frames).2
  have hroom : ∀ fps ∈ handed (.default V) q .store frames, FpDbWriter.threshold + fps.length ≤ FpDbWriter.capacity :=
    handed_room rfl .store frames
  have hpairs := (FpDbWriter.destroy_eq db id hroom).1
  have hwriter := handle_store (.default V) (handed (.default V) q .store frames) (init (V := V) .store id db).loop.sink
  rw [run, finish]
  dsimp only
  rw [← after, hsink, htotal, hindex]
  have hconfig : (config .store : Config V) = .default V := rfl
  rw [hconfig, hwriter, destroy_storeMetaData, init, hpairs]
  rfl

theorem run_query (audio : Audio V) (queryId : UInt32) (hframes : audio.frames = frames) :
    (process (.default V) q fmt .query audio queryId db).map StreamProcessor.Outcome.results =
      some (run q .query id path db frames).results := by
  have hsink := run_sink q .query id db frames
  have hconfig : (config .query : Config V) = .default V := rfl
  have hmatcher := handle_query (.default V) (handed (.default V) q .store frames) (init (V := V) .query id db).loop.sink
  have hsame : handed (.default V) q .query frames = handed (.default V) q .store frames := rfl
  rw [run, finish]
  dsimp only
  rw [← after, hsink, hconfig, hmatcher]
  simp only [process, feed_handed, hframes, hsame, Option.map_some]
  rfl

theorem run_fingerprints : (run q .extractFingerprints id path db frames).fingerprints = (extracted (.default V) q frames).map row := by
  have hsink := run_sink q .extractFingerprints id db frames
  have hconfig : (config .extractFingerprints : Config V) = .default V := rfl
  rw [run, finish]
  dsimp only
  rw [← after, hsink, hconfig, handle_fingerprints, extracted]
  exact List.nil_append _

theorem run_others {command : OlafCommand} (hcommand : command ≠ .store) : (run q command id path db frames).db = db := by
  have hsink := run_sink q command id db frames
  have hwriter := handle_others (config command) (handed (config command) q .store frames)
    (init (V := V) command id db).loop.sink hcommand
  rw [run, finish]
  dsimp only
  rw [← after, hsink, hwriter, if_neg hcommand]
  rfl

/-- **On the same frames the wrapper does what the command line does.** -/
theorem run_agrees : Agrees q fmt id path db frames where
  store := run_store q id path db frames
  query audio queryId hframes := run_query q fmt id path db frames audio queryId hframes
  fingerprints := run_fingerprints q id path db frames
  magnitudes := after_magnitudes frames q id db
  eventPoints _ _ hb _ hp := after_eventPoints frames q id db hb hp
  others _ hcommand := run_others q id path db frames hcommand

/-- **The wrapper on an audio**: the command line on the blocks of its reader but for the first six and the last. -/
theorem wrapper_agrees (char : UInt8 → UInt32) (transform : List V → Frame V) {y : List V} (hlong : 1024 ≤ y.length) :
    ∃ last blocks, readBlocks (.default V) y = some (last, blocks) ∧
      slidingBlocks (.default V) y = some ((blocks.drop 6).dropLast) ∧
      Agrees q fmt (audioIdentifier char path) path db (((blocks.drop 6).dropLast).map transform) := by
  obtain ⟨last, blocks, hread, hsliding⟩ := slidingBlocks_eq hlong
  exact ⟨last, blocks, hread, hsliding, run_agrees q fmt _ path db _⟩

/-! ## An audio with a fingerprint -/

/-- The first sample of a step is its number. -/
def numbered : List ℚ := (List.range 8960).map fun i => if i % 128 = 0 then (i / 128 : Nat) else 0

/-- For a transform that makes the frames with the busy block of a block and its number. -/
def busyTransform (block : List ℚ) : Frame ℚ := impulses ((busyAfter 39).getD (block.headD 0).num.toNat [])

theorem numbered_frames : (slidingBlocks (.default ℚ) numbered).map (·.map busyTransform) = some ((busyAfter 39).map impulses) := by
  obtain ⟨hblock, hstep⟩ := default_sizes ℚ
  have hlength : numbered.length = 8960 := by rw [numbered, List.length_map, List.length_range]
  rw [slidingBlocks, hblock, hstep, hlength, if_neg (by decide), Option.map_some, Option.some.injEq, List.map_map]
  refine List.ext_getElem (by simp [busyAfter]) fun k hk _ => ?_
  rw [List.length_map, List.length_range] at hk
  have hhead : (((numbered.drop (k * 128)).take 1024).headD 0) = (k : ℚ) := by
    rw [List.headD_eq_head?_getD, List.head?_take, if_neg (by decide), List.head?_drop, numbered, List.getElem?_map,
      List.getElem?_range (by omega), Option.map_some, Option.getD_some, if_pos (Nat.mul_mod_left k 128),
      Nat.mul_div_cancel k (by decide)]
  have hbound : k < (busyAfter 39).length := by simpa [busyAfter] using hk
  simp only [List.getElem_map, List.getElem_range, Function.comp_apply, busyTransform, hhead, Rat.num_natCast, Int.toNat_natCast]
  rw [List.getD_eq_getElem?_getD, List.getElem?_eq_getElem hbound, Option.getD_some]

/-- The busy block makes the library combine, and there is a fingerprint to agree on. -/
theorem wrapper_agrees_numbered : ∃ last blocks, readBlocks (.default ℚ) numbered = some (last, blocks) ∧
    slidingBlocks (.default ℚ) numbered = some ((blocks.drop 6).dropLast) ∧
    Agrees (.insertion _ EventPoint.timeIndex) FpDbWriterCache.sixDecimals (audioIdentifier UInt8.toUInt32 "7.wav") "7.wav"
      ParallelStore.emptyFolder.txnBegin (((blocks.drop 6).dropLast).map busyTransform) ∧
    total (.default ℚ) (.insertion _ EventPoint.timeIndex) (((blocks.drop 6).dropLast).map busyTransform) = 1 := by
  obtain ⟨last, blocks, hread, hsliding, hagrees⟩ := wrapper_agrees (.insertion _ EventPoint.timeIndex)
    FpDbWriterCache.sixDecimals "7.wav" ParallelStore.emptyFolder.txnBegin UInt8.toUInt32 busyTransform (y := numbered)
    (by rw [numbered, List.length_map, List.length_range]; decide)
  refine ⟨last, blocks, hread, hsliding, hagrees, ?_⟩
  have hframes := numbered_frames
  rw [hsliding, Option.map_some, Option.some.injEq] at hframes
  rw [hframes, total_eq, detected_impulses]
  decide +kernel

end Olaf.PythonWrapper
