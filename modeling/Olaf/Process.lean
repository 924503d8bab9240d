import Olaf.InOrder
import Olaf.FpDbWriter
import Olaf.FpFileWriter
import Olaf.FpMatcher
/-!
# The modes of the stream processor (`olaf_stream_processor_process`)

| here | there |
| --- | --- |
| `Mode`     | `OLAF_RUNNER_MODE_*` |
| `Audio`    | what a run reads: the transformed frames, the total of samples and the path |
| `feed`     | the loop and the end of the stream (`:127-222`) up to the closing of the writer or the matcher; `handle` is the function of the mode |
| `process`  | `olaf_stream_processor_process` (`:95`), its branches at the start and at the end |

The modes share the loop and differ in what they do with the last fingerprints: `print` and `cache` leave them
alone. `feed_handed` splits a run into the fingerprints it hands over, call by call (`handed`), and the function
they are handed to; `handed_inserted` and `handed_written` say what they are.
-/

namespace Olaf.StreamProcessor
open EpExtractor FpExtractor Sorting

variable {V : Type} [Sample V] {σ : Type}

/-- A printing run is given a file for its metadata or, by `main` (`olaf.c:211`) and `olaf_main`
(`olaf_cli_bridge.c:565`), `NULL`. -/
inductive Mode
  | query
  | store
  | delete
  | print (fpMetaFile : Bool)
  | cache
deriving DecidableEq

/-- What a run reads. The index of its blocks is an `int`. -/
structure Audio (V : Type) where
  path : String
  totalSamplesRead : Nat
  frames : List (Frame V)
  countable : frames.length < 2 ^ 31

/-- The mode hands the fingerprints of the last event points over. -/
def Mode.handsLast : Mode → Bool
  | .query | .store | .delete => true
  | .print _ | .cache => false

/-- The run of a mode whose function is `handle`, and the total of fingerprints. -/
def feed (cfg : Config V) (q : QSort (EventPoint V) EventPoint.timeIndex) (mode : Mode)
    (handle : σ → List (Fingerprint V) → σ) (sink : σ) (frames : List (Frame V)) : σ × Nat :=
  let s := loop cfg q handle sink frames
  let rest := finish cfg q s
  let sink :=
    if mode.handsLast then
      match rest.fingerprints with
      | some fingerprints => handle s.sink fingerprints
      | none => s.sink
    else s.sink
  (sink, rest.total)

/-- What a run leaves behind: the database, the result table of a query, and the two files. -/
structure Outcome where
  db : Db
  results : Nat → Option FpMatcher.MatchResult
  cacheFile : List Char
  metaFile : Option ResourceMetaData

/-- `none` when the program exits. -/
def process (cfg : Config V) (q : QSort (EventPoint V) EventPoint.timeIndex) (fmt : MagnitudeFormat V) (mode : Mode)
    (audio : Audio V) (audioIdentifier : UInt32) (db : Db) : Option Outcome :=
  let metaData (total : Nat) : ResourceMetaData := ⟨audio.path, audio.totalSamplesRead / cfg.audioSampleRate, total⟩
  match mode with
  | .query =>
    let (m, _) := feed cfg q mode (FpMatcher.matchFingerprints cfg) (FpMatcher.new db) audio.frames
    some ⟨m.db, m.results, [], none⟩
  | .store =>
    let (s, total) := feed cfg q mode FpDbWriter.store (db, FpDbWriter.new audioIdentifier) audio.frames
    some ⟨(FpDbWriter.destroy s true).storeMetaData audioIdentifier (metaData total), fun _ => none, [], none⟩
  | .delete =>
    let (s, _) := feed cfg q mode FpDbWriter.delete (db, FpDbWriter.new audioIdentifier) audio.frames
    ((FpDbWriter.destroy s false).deleteMetaData audioIdentifier).map fun db => ⟨db, fun _ => none, [], none⟩
  | .print false => none -- `fprintf(NULL, ...)` in `olaf_fp_file_writer_destroy` (`:59`)
  | .print true | .cache =>
    let (file, total) := feed cfg q mode (FpFileWriter.write fmt) FpFileWriter.header audio.frames
    some ⟨db, fun _ => none, file, some (metaData total)⟩

/-! ## What a mode hands over -/

section Handed
variable (cfg : Config V) (q : QSort (EventPoint V) EventPoint.timeIndex)

/-- The arguments of the calls that a run in a mode makes. -/
def handed (mode : Mode) (frames : List (Frame V)) : List (List (Fingerprint V)) := (feed cfg q mode collect [] frames).1

/-- The total does not depend on the mode. -/
def total (frames : List (Frame V)) : Nat := (finish cfg q (loop cfg q collect [] frames)).total

theorem finish_sink (s : Loop V σ) {τ : Type} (sink : τ) :
    finish cfg q (⟨s.epExtractor, s.fpExtractor, s.fingerprintsSet, s.audioBlockIndex, sink⟩ : Loop V τ) = finish cfg q s := rfl

/-- **A run folds the function of its mode over what it hands over.** -/
theorem feed_handed (mode : Mode) (handle : σ → List (Fingerprint V) → σ) (sink : σ) (frames : List (Frame V)) :
    feed cfg q mode handle sink frames = ((handed cfg q mode frames).foldl handle sink, total cfg q frames) := by
  unfold handed feed total
  rw [loop_sink]
  generalize loop cfg q collect [] frames = s
  simp only [finish_sink]
  split
  · cases (finish cfg q s).fingerprints with
    | some fps => simp only [collect, List.foldl_concat]
    | none => rfl
  · rfl

/-- **What a run inserts, deletes or matches** is all it delivers. -/
theorem handed_inserted {mode : Mode} (h : mode.handsLast = true) (frames : List (Frame V)) :
    (handed cfg q mode frames).flatten = Stream.delivered cfg q (Stream.run cfg q (detected cfg frames)) := by
  rw [← loop_delivered, handed, feed]
  simp only [h, ↓reduceIte]
  cases (finish cfg q (loop cfg q collect [] frames)).fingerprints with
  | some fps => simp only [collect, List.flatten_concat, Option.getD_some]
  | none => simp only [Option.getD_none, List.append_nil]

/-- **What a run writes** are the batches of the loop. -/
theorem handed_written {mode : Mode} (h : mode.handsLast = false) (frames : List (Frame V)) :
    handed cfg q mode frames = (Stream.run cfg q (detected cfg frames)).batches := by
  rw [handed, feed]
  simp only [h, Bool.false_eq_true, ↓reduceIte]
  exact loop_batches cfg q frames

theorem total_eq (frames : List (Frame V)) :
    total cfg q frames = (Stream.delivered cfg q (Stream.run cfg q (detected cfg frames))).length := by
  rw [total, loop_finish, finish_total (detected_timed cfg frames).inTime]

theorem handed_bounded (mode : Mode) (frames : List (Frame V)) :
    ∀ fps ∈ handed cfg q mode frames, fps.length ≤ cfg.maxFingerprints := by
  have ht := (detected_timed cfg frames).inTime
  have hrun : ∀ fps ∈ (loop cfg q collect [] frames).sink, fps.length ≤ cfg.maxFingerprints := by
    rw [loop_batches]; exact run_bounded ht
  unfold handed feed
  simp only
  split
  · cases hlast : (finish cfg q (loop cfg q collect [] frames)).fingerprints with
    | none => exact hrun
    | some last =>
      intro fps hfps
      rcases List.mem_append.1 hfps with hfps | hfps
      · exact hrun fps hfps
      · rw [List.mem_singleton.1 hfps]
        exact finish_bounded ht (loop_finish cfg q frames ▸ hlast)
  · exact hrun

/-- All fingerprints of a run, in order. -/
def extracted (frames : List (Frame V)) : List (Fingerprint V) := (handed cfg q .store frames).flatten

end Handed

end Olaf.StreamProcessor
