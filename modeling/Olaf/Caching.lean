import Olaf.FpDbWriterCache
import Olaf.Repeats
import Olaf.Process
/-!
# Caching fingerprints (`CACHE` and `PRINT` against `STORE`)

All three modes hand over the batches of the loop. At the end of the stream the remaining event points are
combined in every mode and counted in the total, but only `STORE` hands the result over: the branch of `PRINT`
and `CACHE` closes the file without writing it, and then writes the metadata, to `NULL` when the runner has no file
for it. `cached_iff`: nothing is missing exactly when there is a file for the metadata and nothing was left to
combine.
-/

namespace Olaf.StreamProcessor
open EpExtractor FpExtractor Sorting FpDbWriterCache

variable {V : Type} [Sample V]

/-- The file of a caching run is the header and the rows of what it hands over. -/
theorem process_cached (cfg : Config V) (q : QSort (EventPoint V) EventPoint.timeIndex) (fmt : MagnitudeFormat V)
    {mode : Mode} (h : mode.handsLast = false) (hmeta : mode ≠ .print false) (audio : Audio V) (id : UInt32) (db : Db) :
    process cfg q fmt mode audio id db = some ⟨db, fun _ => none,
      written fmt (handed cfg q mode audio.frames),
      some ⟨audio.path, audio.totalSamplesRead / cfg.audioSampleRate, total cfg q audio.frames⟩⟩ := by
  cases mode with
  | query | store | delete => exact absurd h (by decide)
  | cache =>
    simp only [process, feed_handed]
    rfl
  | print fpMetaFile =>
    cases fpMetaFile with
    | false => exact absurd rfl hmeta
    | true =>
      simp only [process, feed_handed]
      rfl

/-- The run writes the fingerprints that a storing run hands over, and as many as its metadata says. -/
def CachesAll (cfg : Config V) (q : QSort (EventPoint V) EventPoint.timeIndex) (fmt : MagnitudeFormat V) (mode : Mode)
    (audio : Audio V) (id : UInt32) (db : Db) : Prop :=
  ∃ outcome metaFile, process cfg q fmt mode audio id db = some outcome ∧
    outcome.cacheFile = written fmt (handed cfg q mode audio.frames) ∧
    outcome.metaFile = some metaFile ∧
    (handed cfg q mode audio.frames).flatten = (handed cfg q .store audio.frames).flatten ∧
    (handed cfg q mode audio.frames).flatten.length = metaFile.fingerprints

/-- The buffer at the end of the loop holds no combination. -/
def NothingLeft (cfg : Config V) (q : QSort (EventPoint V) EventPoint.timeIndex) (frames : List (Frame V)) : Prop :=
  let eps := (loop cfg q collect [] frames).epExtractor.eventPoints
  cfg.maxFingerprints = 0 ∨ ∀ c, ¬ Combination cfg eps.eventPoints eps.eventPointIndex frames.length c

section Last
variable (cfg : Config V) (q : QSort (EventPoint V) EventPoint.timeIndex)

/-- What the last event points give, which no file gets. -/
def leftOut (frames : List (Frame V)) : List (Fingerprint V) :=
  (combine cfg (Stream.run cfg q (detected cfg frames)).eventPoints [] frames.length).fingerprints

theorem leftOut_nil_iff (frames : List (Frame V)) : leftOut cfg q frames = [] ↔ NothingLeft cfg q frames := by
  obtain ⟨heps, ho, _⟩ := loop_buffer cfg q collect [] frames
  rw [NothingLeft, heps]
  exact combine_nil_iff cfg _ _ ho.buffer.index_le ho.buffer.slots

theorem delivered_last (frames : List (Frame V)) : Stream.delivered cfg q (Stream.run cfg q (detected cfg frames)) =
    (Stream.run cfg q (detected cfg frames)).batches.flatten ++ leftOut cfg q frames :=
  (loop_buffer cfg q collect [] frames).2.1.delivered

/-- **Caching loses nothing exactly when the metadata has a file and nothing is left to combine at the end.** -/
theorem cached_iff (fmt : MagnitudeFormat V) {mode : Mode} (h : mode.handsLast = false) (audio : Audio V) (id : UInt32)
    (db : Db) :
    CachesAll cfg q fmt mode audio id db ↔ mode ≠ .print false ∧ NothingLeft cfg q audio.frames := by
  have hstored := handed_inserted cfg q (show Mode.store.handsLast = true from rfl) audio.frames
  have hwritten := handed_written cfg q h audio.frames
  rw [delivered_last] at hstored
  rw [← leftOut_nil_iff]
  constructor
  · rintro ⟨outcome, metaFile, hrun, -, -, hsame, -⟩
    refine ⟨?_, ?_⟩
    · rintro rfl
      cases hrun
    · rw [hstored, hwritten] at hsame
      exact List.self_eq_append_right.1 hsame
  · rintro ⟨hmeta, hnil⟩
    refine ⟨_, _, process_cached cfg q fmt h hmeta audio id db, rfl, rfl, ?_, ?_⟩
    · rw [hstored, hwritten, hnil, List.append_nil]
    · rw [hwritten, total_eq, delivered_last, hnil, List.append_nil]

end Last

/-- Three points that combine, too few for the loop to call the extractor. -/
def lastBatch : List (List Nat) :=
  (List.range 44).map fun k => if k = 12 then [10] else if k = 14 then [20] else if k = 16 then [30] else []

def lastAudio : Audio ℚ := ⟨"a.wav", 44 * 128, lastBatch.map impulses, by simp [lastBatch]⟩

/-- The only fingerprint of the run is stored and counted but not cached. -/
theorem lastBatch_not_cached :
    ¬ CachesAll (.default ℚ) (.insertion _ EventPoint.timeIndex) sixDecimals .cache lastAudio 0 Db.empty := by
  rintro ⟨outcome, metaFile, hrun, -, hmeta, -, hcount⟩
  rw [process_cached _ _ _ rfl (by decide)] at hrun
  obtain rfl := Option.some.inj hrun
  obtain rfl := Option.some.inj hmeta
  revert hcount
  rw [handed_written _ _ rfl, total_eq, lastAudio, detected_impulses]
  decide +kernel

/-- A busy block before the end combines the three points, and nothing is missing. -/
def busyAudio : Audio ℚ := ⟨"b.wav", 63 * 128, (busyAfter 39).map impulses, by simp [busyAfter]⟩

theorem cached_iff_busyAudio :
    CachesAll (.default ℚ) (.insertion _ EventPoint.timeIndex) sixDecimals .cache busyAudio 0 Db.empty ∧
      total (.default ℚ) (.insertion _ EventPoint.timeIndex) busyAudio.frames = 1 :=
  ⟨(cached_iff _ _ sixDecimals rfl busyAudio 0 Db.empty).2 ⟨by decide, by
    rw [← leftOut_nil_iff, leftOut, busyAudio, detected_impulses]
    decide +kernel⟩, by
    rw [total_eq, busyAudio, detected_impulses]
    decide +kernel⟩

end Olaf.StreamProcessor
