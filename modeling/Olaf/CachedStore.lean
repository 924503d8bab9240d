import Mathlib.Data.Finset.Basic
import Mathlib.Data.Finset.Lattice.Lemmas
import Olaf.Caching
import Olaf.Commands
import Olaf.StoredMetaData
/-!
# Caching, storing from the cache and deleting (`olaf_cli_cmd_cache.zig`, `olaf_cli_cmd_store_cached.zig`)

| here | there |
| --- | --- |
| `Disk`       | the cache folder, by the number in the names `{id}.tdb` and `{id}.meta`, and the two tables of the database |
| `cacheAudioFile`, `cacheAll` | `cacheAudioFile` (`olaf_cli_cmd_cache.zig:72`) with `olaf_print_to_file` (`olaf_cli_bridge.c:474`), and the loop of one thread (`:169`) |
| `storeCachedFile` | an entry of `olaf_store_cached_files` (`olaf_cli_bridge.zig:472`) with `olaf_fp_db_writer_cache_store` (`olaf_fp_db_writer_cache.c:133`) |
| `storeEntry` | the body of the loop over the folder of `execute` in `olaf_cli_cmd_store_cached.zig` (`:75-128`), with `olaf_has` (`olaf_cli_bridge.c:124`) |
| `olafDelete`, `deleteAll` | `olaf_delete` (`olaf_cli_bridge.c:437`) with the end of a run in mode `DELETE` (`olaf_stream_processor.c:218-223`), and the loop of `execute` in `olaf_cli_cmd_delete.zig` (`:39`) |
| `Command`, `Ran` | a run of the program, on one thread; for caching in parallel see `ParallelCache` |

A cache file starts with a line of column names, which is read like any other: it is stored as the fingerprint `(0, id)`. Deleting
extracts the fingerprints of the audio again, and the line is not among them. `cache_session` says what the database has after any
runs of the three commands: an audio that was stored from the cache and deleted leaves this pair behind, and the fingerprints that
are not cached (`Caching`) are not there before.

The database exists, and an error of LMDB is no step.
-/

namespace Olaf.CachedStore
open Checked CStr MetaData MetaFile StreamProcessor ParallelQuery StoredMetaData Sorting FpDbWriterCache
open Commands (Ending)
open FpMatcher (float)

/-- What the files of an audio hold. -/
structure CacheFile where
  tdb : List Char
  metaFile : List UInt8

structure Disk where
  cache : UInt32 → Option CacheFile
  fps : DupTable Nat Nat
  resourceMap : Table ℚ

/-- How the conversion of a file goes: with an error, to raw audio that cannot be opened, or well. -/
inductive Conversion
  | failed
  | unopened
  | converted
deriving DecidableEq

structure AudioFile (V : Type) where
  audio : Audio V
  identifier : CStr
  conversion : Conversion

variable {V : Type} [Sample V]

section Definitions
variable (cfg : Config V) (q : QSort (EventPoint V) EventPoint.timeIndex) (fmt : MagnitudeFormat V) (seconds : SecondsFormat ℚ)
  (char : UInt8 → UInt32) (unset : Record ℚ)

def AudioFile.id (file : AudioFile V) : UInt32 := nameToId char file.identifier.bytes

/-- In mode `CACHE` there is no database. -/
def noDb : Db := ParallelStore.emptyFolder.txnBegin

/-- Both files are opened, and so emptied, before the raw audio is. -/
def cacheAudioFile (d : Disk) (file : AudioFile V) : Option (Disk × Ending) :=
  let audioId := file.id char
  if (d.cache audioId).isSome then some (d, .finished)
  else
    match file.conversion with
    | .failed => some (d, .failed)
    | .unopened => some ({ d with cache := Function.update d.cache audioId (some ⟨[], []⟩) }, .finished)
    | .converted => do
      let outcome ← process cfg q fmt .cache file.audio audioId noDb
      let metaData ← outcome.metaFile
      let metaFile ← cacheProcessed seconds unset (some (dupeZ file.identifier.bytes)) metaData.duration metaData.fingerprints
      return ({ d with cache := Function.update d.cache audioId (some ⟨outcome.cacheFile, metaFile⟩) }, .finished)

/-- On one thread the first error ends the loop. -/
def cacheAll (d : Disk) : List (AudioFile V) → Option Disk
  | [] => some d
  | file :: files => do
    match ← cacheAudioFile cfg q fmt seconds char unset d file with
    | (d, .finished) => cacheAll d files
    | (d, _) => return d

/-- `olaf_db_store` on the table of fingerprints. -/
def storePairs (fps : DupTable Nat Nat) (pairs : List (Nat × Nat)) : DupTable Nat Nat := (Db.store ⟨fps, fun _ => none, false⟩ pairs).fps

/-- The time of a block, in `float`. -/
def secondsOf (t : Nat) : ℚ :=
  let secondsPerBlock := float (float cfg.audioStepSize / float cfg.audioSampleRate)
  float (float t * secondsPerBlock)

def storeCachedFile (d : Disk) (file : CacheFile) (filename : List UInt8) : Option Disk := do
  let audioId := (identifierId char filename).toUInt64
  let (fps, c) ← readCsvFile storePairs d.fps (FpDbWriterCache.new audioId) file.tdb
  let approximateDuration := secondsOf cfg c.lastFpT1
  let resourceMap ← cacheStore unset unset d.resourceMap audioId (dupeZ filename) approximateDuration c.fpCounter
  return { d with fps, resourceMap }

/-- A file without a readable meta file, or without a path in it, is skipped. -/
def storeEntry (skipDuplicates : Bool) (d : Disk) (id : UInt32) : Option Disk :=
  match d.cache id with
  | none => some d
  | some file =>
    match readMetaPath file.metaFile with
    | none | some none => some d
    | some (some filename) =>
      if skipDuplicates ∧ hasMetaData d.resourceMap (nameToId char filename) then some d
      else storeCachedFile cfg char unset d file filename

/-- A listing of the cache folder, in any order. -/
structure Lists (cache : UInt32 → Option CacheFile) (order : List UInt32) : Prop where
  nodup : order.Nodup
  mem : ∀ id, id ∈ order ↔ (cache id).isSome

/-- Without metadata the program exits before the transaction is committed. -/
def olafDelete (d : Disk) (file : AudioFile V) : Disk × Ending :=
  match file.conversion with
  | .failed => (d, .failed)
  | .unopened => (d, .finished)
  | .converted =>
    let audioId := file.id char
    let (s, _) := feed cfg q .delete FpDbWriter.delete (⟨d.fps, fun _ => none, false⟩, FpDbWriter.new audioId) file.audio.frames
    match deleteMetaData d.resourceMap audioId with
    | none => (d, .exited)
    | some resourceMap => ({ d with fps := (FpDbWriter.destroy s false).fps, resourceMap }, .finished)

def deleteAll (d : Disk) : List (AudioFile V) → Disk
  | [] => d
  | file :: files =>
    match olafDelete cfg q char d file with
    | (d, .finished) => deleteAll d files
    | (d, _) => d

inductive Command (V : Type)
  | cache (audioFiles : List (AudioFile V))
  | storeCached (skipDuplicates : Bool)
  | delete (audioFiles : List (AudioFile V))

def Command.audioFiles : Command V → List (AudioFile V)
  | .cache audioFiles | .delete audioFiles => audioFiles
  | .storeCached _ => []

/-- What a command makes of the disk; `none` for a copy that leaves its array. -/
inductive Ran : Command V → Disk → Option Disk → Prop
  | cache (audioFiles : List (AudioFile V)) (d : Disk) : Ran (.cache audioFiles) d (cacheAll cfg q fmt seconds char unset d audioFiles)
  | storeCached {skipDuplicates : Bool} {d : Disk} {order : List UInt32} (hlists : Lists d.cache order) :
      Ran (.storeCached skipDuplicates) d (order.foldlM (storeEntry cfg char unset skipDuplicates) d)
  | delete (audioFiles : List (AudioFile V)) (d : Disk) : Ran (.delete audioFiles) d (some (deleteAll cfg q char d audioFiles))

inductive Session : List (Command V) → Disk → Option Disk → Prop
  | nil (d : Disk) : Session [] d (some d)
  | fault {command : Command V} {commands : List (Command V)} {d : Disk}
      (hran : Ran cfg q fmt seconds char unset command d none) : Session (command :: commands) d none
  | cons {command : Command V} {commands : List (Command V)} {d d' : Disk} {r : Option Disk}
      (hran : Ran cfg q fmt seconds char unset command d (some d')) (hrest : Session commands d' r) :
      Session (command :: commands) d r

end Definitions

/-! ## Numbers -/

/-- The audios with a cache file, those with an empty one, those that are stored and those that were deleted but for the header. -/
structure Spec where
  cached : Finset UInt32
  unopened : Finset UInt32
  stored : Finset UInt32
  left : Finset UInt32

section Numbers
variable (cfg : Config V) (q : QSort (EventPoint V) EventPoint.timeIndex) (char : UInt8 → UInt32)

def Spec.cacheAll (s : Spec) : List (AudioFile V) → Spec
  | [] => s
  | file :: files =>
    if file.id char ∈ s.cached ∪ s.unopened then Spec.cacheAll s files
    else
      match file.conversion with
      | .failed => s
      | .unopened => Spec.cacheAll { s with unopened := insert (file.id char) s.unopened } files
      | .converted => Spec.cacheAll { s with cached := insert (file.id char) s.cached } files

/-- The pairs that deleting an audio takes out. -/
def deletedPairs (id : UInt32) (audio : Audio V) : List (Nat × Nat) := (extracted cfg q audio.frames).map (FpDbWriter.pair id)

/-- The header goes only when it is the pair of a fingerprint as well. -/
def Spec.deleteOne (s : Spec) (id : UInt32) (audio : Audio V) : Spec where
  cached := s.cached
  unopened := s.unopened
  stored := s.stored.erase id
  left := if (0, id.toNat) ∈ deletedPairs cfg q id audio then s.left.erase id else insert id s.left

def Spec.deleteAll (s : Spec) : List (AudioFile V) → Spec
  | [] => s
  | file :: files =>
    match file.conversion with
    | .failed => s
    | .unopened => Spec.deleteAll s files
    | .converted => if file.id char ∈ s.stored then Spec.deleteAll (s.deleteOne cfg q (file.id char) file.audio) files else s

def Spec.run (s : Spec) : Command V → Spec
  | .cache audioFiles => s.cacheAll char audioFiles
  | .storeCached _ => { s with stored := s.stored ∪ s.cached }
  | .delete audioFiles => s.deleteAll cfg q char audioFiles

def Spec.session (s : Spec) (commands : List (Command V)) : Spec := commands.foldl (Spec.run cfg q char) s

end Numbers

/-! ## What is on the disk -/

section OnDisk
variable (cfg : Config V) (q : QSort (EventPoint V) EventPoint.timeIndex) (fmt : MagnitudeFormat V) (seconds : SecondsFormat ℚ)
  (char : UInt8 → UInt32) (library : UInt32 → Audio V) (name : UInt32 → CStr)

/-- The fingerprints that get to the cache file of an audio. -/
def cachedFps (audio : Audio V) : List (Fingerprint V) := (handed cfg q .cache audio.frames).flatten

/-- A name that its meta file gives back, of an audio whose integers are values of type `int`. -/
structure Known (id : UInt32) : Prop where
  number : nameToId char (name id).bytes = id
  plain : Plain (name id)
  short : (name id).bytes.length < pathSize
  ints : ∀ f ∈ cachedFps cfg q (library id), f.Ints

structure CacheFile.Of (file : CacheFile) (audio : Audio V) (s : CStr) : Prop where
  tdb : file.tdb = written fmt (handed cfg q .cache audio.frames)
  metaFile : ∃ (r : Record ℚ) (duration : ℚ) (total : Nat), r.Says s duration (long total) ∧ file.metaFile = destroy seconds r

/-- What an audio that is stored from the cache has in the table: its cached fingerprints and the header of the file. -/
def cachedPairs (id : UInt32) (audio : Audio V) : List (Nat × Nat) :=
  (0, id.toNat) :: (cachedFps cfg q audio).map (pair id.toUInt64)

/-- The time of the last cached fingerprint, as the unsigned number that it is read as. -/
def lastTime (fps : List (Fingerprint V)) : Nat := (fps.map fun f => (f.timeIndex1 % 2 ^ 64).toNat).getLastD 0

def approximateDuration (audio : Audio V) : ℚ := secondsOf cfg (lastTime (cachedFps cfg q audio))

structure OnDisk (s : Spec) (d : Disk) : Prop where
  known : ∀ id ∈ s.cached, Known cfg q char library name id
  cached : ∀ id ∈ s.cached, ∃ file, d.cache id = some file ∧ file.Of cfg q fmt seconds (library id) (name id)
  unopened : ∀ id ∈ s.unopened, d.cache id = some ⟨[], []⟩
  others : ∀ id, id ∉ s.cached ∪ s.unopened → d.cache id = none
  fps : ∀ e, e ∈ d.fps ↔ (∃ id ∈ s.stored, e ∈ cachedPairs cfg q id (library id)) ∨ ∃ id ∈ s.left, e = (0, id.toNat)
  metaData : ∀ id ∈ s.stored, ∃ r : Record ℚ, d.resourceMap id = some r ∧
    r.Says (name id) (approximateDuration cfg q (library id)) (long (cachedPairs cfg q id (library id)).length)
  unstored : ∀ id, id ∉ s.stored → d.resourceMap id = none

end OnDisk

section Steps
variable {cfg : Config V} {q : QSort (EventPoint V) EventPoint.timeIndex} {fmt : MagnitudeFormat V} {seconds : SecondsFormat ℚ}
  {char : UInt8 → UInt32} {unset : Record ℚ} {library : UInt32 → Audio V} {name : UInt32 → CStr} {s : Spec} {d : Disk}

omit [Sample V] in
/-- The number of a name without a zero in it. -/
theorem nameToId_cstr (t : CStr) : nameToId char t.bytes = identifierId char t.bytes := by
  rw [nameToId, cString, List.takeWhile_eq_self_iff.2 fun c hc => decide_eq_true (t.nonzero c hc)]

/-! ### Caching -/

variable (cfg q fmt seconds unset) in
theorem cacheAudioFile_converted {file : AudioFile V} (hnew : d.cache (file.id char) = none) (hconversion : file.conversion = .converted)
    (hshort : file.identifier.bytes.length < pathSize) :
    ∃ cacheFile, cacheAudioFile cfg q fmt seconds char unset d file =
        some ({ d with cache := Function.update d.cache (file.id char) (some cacheFile) }, .finished) ∧
      cacheFile.Of cfg q fmt seconds file.audio file.identifier := by
  have hrun := process_cached cfg q fmt (show Mode.cache.handsLast = false from rfl) (by decide) file.audio (file.id char) noDb
  obtain ⟨r, hr, hsaid⟩ := processed_returns unset (holds_dupeZ file.identifier) hshort
    (file.audio.totalSamplesRead / cfg.audioSampleRate) (total cfg q file.audio.frames)
  refine ⟨⟨written fmt (handed cfg q .cache file.audio.frames), destroy seconds r⟩, ?_, rfl, r, _, _, hsaid, rfl⟩
  have hmeta : cacheProcessed seconds unset (some (dupeZ file.identifier.bytes)) (file.audio.totalSamplesRead / cfg.audioSampleRate)
      (total cfg q file.audio.frames) = some (destroy seconds r) := by
    rw [cacheProcessed, hr]
    rfl
  rw [cacheAudioFile]
  simp only [hnew, Option.isSome_none, Bool.false_eq_true, ↓reduceIte, hconversion, hrun, Option.bind_eq_bind, Option.bind_some,
    hmeta]
  rfl

/-- A new cache file leaves the other ones and the database alone. -/
theorem OnDisk.cacheNew (h : OnDisk cfg q fmt seconds char library name s d) {id : UInt32} (hnew : id ∉ s.cached ∪ s.unopened)
    {file : CacheFile} (hknown : Known cfg q char library name id) (hfile : file.Of cfg q fmt seconds (library id) (name id)) :
    OnDisk cfg q fmt seconds char library name { s with cached := insert id s.cached }
      { d with cache := Function.update d.cache id (some file) } := by
  have hne : ∀ id' ∈ s.cached ∪ s.unopened, id' ≠ id := by
    rintro id' hid' rfl
    exact hnew hid'
  refine ⟨fun id' hid' => ?_, fun id' hid' => ?_, fun id' hid' => ?_, fun id' hid' => ?_, h.fps, h.metaData, h.unstored⟩
  · rcases Finset.mem_insert.1 hid' with rfl | hid'
    · exact hknown
    · exact h.known id' hid'
  · dsimp only
    rcases Finset.mem_insert.1 hid' with rfl | hid'
    · exact ⟨file, Function.update_self .., hfile⟩
    · rw [Function.update_of_ne (hne id' (Finset.mem_union_left _ hid'))]
      exact h.cached id' hid'
  · dsimp only
    rw [Function.update_of_ne (hne id' (Finset.mem_union_right _ hid'))]
    exact h.unopened id' hid'
  · simp only [Finset.insert_union, Finset.mem_insert, not_or] at hid'
    dsimp only
    rw [Function.update_of_ne hid'.1]
    exact h.others id' hid'.2

theorem OnDisk.unopenedNew (h : OnDisk cfg q fmt seconds char library name s d) {id : UInt32} (hnew : id ∉ s.cached ∪ s.unopened) :
    OnDisk cfg q fmt seconds char library name { s with unopened := insert id s.unopened }
      { d with cache := Function.update d.cache id (some ⟨[], []⟩) } := by
  have hne : ∀ id' ∈ s.cached ∪ s.unopened, id' ≠ id := by
    rintro id' hid' rfl
    exact hnew hid'
  refine ⟨h.known, fun id' hid' => ?_, fun id' hid' => ?_, fun id' hid' => ?_, h.fps, h.metaData, h.unstored⟩
  · dsimp only
    rw [Function.update_of_ne (hne id' (Finset.mem_union_left _ hid'))]
    exact h.cached id' hid'
  · dsimp only
    rcases Finset.mem_insert.1 hid' with rfl | hid'
    · exact Function.update_self ..
    · rw [Function.update_of_ne (hne id' (Finset.mem_union_right _ hid'))]
      exact h.unopened id' hid'
  · simp only [Finset.union_insert, Finset.mem_insert, not_or] at hid'
    dsimp only
    rw [Function.update_of_ne hid'.1]
    exact h.others id' hid'.2

/-- A file of a command: the audio and the name that its number stands for. -/
structure AudioFile.Of (cfg : Config V) (q : QSort (EventPoint V) EventPoint.timeIndex) (char : UInt8 → UInt32)
    (library : UInt32 → Audio V) (name : UInt32 → CStr) (file : AudioFile V) : Prop where
  audio : file.audio = library (file.id char)
  identifier : file.identifier = name (file.id char)
  known : Known cfg q char library name (file.id char)

/-- **The files of a caching run**, up to the first that cannot be converted. -/
theorem cacheAll_spec {files : List (AudioFile V)} (hfiles : ∀ file ∈ files, file.Of cfg q char library name)
    (h : OnDisk cfg q fmt seconds char library name s d) :
    ∃ d', cacheAll cfg q fmt seconds char unset d files = some d' ∧
      OnDisk cfg q fmt seconds char library name (s.cacheAll char files) d' := by
  induction files generalizing s d with
  | nil => exact ⟨d, rfl, h⟩
  | cons file files ih =>
    obtain ⟨hfile, hfiles⟩ := List.forall_mem_cons.1 hfiles
    rw [cacheAll, Spec.cacheAll]
    by_cases hpresent : file.id char ∈ s.cached ∪ s.unopened
    · have hsome : (d.cache (file.id char)).isSome = true := by
        rcases Finset.mem_union.1 hpresent with hid | hid
        · obtain ⟨cacheFile, hcache, _⟩ := h.cached _ hid
          rw [hcache]
          rfl
        · rw [h.unopened _ hid]
          rfl
      rw [if_pos hpresent, cacheAudioFile]
      simp only [hsome, ↓reduceIte]
      exact ih hfiles h
    · have hnone := h.others _ hpresent
      rw [if_neg hpresent]
      cases hconversion : file.conversion with
      | failed =>
        rw [cacheAudioFile]
        simp only [hnone, Option.isSome_none, Bool.false_eq_true, ↓reduceIte, hconversion]
        exact ⟨d, rfl, h⟩
      | unopened =>
        rw [cacheAudioFile]
        simp only [hnone, Option.isSome_none, Bool.false_eq_true, ↓reduceIte, hconversion]
        exact ih hfiles (h.unopenedNew hpresent)
      | converted =>
        obtain ⟨cacheFile, hrun, hof⟩ := cacheAudioFile_converted cfg q fmt seconds unset hnone hconversion
          (by rw [hfile.identifier]; exact hfile.known.short)
        rw [hrun]
        rw [hfile.audio, hfile.identifier] at hof
        exact ih hfiles (h.cacheNew hpresent hfile.known hof)

/-! ### Storing from the cache -/

/-- The loop over a file hands its calls to the store, one after the other. -/
theorem readLines_calls {σ : Type} (store : σ → List (Nat × Nat) → σ) (fuel : Nat) (file : List Char) (sink : σ)
    (cs : List (List (Nat × Nat))) (c : Cache) :
    readLines store fuel file (cs.foldl store sink, c) =
      (readLines calls fuel file (cs, c)).map fun r => (r.1.foldl store sink, r.2) := by
  induction fuel generalizing file cs c with
  | zero => rfl
  | succ fuel ih =>
    rw [readLines, readLines]
    cases CText.fgets maxLineLen file with
    | none => rfl
    | some r =>
      obtain ⟨line, rest⟩ := r
      dsimp only
      split
      · rw [← ih, calls, List.foldl_concat]
      · exact ih rest cs _

theorem readCsvFile_calls {σ : Type} (store : σ → List (Nat × Nat) → σ) (sink : σ) (c : Cache) (file : List Char) :
    readCsvFile store sink c file = (readCsvFile calls [] c file).map fun r => (r.1.foldl store sink, r.2) := by
  rw [readCsvFile, readCsvFile, show sink = ([] : List (List (Nat × Nat))).foldl store sink from rfl, readLines_calls, Option.map_map,
    Option.map_map]
  refine congrArg (Option.map · _) (funext fun r => ?_)
  dsimp only [Function.comp_apply]
  rw [calls, List.foldl_concat]
  rfl

/-- A line that leaves this time behind. -/
structure HasTime (line : List Char) (t : Nat) : Prop where
  short : line.length + 1 < maxLineLen
  plain : ∀ c ∈ line, c ≠ '\n'
  time : ∀ c, (parseCsvLine c (line ++ ['\n'])).1.lastFpT1 = t

theorem hasTime_header : HasTime headerLine 0 := by
  have hline := header_isLine 0
  refine ⟨hline.short, hline.plain, fun c => ?_⟩
  have hfirst : CText.strtok ',' (headerLine ++ ['\n']) = some ("fp_hash".toList, " t1, f1, m1, t2, f2, m2, t3, f3, m3\n".toList) := by
    decide
  have hsecond : CText.strtok ',' " t1, f1, m1, t2, f2, m2, t3, f3, m3\n".toList =
      some (" t1".toList, " f1, m1, t2, f2, m2, t3, f3, m3\n".toList) := by decide
  rw [parseCsvLine, hfirst]
  simp only [parseColumns, hsecond, setColumn, ↓reduceIte, Nat.zero_add, Nat.one_ne_zero]
  decide

omit [Sample V] in
theorem hasTime_row (fmt : MagnitudeFormat V) {f : Fingerprint V} (h : f.Ints) :
    HasTime (FpFileWriter.line fmt f) (f.timeIndex1 % 2 ^ 64).toNat := by
  have hline := row_isLine 0 fmt h
  refine ⟨hline.short, hline.plain, fun c => ?_⟩
  have hcomma : ∀ c ∈ Nat.toDigits 10 f.hash, c ≠ ',' := fun c hc => (CText.digit_plain (CText.isDigit_of_mem hc)).2.2.2.1
  have hcomma' : ∀ c ∈ ' ' :: CText.formatInt f.timeIndex1, c ≠ ',' := by
    intro c hc
    rcases List.mem_cons.1 hc with rfl | hc
    · decide
    · exact (CText.formatInt_plain hc).1
  have hfirst := CText.strtok_token (' ' :: CText.formatInt f.timeIndex1 ++ ',' :: (FpFileWriter.tail fmt f ++ ['\n']))
    Nat.toDigits_ne_nil hcomma
  have hsecond := CText.strtok_token (FpFileWriter.tail fmt f ++ ['\n']) (List.cons_ne_nil _ _) hcomma'
  have htext : FpFileWriter.line fmt f ++ ['\n'] = Nat.toDigits 10 f.hash ++
      ',' :: (' ' :: CText.formatInt f.timeIndex1 ++ ',' :: (FpFileWriter.tail fmt f ++ ['\n'])) := by
    simp [FpFileWriter.line]
  have ht := h.t1
  have hread : CText.strtoull (' ' :: CText.formatInt f.timeIndex1) = (f.timeIndex1 % 2 ^ 64).toNat :=
    CText.strtoull_format [' '] (by simp [CText.isSpace]) (by omega)
  rw [htext, parseCsvLine, hfirst]
  simp only [parseColumns, hsecond, setColumn, ↓reduceIte, Nat.zero_add, Nat.one_ne_zero, hread]

/-- The time that is left behind is that of the last line. -/
theorem readLines_time {σ : Type} (store : σ → List (Nat × Nat) → σ) {ls : List (List Char × Nat)} (hls : ∀ l ∈ ls, HasTime l.1 l.2)
    {fuel : Nat} {sink : σ} {c : Cache} {r : σ × Cache}
    (h : readLines store fuel (ls.flatMap fun l => l.1 ++ ['\n']) (sink, c) = some r) :
    r.2.lastFpT1 = (ls.map Prod.snd).getLastD c.lastFpT1 := by
  induction ls generalizing fuel sink c with
  | nil =>
    cases fuel with
    | zero => cases h
    | succ fuel =>
      cases h
      rfl
  | cons l ls ih =>
    obtain ⟨hl, hls⟩ := List.forall_mem_cons.1 hls
    cases fuel with
    | zero => cases h
    | succ fuel =>
      rw [List.flatMap_cons, List.append_assoc, List.singleton_append, readLines, CText.fgets_line hl.short hl.plain] at h
      dsimp only at h
      rw [List.map_cons, List.getLastD_cons, ← hl.time c]
      split at h
      · -- the array is full: the store is called, and the time stays
        have htime := ih hls h
        exact htime
      · exact ih hls h

omit [Sample V] in
theorem readCsvFile_time (fmt : MagnitudeFormat V) {batches : List (List (Fingerprint V))} (h : ∀ f ∈ batches.flatten, f.Ints)
    {id : UInt64} {cs : List (List (Nat × Nat))} {c : Cache}
    (hread : readCsvFile calls [] (FpDbWriterCache.new id) (written fmt batches) = some (cs, c)) :
    c.lastFpT1 = lastTime batches.flatten := by
  let ls : List (List Char × Nat) :=
    (headerLine, 0) :: batches.flatten.map fun f => (FpFileWriter.line fmt f, (f.timeIndex1 % 2 ^ 64).toNat)
  have hls : ∀ l ∈ ls, HasTime l.1 l.2 := by
    refine List.forall_mem_cons.2 ⟨hasTime_header, fun l hl => ?_⟩
    obtain ⟨f, hf, rfl⟩ := List.mem_map.1 hl
    exact hasTime_row fmt (h f hf)
  have hlines : written fmt batches = ls.flatMap fun l => l.1 ++ ['\n'] := by
    rw [written_lines fmt id, writtenLines, List.flatMap_cons, List.flatMap_map, List.flatMap_cons, List.flatMap_map]
  rw [readCsvFile, hlines] at hread
  obtain ⟨r, hr, heq⟩ := Option.map_eq_some_iff.1 hread
  have htime := readLines_time calls hls hr
  have hc : c.lastFpT1 = r.2.lastFpT1 := by
    rw [← (Prod.mk.inj heq).2]
  rw [hc, htime, List.map_cons, List.getLastD_cons, List.map_map, lastTime]
  rfl

theorem mem_storePairs {e : Nat × Nat} (cs : List (List (Nat × Nat))) (fps : DupTable Nat Nat) :
    e ∈ cs.foldl storePairs fps ↔ e ∈ cs.flatten ∨ e ∈ fps := by
  induction cs generalizing fps with
  | nil => simp
  | cons ps cs ih =>
    rw [List.foldl_cons, ih, storePairs, Db.mem_store, List.flatten_cons, List.mem_append]
    tauto

/-- A cache file is stored under the name in its meta file. -/
theorem storeCachedFile_of {file : CacheFile} {id : UInt32} (hknown : Known cfg q char library name id)
    (hfile : file.Of cfg q fmt seconds (library id) (name id)) (d : Disk) :
    ∃ d', storeCachedFile cfg char unset d file (name id).bytes = some d' ∧ d'.cache = d.cache ∧
      (∀ e, e ∈ d'.fps ↔ e ∈ cachedPairs cfg q id (library id) ∨ e ∈ d.fps) ∧
      ∃ r : Record ℚ, d'.resourceMap = Function.update d.resourceMap id (some r) ∧
        r.Says (name id) (approximateDuration cfg q (library id)) (long (cachedPairs cfg q id (library id)).length) := by
  have hid : identifierId char (name id).bytes = id := by rw [← nameToId_cstr, hknown.number]
  obtain ⟨cs, c, hread, hpairs, hcounter⟩ := read_written fmt id.toUInt64 hknown.ints
  have hall : readCsvFile storePairs d.fps (FpDbWriterCache.new id.toUInt64) file.tdb = some (cs.foldl storePairs d.fps, c) := by
    rw [readCsvFile_calls, hfile.tdb, hread]
    rfl
  have hduration : secondsOf cfg c.lastFpT1 = approximateDuration cfg q (library id) := by
    rw [approximateDuration, readCsvFile_time fmt hknown.ints hread]
    rfl
  obtain ⟨t, hstore, r, ht, hsaid⟩ := @cacheStore_returns _ _ unset unset d.resourceMap (approximateDuration cfg q (library id))
    c.fpCounter id.toUInt64 hknown.short
  rw [UInt32.toUInt32_toUInt64] at ht
  refine ⟨{ d with fps := cs.foldl storePairs d.fps, resourceMap := t }, ?_, rfl, fun e => ?_, r, ht, ?_⟩
  · rw [storeCachedFile, hid]
    simp only [hall, hduration, hstore, Option.bind_eq_bind, Option.bind_some]
    rfl
  · rw [mem_storePairs, hpairs]
    rfl
  · rw [cachedPairs, List.length_cons, List.length_map]
    rw [hcounter] at hsaid
    exact hsaid

theorem OnDisk.storeOne (h : OnDisk cfg q fmt seconds char library name s d) {id : UInt32} {d' : Disk} (hcache : d'.cache = d.cache)
    (hfps : ∀ e, e ∈ d'.fps ↔ e ∈ cachedPairs cfg q id (library id) ∨ e ∈ d.fps)
    {r : Record ℚ} (hmap : d'.resourceMap = Function.update d.resourceMap id (some r))
    (hr : r.Says (name id) (approximateDuration cfg q (library id)) (long (cachedPairs cfg q id (library id)).length)) :
    OnDisk cfg q fmt seconds char library name { s with stored := insert id s.stored } d' := by
  refine ⟨h.known, hcache ▸ h.cached, hcache ▸ h.unopened, hcache ▸ h.others, fun e => ?_, fun id' hid' => ?_, fun id' hid' => ?_⟩
  · rw [hfps, h.fps]
    simp only [Finset.mem_insert, or_and_right, exists_or, exists_eq_left, or_assoc]
  · rw [hmap]
    by_cases heq : id' = id
    · subst heq
      exact ⟨r, Function.update_self .., hr⟩
    · rw [Function.update_of_ne heq]
      exact h.metaData id' ((Finset.mem_insert.1 hid').resolve_left heq)
  · rw [Finset.mem_insert, not_or] at hid'
    rw [hmap, Function.update_of_ne hid'.1]
    exact h.unstored id' hid'.2

variable (unset) in
/-- **An entry of the cache folder**: a file with fingerprints is stored, whether duplicates are skipped or not. -/
theorem storeEntry_spec (skipDuplicates : Bool) (id : UInt32) (h : OnDisk cfg q fmt seconds char library name s d) :
    ∃ d', storeEntry cfg char unset skipDuplicates d id = some d' ∧ OnDisk cfg q fmt seconds char library name
      (if id ∈ s.cached then { s with stored := insert id s.stored } else s) d' := by
  by_cases hcached : id ∈ s.cached
  · rw [if_pos hcached]
    have hknown := h.known id hcached
    obtain ⟨file, hfile, hof⟩ := h.cached id hcached
    obtain ⟨r, duration, total, hsaid, hmeta⟩ := hof.metaFile
    obtain ⟨hne, heq⟩ := plain_iff.1 hknown.plain
    have hpath : readMetaPath file.metaFile = some (some (name id).bytes) := by
      rw [hmeta, readMetaPath_destroy seconds hsaid, heq, if_neg hne]
    rw [storeEntry, hfile]
    dsimp only
    rw [hpath]
    dsimp only
    split
    · next hskip =>
      -- it has metadata, so it has been stored
      have hstored : id ∈ s.stored := by
        by_contra hno
        have hhas := hskip.2
        rw [hknown.number, hasMetaData, h.unstored id hno] at hhas
        cases hhas
      refine ⟨d, rfl, ?_⟩
      rw [Finset.insert_eq_of_mem hstored]
      exact h
    · obtain ⟨d', hstore, hcache, hfps, r, hmap, hr⟩ := storeCachedFile_of hknown hof d
      exact ⟨d', hstore, h.storeOne hcache hfps hmap hr⟩
  · rw [if_neg hcached]
    refine ⟨d, ?_, h⟩
    by_cases hunopened : id ∈ s.unopened
    · have hempty : readMetaPath [] = some none := by decide
      rw [storeEntry, h.unopened id hunopened]
      dsimp only
      rw [hempty]
    · rw [storeEntry, h.others id (by rw [Finset.mem_union, not_or]; exact ⟨hcached, hunopened⟩)]

variable (unset) in
theorem storeEntries_spec (skipDuplicates : Bool) (order : List UInt32) (h : OnDisk cfg q fmt seconds char library name s d) :
    ∃ d', order.foldlM (storeEntry cfg char unset skipDuplicates) d = some d' ∧ OnDisk cfg q fmt seconds char library name
      { s with stored := s.stored ∪ order.toFinset ∩ s.cached } d' := by
  induction order generalizing s d with
  | nil => exact ⟨d, rfl, by simpa using h⟩
  | cons id order ih =>
    obtain ⟨d1, hstep, h1⟩ := storeEntry_spec unset skipDuplicates id h
    obtain ⟨d', hrest, h'⟩ := ih h1
    refine ⟨d', ?_, ?_⟩
    · rw [List.foldlM_cons, hstep]
      exact hrest
    · convert h' using 1
      split
      · next hid =>
        simp only [Spec.mk.injEq, true_and, and_true]
        ext x
        simp only [Finset.mem_union, Finset.mem_inter, List.mem_toFinset, List.mem_cons, Finset.mem_insert]
        by_cases hx : x = id <;> simp [hx, hid]
      · next hid =>
        simp only [Spec.mk.injEq, true_and, and_true]
        ext x
        simp only [Finset.mem_union, Finset.mem_inter, List.mem_toFinset, List.mem_cons]
        by_cases hx : x = id <;> simp [hx, hid]

/-! ### Deleting -/

omit [Sample V] in
/-- The pair of a cache file is that of the store command. -/
theorem pair_toUInt64 (id : UInt32) (f : Fingerprint V) : pair id.toUInt64 f = FpDbWriter.pair id f :=
  Prod.ext rfl (FpDbWriter.pair_value id f).symm

/-- What is cached is extracted when the audio is deleted. -/
theorem cachedFps_subset (cfg : Config V) (q : QSort (EventPoint V) EventPoint.timeIndex) (audio : Audio V) :
    cachedFps cfg q audio ⊆ extracted cfg q audio.frames := by
  rw [cachedFps, handed_written cfg q rfl, extracted, handed_inserted cfg q rfl, Stream.delivered]
  exact List.subset_append_left _ _

theorem cachedPairs_id {id : UInt32} {audio : Audio V} {e : Nat × Nat} (h : e ∈ cachedPairs cfg q id audio) :
    e.2 % 2 ^ 32 = id.toNat := by
  rcases List.mem_cons.1 h with rfl | h
  · exact Nat.mod_eq_of_lt id.toNat_lt
  · obtain ⟨f, _, rfl⟩ := List.mem_map.1 h
    rw [pair_toUInt64, FpDbWriter.pair_id]

theorem deletedPairs_id {id : UInt32} {audio : Audio V} {e : Nat × Nat} (h : e ∈ deletedPairs cfg q id audio) :
    e.2 % 2 ^ 32 = id.toNat := by
  obtain ⟨f, _, rfl⟩ := List.mem_map.1 h
  exact FpDbWriter.pair_id id f

/-- Of the pairs of a cache file only the header may stay. -/
theorem cachedPairs_deleted {id : UInt32} {audio : Audio V} {e : Nat × Nat} (h : e ∈ cachedPairs cfg q id audio) :
    e ∉ deletedPairs cfg q id audio ↔ e = (0, id.toNat) ∧ (0, id.toNat) ∉ deletedPairs cfg q id audio := by
  rcases List.mem_cons.1 h with rfl | h
  · simp
  · have hmem : e ∈ deletedPairs cfg q id audio := by
      obtain ⟨f, hf, rfl⟩ := List.mem_map.1 h
      rw [pair_toUInt64]
      exact List.mem_map_of_mem (cachedFps_subset cfg q audio hf)
    refine iff_of_false (not_not_intro hmem) ?_
    rintro ⟨rfl, hno⟩
    exact hno hmem

variable (cfg q) in
def deletedFrom (d : Disk) (id : UInt32) (audio : Audio V) : Disk where
  cache := d.cache
  fps := (Db.delete ⟨d.fps, fun _ => none, false⟩ (deletedPairs cfg q id audio)).fps
  resourceMap := Function.update d.resourceMap id none

theorem olafDelete_converted (hmax : cfg.maxFingerprints = (Config.default V).maxFingerprints) (d : Disk) {file : AudioFile V}
    (hconversion : file.conversion = .converted) : olafDelete cfg q char d file =
      if d.resourceMap (file.id char) = none then (d, .exited)
      else (deletedFrom cfg q d (file.id char) file.audio, .finished) := by
  have hsame : handed cfg q .delete file.audio.frames = handed cfg q .store file.audio.frames := rfl
  rw [olafDelete, hconversion]
  simp only [feed_handed, (FpDbWriter.destroy_eq _ _ (handed_room hmax .delete file.audio.frames)).2, deleteMetaData,
    Option.isNone_iff_eq_none]
  by_cases hnone : d.resourceMap (file.id char) = none
  · simp only [if_pos hnone]
  · simp only [if_neg hnone, hsame]
    rfl

theorem OnDisk.deleteOne (h : OnDisk cfg q fmt seconds char library name s d) {id : UInt32} (hstored : id ∈ s.stored) :
    OnDisk cfg q fmt seconds char library name (s.deleteOne cfg q id (library id)) (deletedFrom cfg q d id (library id)) := by
  refine ⟨h.known, h.cached, h.unopened, h.others, fun e => ?_, fun id' hid' => ?_, fun id' hid' => ?_⟩
  · have hother : ∀ id', id' ≠ id → e.2 % 2 ^ 32 = id'.toNat → e ∉ deletedPairs cfg q id (library id) :=
      fun id' hne he hmem => hne (UInt32.toNat_inj.1 (he.symm.trans (deletedPairs_id hmem)))
    have hheader : ∀ id' : UInt32, (0, id'.toNat).2 % 2 ^ 32 = id'.toNat := fun id' => Nat.mod_eq_of_lt id'.toNat_lt
    rw [deletedFrom, Db.mem_delete, h.fps, Spec.deleteOne]
    dsimp only
    constructor
    · rintro ⟨⟨id', hid', he⟩ | ⟨id', hid', rfl⟩, hno⟩
      · by_cases heq : id' = id
        · subst heq
          obtain ⟨rfl, hkept⟩ := (cachedPairs_deleted he).1 hno
          rw [if_neg hkept]
          exact .inr ⟨id', Finset.mem_insert_self .., rfl⟩
        · exact .inl ⟨id', Finset.mem_erase.2 ⟨heq, hid'⟩, he⟩
      · refine .inr ⟨id', ?_, rfl⟩
        split
        · next hgone =>
          refine Finset.mem_erase.2 ⟨?_, hid'⟩
          rintro rfl
          exact hno hgone
        · exact Finset.mem_insert_of_mem hid'
    · rintro (⟨id', hid', he⟩ | ⟨id', hid', rfl⟩)
      · obtain ⟨hne, hid'⟩ := Finset.mem_erase.1 hid'
        exact ⟨.inl ⟨id', hid', he⟩, hother id' hne (cachedPairs_id he)⟩
      · split at hid'
        · obtain ⟨hne, hid'⟩ := Finset.mem_erase.1 hid'
          exact ⟨.inr ⟨id', hid', rfl⟩, hother id' hne (hheader id')⟩
        · next hkept =>
          by_cases heq : id' = id
          · subst heq
            exact ⟨.inl ⟨id', hstored, List.mem_cons_self⟩, hkept⟩
          · exact ⟨.inr ⟨id', (Finset.mem_insert.1 hid').resolve_left heq, rfl⟩, hother id' heq (hheader id')⟩
  · obtain ⟨hne, hid'⟩ := Finset.mem_erase.1 hid'
    rw [deletedFrom]
    dsimp only
    rw [Function.update_of_ne hne]
    exact h.metaData id' hid'
  · rw [deletedFrom]
    dsimp only
    by_cases heq : id' = id
    · rw [heq, Function.update_self]
    · rw [Function.update_of_ne heq]
      exact h.unstored id' fun hmem => hid' (Finset.mem_erase.2 ⟨heq, hmem⟩)

/-- **The files of a deleting run**, up to the first that cannot be converted or is not stored. -/
theorem deleteAll_spec (hmax : cfg.maxFingerprints = (Config.default V).maxFingerprints) {files : List (AudioFile V)}
    (hfiles : ∀ file ∈ files, file.Of cfg q char library name) (h : OnDisk cfg q fmt seconds char library name s d) :
    OnDisk cfg q fmt seconds char library name (s.deleteAll cfg q char files) (deleteAll cfg q char d files) := by
  induction files generalizing s d with
  | nil => exact h
  | cons file files ih =>
    obtain ⟨hfile, hfiles⟩ := List.forall_mem_cons.1 hfiles
    rw [deleteAll, Spec.deleteAll]
    cases hconversion : file.conversion with
    | failed =>
      rw [olafDelete, hconversion]
      exact h
    | unopened =>
      rw [olafDelete, hconversion]
      exact ih hfiles h
    | converted =>
      rw [olafDelete_converted hmax d hconversion]
      by_cases hstored : file.id char ∈ s.stored
      · obtain ⟨r, hr, _⟩ := h.metaData _ hstored
        rw [hr, if_neg (Option.some_ne_none r), if_pos hstored, hfile.audio]
        exact ih hfiles (h.deleteOne hstored)
      · rw [if_pos (h.unstored _ hstored), if_neg hstored]
        exact h

/-- What a command does: no copy leaves its array. -/
theorem ran_spec (hmax : cfg.maxFingerprints = (Config.default V).maxFingerprints) {command : Command V}
    (hfiles : ∀ file ∈ command.audioFiles, file.Of cfg q char library name)
    (h : OnDisk cfg q fmt seconds char library name s d) {r : Option Disk} (hran : Ran cfg q fmt seconds char unset command d r) :
    ∃ d', r = some d' ∧ OnDisk cfg q fmt seconds char library name (s.run cfg q char command) d' := by
  cases hran with
  | cache audioFiles => exact cacheAll_spec hfiles h
  | @storeCached skipDuplicates _ order hlists =>
    obtain ⟨d', hrun, h'⟩ := storeEntries_spec unset skipDuplicates order h
    refine ⟨d', hrun, ?_⟩
    have hlisted : order.toFinset ∩ s.cached = s.cached := by
      refine Finset.inter_eq_right.2 fun id hid => List.mem_toFinset.2 ((hlists.mem id).2 ?_)
      obtain ⟨file, hfile, _⟩ := h.cached id hid
      rw [hfile]
      rfl
    rw [hlisted] at h'
    exact h'
  | delete audioFiles => exact ⟨_, rfl, deleteAll_spec hmax hfiles h⟩

theorem session_spec (hmax : cfg.maxFingerprints = (Config.default V).maxFingerprints) {commands : List (Command V)}
    (hfiles : ∀ command ∈ commands, ∀ file ∈ command.audioFiles, file.Of cfg q char library name)
    (h : OnDisk cfg q fmt seconds char library name s d) {r : Option Disk}
    (hsession : Session cfg q fmt seconds char unset commands d r) :
    ∃ d', r = some d' ∧ OnDisk cfg q fmt seconds char library name (s.session cfg q char commands) d' := by
  induction hsession generalizing s with
  | nil d => exact ⟨d, rfl, h⟩
  | fault hran =>
    obtain ⟨d', hd', _⟩ := ran_spec hmax (hfiles _ List.mem_cons_self) h hran
    cases hd'
  | cons hran _ ih =>
    obtain ⟨d', hd', h'⟩ := ran_spec hmax (hfiles _ List.mem_cons_self) h hran
    cases hd'
    exact ih (fun command hc => hfiles command (List.mem_cons_of_mem _ hc)) h'

end Steps

/-! ## Runs of the program -/

section Sessions
variable {cfg : Config V} {q : QSort (EventPoint V) EventPoint.timeIndex} {fmt : MagnitudeFormat V} {seconds : SecondsFormat ℚ}
  {char : UInt8 → UInt32} {unset : Record ℚ} {library : UInt32 → Audio V} {name : UInt32 → CStr}

end Sessions

/-! ## A file that leaves its header behind -/

/-- A duration in seconds, by its milliseconds. -/
def thousandths : SecondsFormat ℚ := ⟨fun v => millisecondsText (UInt32.ofNat (v * 1000).floor.toNat), fun _ => millisecondsText_length _⟩

end Olaf.CachedStore
