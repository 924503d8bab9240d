import Mathlib.Data.Finset.Basic
import Mathlib.Data.Finset.Lattice.Lemmas
import Mathlib.Data.Finset.Dedup
import Olaf.ThreadCount
/-!
# The commands that change the database (`olaf_cli_cmd_store.zig`, `olaf_cli_cmd_delete.zig`)

| here | there |
| --- | --- |
| `AudioFile`  | `AudioFileWithId`: its raw audio, its identifier as a number and what becomes of it (`Fate`) |
| `olafStore`, `olafDelete` | `olaf_store` (`olaf_cli_bridge.zig:79`) and `olaf_delete` (`olaf_cli_bridge.c:437`), each a transaction of its own |
| `processAudioFile` | `processAudioFile` (`olaf_cli_threading.zig:61`) with the actions `Store` and `Delete` |
| `processAll` | the loop of `executeParallel` (`:126`) on one thread, and the one of `execute` in `olaf_cli_cmd_delete.zig` (`:39`) |
| `Command`, `Ran` | a run of the program; for more threads it is the pool of `ThreadCount`, which goes on with the other files when one fails |

Deleting an audio that has no metadata ends the program in `e` (`olaf_db.c:68`), before its transaction is committed and before
the files behind it are looked at. An error of LMDB other than that is no step, and the database exists.

A catalogue is a set of identifiers. `session_catalog` says that the folder is the one of a catalogue after any runs, and
which; `session_exact` says what is in it when an audio changes between two runs.
-/

namespace Olaf.Commands
open StreamProcessor ParallelStore Sorting FpDbWriter

variable {V : Type} [Sample V]

structure AudioFile (V : Type) where
  audio : Audio V
  audioIdentifier : UInt32
  fate : Fate

/-- How a run ends: with `return`, with an error, or in `exit`. -/
inductive Ending
  | finished
  | failed
  | exited
deriving DecidableEq

inductive ProcessAction
  | store
  | delete

section Definitions
variable (cfg : Config V) (q : QSort (EventPoint V) EventPoint.timeIndex) (fmt : MagnitudeFormat V)

/-- Without raw audio the transaction is empty; the summary comes after it. -/
def olafStore (f : Folder) (file : AudioFile V) : Folder × Ending :=
  if file.fate = .unopened then (txnCommit f.txnBegin, .finished)
  else
    match process cfg q fmt .store file.audio file.audioIdentifier f.txnBegin with
    | some outcome => (txnCommit outcome.db, if file.fate = .unreported then .failed else .finished)
    | none => (f, .exited)

def olafDelete (f : Folder) (file : AudioFile V) : Folder × Ending :=
  if file.fate = .unopened then (txnCommit f.txnBegin, .finished)
  else
    match process cfg q fmt .delete file.audio file.audioIdentifier f.txnBegin with
    | some outcome => (txnCommit outcome.db, .finished)
    | none => (f, .exited)

def processAudioFile (action : ProcessAction) (f : Folder) (file : AudioFile V) : Folder × Ending :=
  if file.fate = .failed then (f, .failed)
  else
    match action with
    | .store => olafStore cfg q fmt f file
    | .delete => olafDelete cfg q fmt f file

/-- One file after the other, up to the first that fails or ends the program. -/
def processAll (action : ProcessAction) (f : Folder) : List (AudioFile V) → Folder × Ending
  | [] => (f, .finished)
  | file :: files =>
    match processAudioFile cfg q fmt action f file with
    | (f, .finished) => processAll action f files
    | r => r

inductive Command (V : Type)
  | store (numThreads : Nat) (audioFiles : List (AudioFile V))
  | delete (audioFiles : List (AudioFile V))

def Command.audioFiles : Command V → List (AudioFile V)
  | .store _ files | .delete files => files

/-- It runs in a pool of threads. -/
def Command.pooled : Command V → Bool
  | .store numThreads files => 1 < min numThreads files.length
  | .delete _ => false

/-- The file as the pool has it. -/
def AudioFile.file (file : AudioFile V) : File := ⟨Task.ofAudio cfg q file.audio file.audioIdentifier, file.fate⟩

/-- No file makes an error. -/
def pooledEnding (files : List (AudioFile V)) : Ending := if files.any fun file => file.fate.errs then .failed else .finished

/-- What a run makes of the folder. -/
inductive Ran : Command V → Folder → Folder × Ending → Prop
  | storeAlone {numThreads : Nat} {files : List (AudioFile V)} (f : Folder) (halone : min numThreads files.length ≤ 1) :
      Ran (.store numThreads files) f (processAll cfg q fmt .store f files)
  | storeTogether {numThreads : Nat} {files : List (AudioFile V)} {f f' : Folder} (hpool : 1 < min numThreads files.length)
      (hparallel : InParallel (files.map (AudioFile.file cfg q)) f f') :
      Ran (.store numThreads files) f (f', pooledEnding files)
  | delete {files : List (AudioFile V)} (f : Folder) : Ran (.delete files) f (processAll cfg q fmt .delete f files)

/-- The runs one after the other, with how each of them ends. -/
inductive Session : List (Command V) → Folder → Folder → List Ending → Prop
  | nil (f : Folder) : Session [] f f []
  | cons {command : Command V} {commands : List (Command V)} {f f' f'' : Folder} {ending : Ending} {endings : List Ending}
      (hran : Ran cfg q fmt command f (f', ending)) (hrest : Session commands f' f'' endings) :
      Session (command :: commands) f f'' (ending :: endings)

end Definitions

/-! ## A catalogue -/

/-- A file of a catalogue. -/
def Spec.one (action : ProcessAction) (ids : Finset UInt32) (file : AudioFile V) : Finset UInt32 × Ending :=
  match file.fate, action with
  | .failed, _ => (ids, .failed)
  | .unopened, _ => (ids, .finished)
  | .stored, .store => (insert file.audioIdentifier ids, .finished)
  | .unreported, .store => (insert file.audioIdentifier ids, .failed)
  | _, .delete => if file.audioIdentifier ∈ ids then (ids.erase file.audioIdentifier, .finished) else (ids, .exited)

def Spec.all (action : ProcessAction) (ids : Finset UInt32) : List (AudioFile V) → Finset UInt32 × Ending
  | [] => (ids, .finished)
  | file :: files =>
    match Spec.one action ids file with
    | (ids, .finished) => Spec.all action ids files
    | r => r

/-- The identifiers of the files that get stored. -/
def storedIds (files : List (AudioFile V)) : Finset UInt32 :=
  ((files.filter fun file => file.fate.stores).map AudioFile.audioIdentifier).toFinset

def Spec.run (ids : Finset UInt32) : Command V → Finset UInt32 × Ending
  | .store numThreads files =>
    if min numThreads files.length ≤ 1 then Spec.all .store ids files else (ids ∪ storedIds files, pooledEnding files)
  | .delete files => Spec.all .delete ids files

def Spec.session (ids : Finset UInt32) : List (Command V) → Finset UInt32 × List Ending
  | [] => (ids, [])
  | command :: commands =>
    let (ids, ending) := Spec.run ids command
    let (ids, endings) := Spec.session ids commands
    (ids, ending :: endings)

/-- The folder has the audio of `ids`, and nothing else. -/
structure Catalog (cfg : Config V) (q : QSort (EventPoint V) EventPoint.timeIndex) (library : UInt32 → Audio V)
    (ids : Finset UInt32) (f : Folder) : Prop where
  fps : ∀ e, e ∈ f.fps ↔ ∃ id ∈ ids, e ∈ (extracted cfg q (library id).frames).map (pair id)
  metaData : ∀ id, f.resourceMap id = if id ∈ ids then some (StreamProcessor.metaData cfg q (library id)) else none

/-! ## One file -/

section One
variable {cfg : Config V} {q : QSort (EventPoint V) EventPoint.timeIndex} {fmt : MagnitudeFormat V} {f : Folder}
  {file : AudioFile V} {library : UInt32 → Audio V} {ids : Finset UInt32}

theorem olafStore_eq (hmax : cfg.maxFingerprints = (Config.default V).maxFingerprints) (f : Folder) (file : AudioFile V) :
    olafStore cfg q fmt f file =
      if file.fate = .unopened then (f, .finished)
      else ((Task.ofAudio cfg q file.audio file.audioIdentifier).storedIn f,
        if file.fate = .unreported then .failed else .finished) := by
  rw [olafStore]
  split
  · rfl
  · obtain ⟨outcome, hrun, hdb⟩ := Option.map_eq_some_iff.1
      (show (process cfg q fmt .store file.audio file.audioIdentifier f.txnBegin).map Outcome.db = some _ from
        process_store hmax file.audio file.audioIdentifier f.txnBegin)
    rw [hrun]
    dsimp only
    rw [hdb]
    rfl

/-- The folder without the pairs of an audio and its metadata. -/
def deletedIn (cfg : Config V) (q : QSort (EventPoint V) EventPoint.timeIndex) (file : AudioFile V) (f : Folder) : Folder where
  fps := (f.txnBegin.delete ((extracted cfg q file.audio.frames).map (pair file.audioIdentifier))).fps
  resourceMap := Function.update f.resourceMap file.audioIdentifier none

theorem olafDelete_eq (hmax : cfg.maxFingerprints = (Config.default V).maxFingerprints) (f : Folder) (file : AudioFile V) :
    olafDelete cfg q fmt f file =
      if file.fate = .unopened then (f, .finished)
      else if f.resourceMap file.audioIdentifier = none then (f, .exited)
      else (deletedIn cfg q file f, .finished) := by
  rw [olafDelete]
  split
  · rfl
  · have hrun : (process cfg q fmt .delete file.audio file.audioIdentifier f.txnBegin).map Outcome.db = _ :=
      process_delete hmax file.audio file.audioIdentifier f.txnBegin
    have hmap : f.txnBegin.resourceMap = f.resourceMap := rfl
    rw [Db.deleteMetaData, (Db.delete_rest _ _).1, hmap] at hrun
    by_cases hnone : f.resourceMap file.audioIdentifier = none
    · rw [if_pos hnone] at hrun ⊢
      rw [Option.map_eq_none_iff.1 hrun]
    · rw [if_neg hnone] at hrun ⊢
      obtain ⟨outcome, hsome, hdb⟩ := Option.map_eq_some_iff.1 hrun
      rw [hsome]
      dsimp only
      rw [hdb]
      rfl

/-- A file that is stored. -/
theorem processAudioFile_store (hmax : cfg.maxFingerprints = (Config.default V).maxFingerprints) (f : Folder) (file : AudioFile V) :
    processAudioFile cfg q fmt .store f file =
      (if file.fate.stores then (Task.ofAudio cfg q file.audio file.audioIdentifier).storedIn f else f,
        if file.fate.errs then .failed else .finished) := by
  simp only [processAudioFile, olafStore_eq hmax]
  cases hfate : file.fate <;> rfl

theorem processAudioFile_delete (hmax : cfg.maxFingerprints = (Config.default V).maxFingerprints) (f : Folder)
    (file : AudioFile V) :
    processAudioFile cfg q fmt .delete f file =
      if file.fate.stores then
        if f.resourceMap file.audioIdentifier = none then (f, .exited) else (deletedIn cfg q file f, .finished)
      else (f, if file.fate = .failed then .failed else .finished) := by
  simp only [processAudioFile, olafDelete_eq hmax]
  cases hfate : file.fate <;> rfl

omit [Sample V] in
/-- The pairs of two audios with different identifiers are different. -/
theorem pair_ne {id id' : UInt32} (hne : id ≠ id') {fps fps' : List (Fingerprint V)} {e : Nat × Nat} (he : e ∈ fps.map (pair id)) :
    e ∉ fps'.map (pair id') := by
  intro he'
  obtain ⟨x, _, rfl⟩ := List.mem_map.1 he
  obtain ⟨x', _, heq⟩ := List.mem_map.1 he'
  refine hne (UInt32.toNat_inj.1 ?_)
  rw [← pair_id id x, ← heq, pair_id]

theorem Catalog.stored (h : Catalog cfg q library ids f) (hfile : file.audio = library file.audioIdentifier) :
    Catalog cfg q library (insert file.audioIdentifier ids) ((Task.ofAudio cfg q file.audio file.audioIdentifier).storedIn f) := by
  refine ⟨fun e => ?_, fun id => ?_⟩
  · rw [mem_storedIn, h.fps, Task.ofAudio, hfile]
    simp only [Finset.mem_insert, or_and_right, exists_or, exists_eq_left]
  · rw [storedIn_resourceMap, Task.ofAudio]
    dsimp only
    by_cases hid : id = file.audioIdentifier
    · rw [hid, Function.update_self, if_pos (Finset.mem_insert_self ..), hfile]
    · rw [Function.update_of_ne hid, h.metaData]
      simp only [Finset.mem_insert, hid, false_or]

theorem Catalog.deleted (h : Catalog cfg q library ids f) (hfile : file.audio = library file.audioIdentifier) :
    Catalog cfg q library (ids.erase file.audioIdentifier) (deletedIn cfg q file f) := by
  refine ⟨fun e => ?_, fun id => ?_⟩
  · rw [deletedIn]
    dsimp only
    rw [Db.mem_delete, Folder.txnBegin, h.fps, hfile]
    simp only [Finset.mem_erase]
    constructor
    · rintro ⟨⟨id, hid, he⟩, hne⟩
      refine ⟨id, ⟨?_, hid⟩, he⟩
      rintro rfl
      exact hne he
    · rintro ⟨id, ⟨hne, hid⟩, he⟩
      exact ⟨⟨id, hid, he⟩, pair_ne hne he⟩
  · rw [deletedIn]
    dsimp only
    by_cases hid : id = file.audioIdentifier
    · rw [hid, Function.update_self, if_neg (by simp)]
    · rw [Function.update_of_ne hid, h.metaData]
      simp only [Finset.mem_erase, ne_eq, hid, not_false_eq_true, true_and]

variable (fmt) in
/-- **A file**, in the folder and in the catalogue. -/
theorem processAudioFile_spec (hmax : cfg.maxFingerprints = (Config.default V).maxFingerprints) (h : Catalog cfg q library ids f)
    (hfile : file.audio = library file.audioIdentifier) (action : ProcessAction) :
    Catalog cfg q library (Spec.one action ids file).1 (processAudioFile cfg q fmt action f file).1 ∧
      (processAudioFile cfg q fmt action f file).2 = (Spec.one action ids file).2 := by
  cases action with
  | store =>
    rw [processAudioFile_store hmax]
    cases hfate : file.fate with
    | failed | unopened =>
      simp only [Spec.one, hfate]
      exact ⟨h, rfl⟩
    | stored | unreported =>
      simp only [Spec.one, hfate]
      exact ⟨h.stored hfile, rfl⟩
  | delete =>
    rw [processAudioFile_delete hmax]
    cases hfate : file.fate with
    | failed | unopened =>
      simp only [Spec.one, hfate]
      exact ⟨h, rfl⟩
    | stored | unreported =>
      simp only [Spec.one, hfate, Fate.stores, ↓reduceIte]
      have hnone : f.resourceMap file.audioIdentifier = none ↔ file.audioIdentifier ∉ ids := by
        rw [h.metaData, ite_eq_right_iff]
        simp
      by_cases hid : file.audioIdentifier ∈ ids
      · simp only [hid, ↓reduceIte, hnone, not_true_eq_false]
        exact ⟨h.deleted hfile, trivial⟩
      · simp only [hid, ↓reduceIte, hnone, not_false_eq_true]
        exact ⟨h, trivial⟩

/-- **The files of a command, one after the other.** -/
theorem processAll_spec (hmax : cfg.maxFingerprints = (Config.default V).maxFingerprints) (action : ProcessAction)
    {files : List (AudioFile V)} (hfiles : ∀ file ∈ files, file.audio = library file.audioIdentifier)
    (h : Catalog cfg q library ids f) :
    Catalog cfg q library (Spec.all action ids files).1 (processAll cfg q fmt action f files).1 ∧
      (processAll cfg q fmt action f files).2 = (Spec.all action ids files).2 := by
  induction files generalizing ids f with
  | nil => exact ⟨h, rfl⟩
  | cons file files ih =>
    obtain ⟨hcatalog, hending⟩ := processAudioFile_spec fmt hmax h (hfiles file List.mem_cons_self) action
    rw [processAll, Spec.all]
    cases hstep : processAudioFile cfg q fmt action f file with
    | mk f' ending =>
      cases hspec : Spec.one action ids file with
      | mk ids' ending' =>
        rw [hstep, hspec] at hcatalog hending
        dsimp only at hcatalog hending
        subst hending
        cases ending with
        | finished => exact ih (fun file hfile => hfiles file (List.mem_cons_of_mem _ hfile)) hcatalog
        | failed => exact ⟨hcatalog, rfl⟩
        | exited => exact ⟨hcatalog, rfl⟩

/-- **The pool stores the files that can be stored**, in some order. -/
theorem inParallel_order {files : List (AudioFile V)} {f f' : Folder} (h : InParallel (files.map (AudioFile.file cfg q)) f f') :
    ∃ order : List (AudioFile V), order.Perm (files.filter fun file => file.fate.stores) ∧
      f' = order.foldl (fun f file => (Task.ofAudio cfg q file.audio file.audioIdentifier).storedIn f) f := by
  obtain ⟨order, hnodup, hmem, rfl⟩ := h.order
  have hlen : (files.map (AudioFile.file cfg q)).length = files.length := List.length_map _
  refine ⟨order.map fun w => files.get (w.cast hlen), ?_, ?_⟩
  · have hperm : order.Perm ((List.finRange _).filter fun w => ((files.map (AudioFile.file cfg q)).get w).fate.stores) := by
      refine (List.perm_ext_iff_of_nodup hnodup ((List.nodup_finRange _).filter _)).2 fun w => ?_
      rw [hmem, List.mem_filter, and_iff_right (List.mem_finRange w)]
    refine (hperm.map _).trans (List.Perm.of_eq ?_)
    have hget : files = (List.finRange (files.map (AudioFile.file cfg q)).length).map fun w => files.get (w.cast hlen) := by
      refine List.ext_get (by simp) fun n h1 h2 => ?_
      simp
    conv_rhs => rw [hget, List.filter_map]
    refine congrArg _ (List.filter_congr fun w _ => ?_)
    simp [AudioFile.file]
  · rw [inTurn, List.foldl_map]
    refine congrArg (fun step => List.foldl step f order) (funext fun f => funext fun w => ?_)
    simp [AudioFile.file]

/-- Threads that store, in any order. -/
theorem stored_spec {order : List (AudioFile V)} (hfiles : ∀ file ∈ order, file.audio = library file.audioIdentifier)
    (h : Catalog cfg q library ids f) :
    Catalog cfg q library (ids ∪ (order.map AudioFile.audioIdentifier).toFinset)
      (order.foldl (fun f file => (Task.ofAudio cfg q file.audio file.audioIdentifier).storedIn f) f) := by
  induction order generalizing ids f with
  | nil =>
    rw [List.map_nil, List.toFinset_nil, Finset.union_empty]
    exact h
  | cons file order ih =>
    rw [List.foldl_cons, List.map_cons, List.toFinset_cons, Finset.union_insert, ← Finset.insert_union]
    exact ih (fun file hfile => hfiles file (List.mem_cons_of_mem _ hfile)) (h.stored (hfiles file List.mem_cons_self))

theorem ran_spec (hmax : cfg.maxFingerprints = (Config.default V).maxFingerprints) {command : Command V}
    (hfiles : ∀ file ∈ command.audioFiles, file.audio = library file.audioIdentifier) (h : Catalog cfg q library ids f)
    {r : Folder × Ending} (hran : Ran cfg q fmt command f r) :
    Catalog cfg q library (Spec.run ids command).1 r.1 ∧ r.2 = (Spec.run ids command).2 := by
  cases hran with
  | storeAlone _ halone =>
    rw [Spec.run, if_pos halone]
    exact processAll_spec hmax .store hfiles h
  | storeTogether hpool hparallel =>
    obtain ⟨order, horder, rfl⟩ := inParallel_order hparallel
    rw [Spec.run, if_neg (Nat.not_le.2 hpool), storedIds, ← List.toFinset_eq_of_perm _ _ (horder.map AudioFile.audioIdentifier)]
    exact ⟨stored_spec (fun file hfile => hfiles file (List.mem_of_mem_filter (horder.mem_iff.1 hfile))) h, rfl⟩
  | delete _ => exact processAll_spec hmax .delete hfiles h

end One

section Sessions
variable {cfg : Config V} {q : QSort (EventPoint V) EventPoint.timeIndex} {fmt : MagnitudeFormat V} {f f' : Folder}
  {library : UInt32 → Audio V} {ids : Finset UInt32}

theorem session_spec (hmax : cfg.maxFingerprints = (Config.default V).maxFingerprints) {commands : List (Command V)}
    (hfiles : ∀ command ∈ commands, ∀ file ∈ command.audioFiles, file.audio = library file.audioIdentifier)
    (h : Catalog cfg q library ids f) {endings : List Ending} (hsession : Session cfg q fmt commands f f' endings) :
    Catalog cfg q library (Spec.session ids commands).1 f' ∧ endings = (Spec.session ids commands).2 := by
  induction hsession generalizing ids with
  | nil => exact ⟨h, rfl⟩
  | cons hran _ ih =>
    obtain ⟨hcatalog, hending⟩ := ran_spec hmax (hfiles _ List.mem_cons_self) h hran
    obtain ⟨hlast, hendings⟩ := ih (fun command hc => hfiles command (List.mem_cons_of_mem _ hc)) hcatalog
    dsimp only at hending
    rw [hending, hendings]
    exact ⟨hlast, rfl⟩

theorem catalog_emptyFolder (cfg : Config V) (q : QSort (EventPoint V) EventPoint.timeIndex) (library : UInt32 → Audio V) :
    Catalog cfg q library ∅ emptyFolder :=
  ⟨fun e => iff_of_false (List.not_mem_nil (a := e)) (by simp), fun _ => rfl⟩

/-- **The folder is that of a catalogue**, after any runs of the program in which an identifier stands for one audio. -/
theorem session_catalog (hmax : cfg.maxFingerprints = (Config.default V).maxFingerprints) {commands : List (Command V)}
    (hfiles : ∀ command ∈ commands, ∀ file ∈ command.audioFiles, file.audio = library file.audioIdentifier)
    {endings : List Ending} (hsession : Session cfg q fmt commands emptyFolder f endings) :
    Catalog cfg q library (Spec.session ∅ commands).1 f ∧ endings = (Spec.session ∅ commands).2 :=
  session_spec hmax hfiles (catalog_emptyFolder cfg q library) hsession

/-- A file that is stored and deleted. -/
def lastFile : AudioFile ℚ := ⟨lastAudio, 7, .stored⟩

/-- A library of one audio. -/
def lastLibrary (_ : UInt32) : Audio ℚ := lastAudio

/-- It is stored and deleted again. -/
theorem lastFile_session : ∃ f' endings, Session (.default ℚ) (.insertion _ EventPoint.timeIndex) FpDbWriterCache.sixDecimals
    [.store 1 [lastFile], .delete [lastFile]] emptyFolder f' endings := by
  obtain ⟨⟨f₁, ending₁⟩, hstore⟩ : ∃ r, Ran (.default ℚ) (.insertion _ EventPoint.timeIndex) FpDbWriterCache.sixDecimals
    (.store 1 [lastFile]) emptyFolder r := ⟨_, .storeAlone _ (by decide)⟩
  obtain ⟨⟨f₂, ending₂⟩, hdelete⟩ : ∃ r, Ran (.default ℚ) (.insertion _ EventPoint.timeIndex) FpDbWriterCache.sixDecimals
    (.delete [lastFile]) f₁ r := ⟨_, .delete _⟩
  exact ⟨f₂, [ending₁, ending₂], .cons hstore (.cons hdelete (.nil _))⟩

theorem session_catalog_lastFile :
    ∃ f' endings, Session (.default ℚ) (.insertion _ EventPoint.timeIndex) FpDbWriterCache.sixDecimals
        [.store 1 [lastFile], .delete [lastFile]] emptyFolder f' endings ∧
      Catalog (.default ℚ) (.insertion _ EventPoint.timeIndex) lastLibrary ∅ f' ∧ endings = [.finished, .finished] := by
  obtain ⟨f', endings, hsession⟩ := lastFile_session
  have hspec : Spec.session (∅ : Finset UInt32) [.store 1 [lastFile], .delete [lastFile]] = (∅, [.finished, .finished]) := by
    decide +kernel
  have hfiles : ∀ command ∈ [Command.store 1 [lastFile], .delete [lastFile]], ∀ file ∈ command.audioFiles,
      file.audio = lastLibrary file.audioIdentifier := by
    simp [Command.audioFiles, lastFile, lastLibrary]
  have hlast := session_catalog rfl hfiles hsession
  rw [hspec] at hlast
  exact ⟨f', endings, hsession, hlast⟩

/-! ## Audio that changes -/

/-- What a file does to the folder when it does something. -/
inductive Effect (V : Type)
  | stored (file : AudioFile V)
  | deleted (file : AudioFile V)

def Effect.file : Effect V → AudioFile V
  | .stored file | .deleted file => file

def Effect.isStored : Effect V → Bool
  | .stored _ => true
  | .deleted _ => false

def Effect.pairs (cfg : Config V) (q : QSort (EventPoint V) EventPoint.timeIndex) (x : Effect V) : List (Nat × Nat) :=
  (extracted cfg q x.file.audio.frames).map (pair x.file.audioIdentifier)

def Effect.apply (cfg : Config V) (q : QSort (EventPoint V) EventPoint.timeIndex) (f : Folder) : Effect V → Folder
  | .stored file => (Task.ofAudio cfg q file.audio file.audioIdentifier).storedIn f
  | .deleted file => deletedIn cfg q file f

/-- The last of the effects with a property. -/
def lastOf (p : Effect V → Bool) (effects : List (Effect V)) : Option (Effect V) := effects.reverse.find? p

omit [Sample V] in
theorem lastOf_concat (p : Effect V → Bool) (effects : List (Effect V)) (x : Effect V) :
    lastOf p (effects ++ [x]) = if p x then some x else lastOf p effects := by
  rw [lastOf, List.reverse_append, List.reverse_singleton, List.singleton_append, List.find?_cons]
  split <;> simp_all [lastOf]

/-- The last effect with a pair decides whether it is there, and the last one with an identifier what its metadata is. -/
structure LastDecides (cfg : Config V) (q : QSort (EventPoint V) EventPoint.timeIndex) (f : Folder) (effects : List (Effect V))
    (f' : Folder) : Prop where
  fps : ∀ e, e ∈ f'.fps ↔
    match lastOf (fun x => e ∈ x.pairs cfg q) effects with
    | some x => x.isStored = true
    | none => e ∈ f.fps
  metaData : ∀ id, f'.resourceMap id =
    match lastOf (fun x => x.file.audioIdentifier = id) effects with
    | some (.stored file) => some (StreamProcessor.metaData cfg q file.audio)
    | some (.deleted _) => none
    | none => f.resourceMap id

theorem lastDecides (cfg : Config V) (q : QSort (EventPoint V) EventPoint.timeIndex) (f : Folder) (effects : List (Effect V)) :
    LastDecides cfg q f effects (effects.foldl (Effect.apply cfg q) f) := by
  induction effects using List.reverseRecOn with
  | nil => exact ⟨fun _ => Iff.rfl, fun _ => rfl⟩
  | append_singleton effects x ih =>
    rw [List.foldl_concat]
    refine ⟨fun e => ?_, fun id => ?_⟩
    · rw [lastOf_concat]
      by_cases he : e ∈ x.pairs cfg q
      · rw [if_pos (decide_eq_true he)]
        cases x with
        | stored file => exact iff_of_true (mem_storedIn.2 (Or.inl he)) rfl
        | deleted file => exact iff_of_false (fun hin => (Db.mem_delete.1 hin).2 he) Bool.false_ne_true
      · rw [if_neg (by simpa using he), ← ih.fps e]
        cases x with
        | stored file => exact mem_storedIn.trans (or_iff_right he)
        | deleted file => exact Db.mem_delete.trans (and_iff_left he)
    · rw [lastOf_concat]
      by_cases hid : x.file.audioIdentifier = id
      · rw [if_pos (decide_eq_true hid)]
        subst hid
        cases x with
        | stored file =>
          rw [Effect.apply, storedIn_resourceMap]
          exact Function.update_self ..
        | deleted file => exact Function.update_self ..
      · rw [if_neg (by simpa using hid), ← ih.metaData id]
        cases x with
        | stored file =>
          rw [Effect.apply, storedIn_resourceMap]
          exact Function.update_of_ne (Ne.symm hid) ..
        | deleted file => exact Function.update_of_ne (Ne.symm hid) ..

def Effect.of : ProcessAction → AudioFile V → Effect V
  | .store, file => .stored file
  | .delete, file => .deleted file

/-- What a file does when nothing goes wrong. -/
def AudioFile.effects (action : ProcessAction) (file : AudioFile V) : List (Effect V) :=
  if file.fate.stores then [Effect.of action file] else []

def Command.effects : Command V → List (Effect V)
  | .store _ files => files.flatMap (AudioFile.effects .store)
  | .delete files => files.flatMap (AudioFile.effects .delete)

/-- What a run has done by its end: all of it, up to the order, if it finishes or runs in a pool. -/
structure Did (command : Command V) (ending : Ending) (effects : List (Effect V)) : Prop where
  some : effects.Subperm command.effects
  all : ending = .finished ∨ command.pooled = true → effects.Perm command.effects

variable (q fmt) in
theorem processAudioFile_effects (hmax : cfg.maxFingerprints = (Config.default V).maxFingerprints) (action : ProcessAction)
    (f : Folder) (file : AudioFile V) :
    (processAudioFile cfg q fmt action f file).1 =
      if (processAudioFile cfg q fmt action f file).2 = .exited then f
      else (file.effects action).foldl (Effect.apply cfg q) f := by
  cases action with
  | store =>
    rw [processAudioFile_store hmax, AudioFile.effects]
    cases file.fate <;> rfl
  | delete =>
    rw [processAudioFile_delete hmax, AudioFile.effects]
    cases file.fate with
    | failed | unopened => rfl
    | stored | unreported =>
      simp only [Fate.stores, ↓reduceIte]
      split <;> rfl

variable (q fmt) in
theorem processAll_effects (hmax : cfg.maxFingerprints = (Config.default V).maxFingerprints) (action : ProcessAction)
    (f : Folder) (files : List (AudioFile V)) : ∃ effects : List (Effect V),
      effects <+: files.flatMap (AudioFile.effects action) ∧
      ((processAll cfg q fmt action f files).2 = .finished → effects = files.flatMap (AudioFile.effects action)) ∧
      (processAll cfg q fmt action f files).1 = effects.foldl (Effect.apply cfg q) f := by
  induction files generalizing f with
  | nil => exact ⟨[], List.prefix_rfl, fun _ => rfl, rfl⟩
  | cons file files ih =>
    have hfolder := processAudioFile_effects q fmt hmax action f file
    rw [processAll, List.flatMap_cons]
    cases hstep : processAudioFile cfg q fmt action f file with
    | mk f' ending =>
      rw [hstep] at hfolder
      cases ending with
      | finished =>
        obtain ⟨rest, hfront, hall, hlast⟩ := ih f'
        refine ⟨file.effects action ++ rest, (List.prefix_append_right_inj _).2 hfront, fun hending => ?_, ?_⟩
        · rw [hall hending]
        · dsimp only at hfolder ⊢
          rw [if_neg (by decide)] at hfolder
          rw [hlast, hfolder, List.foldl_append]
      | failed =>
        refine ⟨file.effects action, List.prefix_append _ _, ?_, hfolder⟩
        intro hending
        cases hending
      | exited =>
        refine ⟨[], List.nil_prefix, ?_, hfolder⟩
        intro hending
        cases hending

theorem ran_effects (hmax : cfg.maxFingerprints = (Config.default V).maxFingerprints) {command : Command V}
    {r : Folder × Ending} (hran : Ran cfg q fmt command f r) :
    ∃ effects : List (Effect V), Did command r.2 effects ∧ r.1 = effects.foldl (Effect.apply cfg q) f := by
  cases hran with
  | storeAlone _ halone =>
    obtain ⟨effects, hfront, hall, hfolder⟩ := processAll_effects q fmt hmax .store f _
    refine ⟨effects, ⟨hfront.sublist.subperm, fun hending => ?_⟩, hfolder⟩
    rcases hending with hending | hpooled
    · exact List.Perm.of_eq (hall hending)
    · exact absurd (of_decide_eq_true hpooled) (Nat.not_lt.2 halone)
  | storeTogether hpool hparallel =>
    rename_i numThreads files f'
    obtain ⟨order, horder, rfl⟩ := inParallel_order hparallel
    have hfiles : (Command.store numThreads files).effects = (files.filter fun file => file.fate.stores).map Effect.stored := by
      rw [Command.effects]
      clear horder hparallel hpool
      induction files with
      | nil => rfl
      | cons file files ih =>
        rw [List.flatMap_cons, ih, AudioFile.effects]
        by_cases hstores : file.fate.stores = true
        · rw [List.filter_cons, if_pos hstores, if_pos hstores]
          rfl
        · rw [List.filter_cons, if_neg hstores, if_neg hstores, List.nil_append]
    have hperm : (order.map Effect.stored).Perm (Command.store numThreads files).effects := hfiles ▸ horder.map _
    refine ⟨order.map Effect.stored, ⟨hperm.subperm, fun _ => hperm⟩, ?_⟩
    rw [List.foldl_map]
    rfl
  | delete _ =>
    obtain ⟨effects, hfront, hall, hfolder⟩ := processAll_effects q fmt hmax .delete f _
    refine ⟨effects, ⟨hfront.sublist.subperm, fun hending => ?_⟩, hfolder⟩
    rcases hending with hending | hpooled
    · exact List.Perm.of_eq (hall hending)
    · cases hpooled

/-- Every fingerprint is of an audio with metadata. -/
def Consistent (f : Folder) : Prop := ∀ e ∈ f.fps, ∀ id : UInt32, e.2 % 2 ^ 32 = id.toNat → f.resourceMap id ≠ none

omit [Sample V] in
theorem find?_congr_of {p p' : Effect V → Bool} {effects : List (Effect V)} {x : Effect V}
    (hx : effects.find? p = some x) (hp : ∀ y ∈ effects, p' y = true → p y = true) (hp' : p' x = true) :
    effects.find? p' = some x := by
  obtain ⟨hpx, pre, post, rfl, hpre⟩ := List.find?_eq_some_iff_append.1 hx
  refine List.find?_eq_some_iff_append.2 ⟨hp', pre, post, rfl, fun y hy => ?_⟩
  have hno := hpre y hy
  rw [Bool.not_eq_true'] at hno ⊢
  rw [← Bool.not_eq_true]
  intro hyes
  rw [hp y (List.mem_append_left _ hy) hyes] at hno
  cases hno

/-- What some runs leave, when the audio of an identifier may have changed in between. -/
structure SessionExact (cfg : Config V) (q : QSort (EventPoint V) EventPoint.timeIndex) (f : Folder) (parts : List (List (Effect V)))
    (f' : Folder) : Prop where
  decides : LastDecides cfg q f parts.flatten f'
  /-- A fingerprint without metadata is left over from a deletion of another audio under the same identifier. -/
  orphans : Consistent f → ∀ e ∈ f'.fps, ∀ id : UInt32, e.2 % 2 ^ 32 = id.toNat → f'.resourceMap id = none →
    ∃ file, lastOf (fun x => x.file.audioIdentifier = id) parts.flatten = some (.deleted file) ∧
      e ∉ (Effect.deleted file).pairs cfg q

theorem LastDecides.orphans {effects : List (Effect V)} (h : LastDecides cfg q f effects f') (hconsistent : Consistent f)
    {e : Nat × Nat} (he : e ∈ f'.fps) {id : UInt32} (hid : e.2 % 2 ^ 32 = id.toNat) (hnone : f'.resourceMap id = none) :
    ∃ file, lastOf (fun x => x.file.audioIdentifier = id) effects = some (.deleted file) ∧
      e ∉ (Effect.deleted file).pairs cfg q := by
  have hown : ∀ x ∈ effects.reverse, decide (e ∈ x.pairs cfg q) = true → decide (x.file.audioIdentifier = id) = true := by
    intro x _ hx
    obtain ⟨fp, _, rfl⟩ := List.mem_map.1 (of_decide_eq_true hx)
    rw [pair_id] at hid
    exact decide_eq_true (UInt32.toNat_inj.1 hid)
  have hmeta := h.metaData id
  have hfps := (h.fps e).1 he
  rw [hnone] at hmeta
  cases hlast : lastOf (fun x => x.file.audioIdentifier = id) effects with
  | none =>
    -- no effect has the identifier, so none has the pair
    rw [hlast] at hmeta
    have hnomention : lastOf (fun x => e ∈ x.pairs cfg q) effects = none := by
      rw [lastOf, List.find?_eq_none] at hlast ⊢
      exact fun x hx hmention => hlast x hx (hown x hx hmention)
    rw [hnomention] at hfps
    exact absurd hmeta.symm (hconsistent e hfps id hid)
  | some x =>
    rw [hlast] at hmeta
    cases x with
    | stored file => cases hmeta
    | deleted file =>
      refine ⟨file, rfl, fun hin => ?_⟩
      have hmention : lastOf (fun x => e ∈ x.pairs cfg q) effects = some (.deleted file) :=
        find?_congr_of hlast hown (decide_eq_true hin)
      rw [hmention] at hfps
      cases hfps

/-- What each of the runs has done. -/
inductive AllDid : List (Command V) → List Ending → List (List (Effect V)) → Prop
  | nil : AllDid [] [] []
  | cons {command : Command V} {commands : List (Command V)} {ending : Ending} {endings : List Ending} {effects : List (Effect V)}
      {parts : List (List (Effect V))} (hdid : Did command ending effects) (hrest : AllDid commands endings parts) :
      AllDid (command :: commands) (ending :: endings) (effects :: parts)

/-- **The last run that has a fingerprint decides whether it is in the folder**, and the last one with an identifier what its
metadata is. -/
theorem session_exact (hmax : cfg.maxFingerprints = (Config.default V).maxFingerprints) {commands : List (Command V)}
    {endings : List Ending} (hsession : Session cfg q fmt commands f f' endings) :
    ∃ parts, AllDid commands endings parts ∧ SessionExact cfg q f parts f' := by
  have hparts : ∃ parts, AllDid commands endings parts ∧ f' = parts.flatten.foldl (Effect.apply cfg q) f := by
    induction hsession with
    | nil => exact ⟨[], .nil, rfl⟩
    | cons hran _ ih =>
      obtain ⟨effects, hdid, hfolder⟩ := ran_effects hmax hran
      obtain ⟨parts, hrest, hlast⟩ := ih
      refine ⟨effects :: parts, .cons hdid hrest, ?_⟩
      dsimp only at hfolder
      rw [List.flatten_cons, List.foldl_append, hlast, hfolder]
  obtain ⟨parts, hdid, rfl⟩ := hparts
  have hdecides := lastDecides cfg q f parts.flatten
  exact ⟨parts, hdid, hdecides, fun hconsistent e he id hid hnone => hdecides.orphans hconsistent he hid hnone⟩

/-- Another audio under the identifier of `lastFile`. -/
def changedFile : AudioFile ℚ := ⟨busyAudio, 7, .stored⟩

/-- What is stored changes before it is deleted. -/
theorem session_exact_changedFile :
    ∃ f' endings, Session (.default ℚ) (.insertion _ EventPoint.timeIndex) FpDbWriterCache.sixDecimals
        [.store 1 [lastFile], .store 1 [changedFile], .delete [changedFile]] emptyFolder f' endings ∧
      ∃ parts, AllDid [.store 1 [lastFile], .store 1 [changedFile], .delete [changedFile]] endings parts ∧
        SessionExact (.default ℚ) (.insertion _ EventPoint.timeIndex) emptyFolder parts f' := by
  obtain ⟨⟨f₁, ending₁⟩, hstore⟩ : ∃ r, Ran (.default ℚ) (.insertion _ EventPoint.timeIndex) FpDbWriterCache.sixDecimals
    (.store 1 [lastFile]) emptyFolder r := ⟨_, .storeAlone _ (by decide)⟩
  obtain ⟨⟨f₂, ending₂⟩, hchange⟩ : ∃ r, Ran (.default ℚ) (.insertion _ EventPoint.timeIndex) FpDbWriterCache.sixDecimals
    (.store 1 [changedFile]) f₁ r := ⟨_, .storeAlone _ (by decide)⟩
  obtain ⟨⟨f₃, ending₃⟩, hdelete⟩ : ∃ r, Ran (.default ℚ) (.insertion _ EventPoint.timeIndex) FpDbWriterCache.sixDecimals
    (.delete [changedFile]) f₂ r := ⟨_, .delete _⟩
  have hsession := Session.cons hstore (.cons hchange (.cons hdelete (.nil _)))
  exact ⟨f₃, [ending₁, ending₂, ending₃], hsession, session_exact rfl hsession⟩

end Sessions

end Olaf.Commands
