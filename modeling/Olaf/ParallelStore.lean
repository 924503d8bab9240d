import Olaf.Library.Workers
import Olaf.StoreDelete
/-!
# Storing in parallel (`executeParallel` with the action `Store`)

| here | there |
| --- | --- |
| `Folder` | what the files of LMDB in the database folder hold |
| `txnBegin`, `txnCommit` | `mdb_txn_begin`, which takes the committed state, and `mdb_txn_commit`, which replaces it (`olaf_db.c:99`, `:504`) |
| `Put`    | one `mdb_put` of `olaf_db_store` (`:309`) or `olaf_db_store_meta_data` (`:178`) |
| `Phase`, `step` | a task of the pool: `processAudioFile` (`olaf_cli_threading.zig:61`), which may fail before it gets to `olaf_store` (`olaf_cli_bridge.zig:79`) |

The writer mutex is the only thing that keeps two transactions apart: LMDB is not trusted to, since the threads open
the same folder once each. A raw audio file that cannot be opened ends `olaf_store` early, but behind the deferred
`olaf_runner_destroy`, so its empty transaction is committed and the mutex given back. A thread of the pool takes one
file after the other, which is one of the orders considered. An error of LMDB ends the program (`e_ctx`) and is no step.

`Serial` is the invariant: the folder is what the workers that have committed make of it one after the other, and the
transaction that is open began with the folder as it is.
-/

namespace Olaf.ParallelStore

/-! ## The folder and the transactions -/

structure Folder where
  fps : DupTable Nat Nat
  resourceMap : UInt32 → Option ResourceMetaData

/-- The handle that `olaf_db_new` returns. -/
def Folder.txnBegin (f : Folder) : Db := ⟨f.fps, f.resourceMap, false⟩

def txnCommit (db : Db) : Folder := ⟨db.fps, db.resourceMap⟩

inductive Put
  | fingerprint (pair : Nat × Nat)
  | metaData (key : UInt32) (value : ResourceMetaData)

def Put.apply (db : Db) : Put → Db
  | .fingerprint pair => { db with fps := db.fps.put pair }
  | .metaData key value => db.storeMetaData key value

/-- What a worker stores: the pairs of its fingerprints, and the metadata under its identifier. -/
structure Task where
  audioIdentifier : UInt32
  pairs : List (Nat × Nat)
  metaData : ResourceMetaData

/-- The puts of `olaf_stream_processor_process`, in order. -/
def Task.puts (t : Task) : List Put := t.pairs.map .fingerprint ++ [.metaData t.audioIdentifier t.metaData]

/-- All of them. -/
def Task.stored (t : Task) (db : Db) : Db := (db.store t.pairs).storeMetaData t.audioIdentifier t.metaData

/-- A whole transaction. -/
def Task.storedIn (t : Task) (f : Folder) : Folder := txnCommit (t.stored f.txnBegin)

theorem Task.foldl_puts (t : Task) (db : Db) : t.puts.foldl Put.apply db = t.stored db := by
  rw [puts, List.foldl_append, List.foldl_map]
  rfl

/-! ## A worker -/

inductive Phase
  /-- Up to `pthread_mutex_lock`. -/
  | converting
  /-- In `olaf_db_new`, with the mutex. -/
  | locked
  /-- Up to `olaf_stream_processor_new`. -/
  | opened (db : Db)
  /-- What is left to put, and whether the raw audio could be opened. -/
  | writing (db : Db) (rest : List Put) (stored : Bool)
  /-- In `olaf_db_destroy`, up to `pthread_mutex_unlock`. -/
  | committed (stored : Bool)
  | ended (stored : Bool)

inductive Action
  /-- `convertToRaw` returns an error. -/
  | fail
  | lock
  | txnBegin
  | openReader (found : Bool)
  | put
  | commit
  | unlock

structure Shared (W : Type) where
  /-- Who holds `olaf_db_writer_lock`. -/
  writerLock : Option W
  folder : Folder

def step {W : Type} (task : W → Task) (w : W) : Action → Shared W → Phase → Option (Shared W × Phase)
  | .fail, s, .converting => some (s, .ended false)
  | .lock, s, .converting =>
    match s.writerLock with
    | none => some ({ s with writerLock := some w }, .locked)
    | some _ => none -- `pthread_mutex_lock` waits
  | .txnBegin, s, .locked => some (s, .opened s.folder.txnBegin)
  | .openReader found, s, .opened db => some (s, .writing db (if found then (task w).puts else []) found)
  | .put, s, .writing db (put :: rest) stored => some (s, .writing (put.apply db) rest stored)
  | .commit, s, .writing db [] stored => some ({ s with folder := txnCommit db }, .committed stored)
  | .unlock, s, .committed stored => some ({ s with writerLock := none }, .ended stored)
  | _, _, _ => none

def workers {W : Type} (task : W → Task) : Workers W Action (Shared W) Phase := ⟨step task⟩

def start (W : Type) (f : Folder) : Workers.State W (Shared W) Phase := ⟨⟨none, f⟩, fun _ => .converting⟩

def Phase.holdsLock : Phase → Bool
  | .locked | .opened _ | .writing .. | .committed _ => true
  | .converting | .ended _ => false

/-- Between `mdb_txn_begin` and `mdb_txn_commit`. -/
def Phase.txnOpen : Phase → Bool
  | .opened _ | .writing .. => true
  | .converting | .locked | .committed _ | .ended _ => false

def Phase.hasEnded : Phase → Bool
  | .ended _ => true
  | .converting | .locked | .opened _ | .writing .. | .committed _ => false

/-- It has committed what it had to store. -/
def Phase.hasStored : Phase → Bool
  | .committed stored | .ended stored => stored
  | .converting | .locked | .opened _ | .writing .. => false

/-! ## The folder after some workers -/

/-- The content before and what the workers stored. -/
structure Together {W : Type} (task : W → Task) (stored : W → Prop) (before after : Folder) : Prop where
  fps : ∀ e, e ∈ after.fps ↔ e ∈ before.fps ∨ ∃ w, stored w ∧ e ∈ (task w).pairs
  metaData : ∀ w, stored w → after.resourceMap (task w).audioIdentifier = some (task w).metaData
  others : ∀ key, (∀ w, stored w → (task w).audioIdentifier ≠ key) → after.resourceMap key = before.resourceMap key

section Content
variable {W : Type} {task : W → Task} {stored : W → Prop} {before after after' : Folder}

/-- There is one such folder. -/
theorem Together.unique (h : Together task stored before after) (h' : Together task stored before after') : after = after' := by
  have hmap : after.resourceMap = after'.resourceMap := by
    funext key
    by_cases hkey : ∃ w, stored w ∧ (task w).audioIdentifier = key
    · obtain ⟨w, hw, rfl⟩ := hkey
      rw [h.metaData w hw, h'.metaData w hw]
    · have hno : ∀ w, stored w → (task w).audioIdentifier ≠ key := fun w hw he => hkey ⟨w, hw, he⟩
      rw [h.others key hno, h'.others key hno]
  have hfps : after.fps = after'.fps := DupTable.ext fun e => (h.fps e).trans (h'.fps e).symm
  cases after
  cases after'
  cases hmap
  cases hfps
  rfl

@[simp] theorem mem_storedIn {t : Task} {f : Folder} {e : Nat × Nat} : e ∈ (t.storedIn f).fps ↔ e ∈ t.pairs ∨ e ∈ f.fps :=
  Db.mem_store

theorem storedIn_resourceMap (t : Task) (f : Folder) :
    (t.storedIn f).resourceMap = Function.update f.resourceMap t.audioIdentifier (some t.metaData) := by
  rw [Task.storedIn, txnCommit, Task.stored, Db.storeMetaData_resourceMap, (Db.store_rest _ _).1]
  rfl

/-- Whole transactions one after the other. -/
def inTurn (task : W → Task) (order : List W) (f : Folder) : Folder := order.foldl (fun f w => (task w).storedIn f) f

theorem inTurn_concat (task : W → Task) (order : List W) (w : W) (f : Folder) :
    inTurn task (order ++ [w]) f = (task w).storedIn (inTurn task order f) := by
  rw [inTurn, List.foldl_concat]
  rfl

/-- A file may be there twice, and two files may share an identifier as long as they share the metadata. -/
theorem together_inTurn {order : List W}
    (hids : ∀ w ∈ order, ∀ w' ∈ order, (task w).audioIdentifier = (task w').audioIdentifier →
      (task w).metaData = (task w').metaData) (f : Folder) : Together task (· ∈ order) f (inTurn task order f) := by
  induction order using List.reverseRecOn with
  | nil => exact ⟨by simp [inTurn], by simp, fun _ _ => rfl⟩
  | append_singleton order w ih =>
    have hold := ih fun v hv v' hv' => hids v (by simp [hv]) v' (by simp [hv'])
    rw [inTurn_concat]
    constructor
    · intro e
      simp only [mem_storedIn, hold.fps, List.mem_append, List.mem_singleton, or_and_right, exists_or, exists_eq_left]
      rw [or_comm, or_assoc]
    · intro v hv
      rw [storedIn_resourceMap]
      by_cases he : (task v).audioIdentifier = (task w).audioIdentifier
      · rw [he, Function.update_self, hids v hv w (by simp) he]
      · have hv' : v ∈ order := (List.mem_append.1 hv).resolve_right fun h => he (by rw [List.mem_singleton.1 h])
        rw [Function.update_of_ne he, hold.metaData v hv']
    · intro key hkey
      rw [storedIn_resourceMap, Function.update_of_ne (hkey w (by simp)).symm]
      exact hold.others key fun v hv => hkey v (by simp [hv])

end Content

/-! ## One step -/

/-- What a step can do. -/
inductive Moves {W : Type} (t : Task) (w : W) : Shared W → Phase → Shared W → Phase → Prop
  | fail (s : Shared W) : Moves t w s .converting s (.ended false)
  | lock (f : Folder) : Moves t w ⟨none, f⟩ .converting ⟨some w, f⟩ .locked
  | txnBegin (s : Shared W) : Moves t w s .locked s (.opened s.folder.txnBegin)
  | openReader (s : Shared W) (db : Db) (found : Bool) :
    Moves t w s (.opened db) s (.writing db (if found then t.puts else []) found)
  | put (s : Shared W) (db : Db) (put : Put) (rest : List Put) (stored : Bool) :
    Moves t w s (.writing db (put :: rest) stored) s (.writing (put.apply db) rest stored)
  | commit (lock : Option W) (f : Folder) (db : Db) (stored : Bool) :
    Moves t w ⟨lock, f⟩ (.writing db [] stored) ⟨lock, txnCommit db⟩ (.committed stored)
  | unlock (lock : Option W) (f : Folder) (stored : Bool) :
    Moves t w ⟨lock, f⟩ (.committed stored) ⟨none, f⟩ (.ended stored)

theorem step_moves {W : Type} {task : W → Task} {w : W} {a : Action} {s s' : Shared W} {p p' : Phase}
    (h : step task w a s p = some (s', p')) : Moves (task w) w s p s' p' := by
  unfold step at h
  split at h
  · cases h
    exact .fail s
  · split at h
    · rename_i hlock
      cases s with
      | mk lock f =>
        cases hlock
        cases h
        exact .lock f
    · cases h
  · cases h
    exact .txnBegin s
  · cases h
    exact .openReader s _ _
  · cases h
    exact .put s _ _ _ _
  · cases h
    exact .commit _ _ _ _
  · cases h
    exact .unlock _ _ _
  · cases h

/-! ## The invariant -/

/-- What the transaction of a worker will have made of the folder it began with. -/
def Phase.Sees (t : Task) (f : Folder) : Phase → Prop
  | .opened db => db = f.txnBegin
  | .writing db rest stored => rest.foldl Put.apply db = if stored then t.stored f.txnBegin else f.txnBegin
  | .converting | .locked | .committed _ | .ended _ => True

structure Serial {W : Type} (task : W → Task) (before : Folder) (shared : Shared W) (phase : W → Phase) : Prop where
  lock : ∀ w, (phase w).holdsLock = true ↔ shared.writerLock = some w
  sees : ∀ w, (phase w).Sees (task w) shared.folder
  commits : ∃ order : List W, order.Nodup ∧ (∀ w, w ∈ order ↔ (phase w).hasStored = true) ∧
    shared.folder = inTurn task order before

theorem serial_start {W : Type} (task : W → Task) (before : Folder) :
    Serial task before (start W before).shared (start W before).phase :=
  ⟨fun _ => by simp [start, Phase.holdsLock], fun _ => trivial, [], List.nodup_nil, by simp [start, Phase.hasStored], rfl⟩

theorem sees_of_not_holdsLock {p : Phase} (h : ¬ p.holdsLock = true) (t : Task) (f : Folder) : p.Sees t f := by
  cases p with
  | converting | locked | committed | ended => trivial
  | opened | writing => exact absurd rfl h

theorem txnOpen_holdsLock {p : Phase} (h : p.txnOpen = true) : p.holdsLock = true := by
  cases p with
  | opened | writing => rfl
  | converting | locked | committed | ended => cases h

theorem hasEnded_not_holdsLock {p : Phase} (h : p.hasEnded = true) : ¬ p.holdsLock = true := by
  cases p with
  | ended => exact Bool.false_ne_true
  | converting | locked | opened | writing | committed => cases h

section Step
variable {W : Type} {task : W → Task} {before : Folder} {shared : Shared W} {phase : W → Phase} {w : W}

/-- Two workers do not hold the mutex. -/
theorem Serial.alone (h : Serial task before shared phase) {v : W} (hv : (phase v).holdsLock = true)
    (hw : (phase w).holdsLock = true) : v = w := by
  have hsome := (h.lock w).1 hw
  rw [(h.lock v).1 hv] at hsome
  exact Option.some.inj hsome

/-- The order of the commits, for a worker that has stored as much as before. -/
theorem Serial.kept (h : Serial task before shared phase) {p : Phase} (hstored : p.hasStored = (phase w).hasStored) :
    ∃ order : List W, order.Nodup ∧ (w ∈ order ↔ p.hasStored = true) ∧
      (∀ v, v ≠ w → (v ∈ order ↔ (phase v).hasStored = true)) ∧ shared.folder = inTurn task order before := by
  obtain ⟨order, hnodup, horder, hfolder⟩ := h.commits
  exact ⟨order, hnodup, hstored ▸ horder w, fun v _ => horder v, hfolder⟩

variable [DecidableEq W]

/-- A step of one worker, and what it has to leave alone. -/
theorem serial_update {shared' : Shared W} {p : Phase}
    (hlock : p.holdsLock = true ↔ shared'.writerLock = some w)
    (hothers : ∀ v, v ≠ w → ((phase v).holdsLock = true ↔ shared'.writerLock = some v))
    (hsees : p.Sees (task w) shared'.folder) (hview : ∀ v, v ≠ w → (phase v).Sees (task v) shared'.folder)
    (hcommits : ∃ order : List W, order.Nodup ∧ (w ∈ order ↔ p.hasStored = true) ∧
      (∀ v, v ≠ w → (v ∈ order ↔ (phase v).hasStored = true)) ∧ shared'.folder = inTurn task order before) :
    Serial task before shared' (Function.update phase w p) := by
  obtain ⟨order, hnodup, hw, horder, hfolder⟩ := hcommits
  constructor
  · exact (Function.forall_update_iff phase fun v p => p.holdsLock = true ↔ shared'.writerLock = some v).2 ⟨hlock, hothers⟩
  · exact (Function.forall_update_iff phase fun v p => p.Sees (task v) shared'.folder).2 ⟨hsees, hview⟩
  · exact ⟨order, hnodup, (Function.forall_update_iff phase fun v p => v ∈ order ↔ p.hasStored = true).2 ⟨hw, horder⟩, hfolder⟩

/-- A step that changes neither the mutex nor the folder. -/
theorem Serial.move (h : Serial task before shared phase) {p : Phase} (hlock : p.holdsLock = (phase w).holdsLock)
    (hstored : p.hasStored = (phase w).hasStored) (hsees : p.Sees (task w) shared.folder) :
    Serial task before shared (Function.update phase w p) :=
  serial_update (hlock ▸ h.lock w) (fun v _ => h.lock v) hsees (fun v _ => h.sees v) (h.kept hstored)

theorem Serial.taken {f : Folder} (h : Serial task before ⟨none, f⟩ phase) (hp : phase w = .converting) :
    Serial task before ⟨some w, f⟩ (Function.update phase w .locked) := by
  refine serial_update (by simp [Phase.holdsLock]) (fun v hv => ?_) trivial (fun v _ => h.sees v)
    (h.kept (p := .locked) (by rw [hp]; rfl))
  have hfree := h.lock v
  simp only [reduceCtorEq, iff_false] at hfree
  simp [hfree, Ne.symm hv]

/-- The transaction replaces the folder it began with. -/
theorem Serial.committed {lock : Option W} {f : Folder} (h : Serial task before ⟨lock, f⟩ phase) {db : Db} {stored : Bool}
    (hp : phase w = .writing db [] stored) :
    Serial task before ⟨lock, txnCommit db⟩ (Function.update phase w (.committed stored)) := by
  have hheld : (phase w).holdsLock = true := by rw [hp]; rfl
  have hdb := h.sees w
  simp only [hp, Phase.Sees, List.foldl_nil] at hdb
  refine serial_update ?_ (fun v _ => h.lock v) trivial (fun v hv => ?_) ?_
  · exact iff_of_true rfl ((h.lock w).1 hheld)
  · exact sees_of_not_holdsLock (fun hheld' => hv (h.alone hheld' hheld)) _ _
  · obtain ⟨order, hnodup, horder, hfolder⟩ := h.commits
    have hnew : w ∉ order := by
      rw [horder, hp]
      exact Bool.false_ne_true
    cases stored with
    | false =>
      refine ⟨order, hnodup, iff_of_false hnew Bool.false_ne_true, fun v _ => horder v, ?_⟩
      rw [hdb]
      exact hfolder
    | true =>
      refine ⟨order ++ [w], ?_, iff_of_true (by simp) rfl, fun v hv => ?_, ?_⟩
      · exact hnodup.append (List.nodup_singleton w) (List.disjoint_singleton.2 hnew)
      · simpa [hv] using horder v
      · rw [inTurn_concat, ← hfolder, hdb]
        rfl

theorem Serial.released {lock : Option W} {f : Folder} (h : Serial task before ⟨lock, f⟩ phase) {stored : Bool}
    (hp : phase w = .committed stored) : Serial task before ⟨none, f⟩ (Function.update phase w (.ended stored)) := by
  have hheld : (phase w).holdsLock = true := by rw [hp]; rfl
  refine serial_update (by simp [Phase.holdsLock]) (fun v hv => ?_) trivial (fun v _ => h.sees v)
    (h.kept (p := .ended stored) (by rw [hp]; rfl))
  have hout : ¬ (phase v).holdsLock = true := fun hheld' => hv (h.alone hheld' hheld)
  simp [hout]

/-- A step keeps the invariant. -/
theorem Serial.step (h : Serial task before shared phase) {shared' : Shared W} {p' : Phase}
    (hm : Moves (task w) w shared (phase w) shared' p') : Serial task before shared' (Function.update phase w p') := by
  have hsees := h.sees w
  generalize hp : phase w = p at hm
  rw [hp] at hsees
  cases hm with
  | fail => exact h.move (by rw [hp]; rfl) (by rw [hp]; rfl) trivial
  | lock f => exact h.taken hp
  | txnBegin => exact h.move (by rw [hp]; rfl) (by rw [hp]; rfl) rfl
  | openReader _ db found =>
    refine h.move (by rw [hp]; rfl) (by rw [hp]; rfl) ?_
    cases hsees
    cases found with
    | false => rfl
    | true => exact Task.foldl_puts ..
  | put _ db put rest stored => exact h.move (by rw [hp]; rfl) (by rw [hp]; rfl) hsees
  | commit lock f db stored => exact h.committed hp
  | unlock lock f stored => exact h.released hp

theorem run_serial {s : Workers.State W (Shared W) Phase} {schedule : List (W × Action)}
    (hrun : (workers task).run (start W before) schedule = some s) : Serial task before s.shared s.phase := by
  refine Workers.run_keeps (I := fun s => Serial task before s.shared s.phase) (fun s x s' hs hn => ?_)
    (serial_start task before) hrun
  obtain ⟨w, a⟩ := x
  obtain ⟨shared', p', hstep, rfl⟩ := Workers.next_cases hn
  exact hs.step (step_moves hstep)

end Step

/-! ## Whole runs -/

/-- What is promised of a state. -/
structure Serializable {W : Type} (task : W → Task) (before : Folder) (s : Workers.State W (Shared W) Phase) : Prop where
  oneTransaction : ∀ v w, (s.phase v).txnOpen = true → (s.phase w).txnOpen = true → v = w
  released : ∀ w, (s.phase w).hasEnded = true → s.shared.writerLock ≠ some w
  content : (∀ w, (s.phase w).hasEnded = true) →
    Together task (fun w => (s.phase w).hasStored = true) before s.shared.folder ∧
      ∀ order : List W, order.Nodup → (∀ w, w ∈ order ↔ (s.phase w).hasStored = true) →
        s.shared.folder = inTurn task order before

/-- **No schedule of the workers loses a put.** -/
theorem parallel_stores {W : Type} [DecidableEq W] (task : W → Task)
    (hids : ∀ w w', w ≠ w' → (task w).audioIdentifier ≠ (task w').audioIdentifier) (before : Folder)
    (schedule : List (W × Action)) (s : Workers.State W (Shared W) Phase)
    (hrun : (workers task).run (start W before) schedule = some s) : Serializable task before s := by
  have h := run_serial hrun
  obtain ⟨order, hnodup, horder, hfolder⟩ := h.commits
  have hall : ∀ order : List W, order.Nodup → (∀ w, w ∈ order ↔ (s.phase w).hasStored = true) →
      Together task (fun w => (s.phase w).hasStored = true) before (inTurn task order before) := by
    intro order hnodup horder
    have heq : (· ∈ order) = fun w => (s.phase w).hasStored = true := funext fun w => propext (horder w)
    exact heq ▸ together_inTurn (fun v _ w _ he => by rw [Classical.byContradiction fun h => hids v w h he]) before
  constructor
  · intro v w hv hw
    exact h.alone (txnOpen_holdsLock hv) (txnOpen_holdsLock hw)
  · intro w hw hlock
    exact hasEnded_not_holdsLock hw ((h.lock w).2 hlock)
  · intro _
    rw [hfolder]
    exact ⟨hall order hnodup horder, fun order' hnodup' horder' =>
      (hall order hnodup horder).unique (hall order' hnodup' horder')⟩

/-- Worker `false` stores a pair; the raw audio of worker `true` cannot be opened. -/
def twoTasks : Bool → Task
  | false => ⟨1, [(5, 1)], ⟨"a.wav", 2, 1⟩⟩
  | true => ⟨2, [(6, 2)], ⟨"b.wav", 3, 1⟩⟩

/-- Worker `true` has the mutex first. -/
def twoTasks_schedule : List (Bool × Action) :=
  [(true, .lock), (true, .txnBegin), (true, .openReader false), (true, .commit), (true, .unlock), (false, .lock),
    (false, .txnBegin), (false, .openReader true), (false, .put), (false, .put), (false, .commit), (false, .unlock)]

def emptyFolder : Folder := ⟨Db.empty.fps, Db.empty.resourceMap⟩

theorem parallel_stores_twoTasks : ∃ s,
    (workers twoTasks).run (start Bool emptyFolder) twoTasks_schedule = some s ∧ (∀ w, (s.phase w).hasEnded = true) ∧
      Serializable twoTasks emptyFolder s := by
  refine ⟨_, rfl, fun w => ?_, parallel_stores twoTasks (by decide) emptyFolder twoTasks_schedule _ rfl⟩
  cases w <;> rfl

/-- A worker with the mutex can go on. -/
theorem holder_moves {W : Type} (task : W → Task) (w : W) (shared : Shared W) {p : Phase} (h : p.holdsLock = true) :
    ∃ a r, a ≠ .fail ∧ step task w a shared p = some r := by
  cases p with
  | converting | ended => cases h
  | locked => exact ⟨.txnBegin, _, by simp, rfl⟩
  | opened db => exact ⟨.openReader true, _, by simp, rfl⟩
  | writing db rest stored =>
    cases rest with
    | nil => exact ⟨.commit, _, by simp, rfl⟩
    | cons put rest => exact ⟨.put, _, by simp, rfl⟩
  | committed stored => exact ⟨.unlock, _, by simp, rfl⟩

/-- **The workers do not wait for each other in vain**: while one of them has not ended, one can take a step, and none
has to fail for that. -/
theorem not_stuck {W : Type} [DecidableEq W] {task : W → Task} {before : Folder} {schedule : List (W × Action)}
    {s : Workers.State W (Shared W) Phase} (hrun : (workers task).run (start W before) schedule = some s) {w : W}
    (hw : (s.phase w).hasEnded = false) : ∃ v a s', a ≠ .fail ∧ (workers task).next s (v, a) = some s' := by
  have h := run_serial hrun
  have hgo : ∃ v a r, a ≠ .fail ∧ step task v a s.shared (s.phase v) = some r := by
    cases hlock : s.shared.writerLock with
    | some v => exact ⟨v, holder_moves task v s.shared ((h.lock v).2 hlock)⟩
    | none =>
      have hout : ¬ (s.phase w).holdsLock = true := by
        rw [h.lock, hlock]
        simp
      cases hp : s.phase w with
      | converting => exact ⟨w, .lock, _, by simp, by rw [hp, step, hlock]⟩
      | ended => rw [hp] at hw; cases hw
      | locked | opened | writing | committed => rw [hp] at hout; exact absurd rfl hout
  obtain ⟨v, a, r, ha, hr⟩ := hgo
  exact ⟨v, a, _, ha, Option.map_eq_some_iff.2 ⟨r, hr, rfl⟩⟩

/-! ## The workers of the command -/

open Sorting StreamProcessor

/-- The task of a worker that runs the stream processor on an audio. -/
def Task.ofAudio {V : Type} [Sample V] (cfg : Config V) (q : QSort (EventPoint V) EventPoint.timeIndex) (audio : Audio V)
    (audioIdentifier : UInt32) : Task :=
  ⟨audioIdentifier, (extracted cfg q audio.frames).map (FpDbWriter.pair audioIdentifier), StreamProcessor.metaData cfg q audio⟩

/-- Its puts are those of the run. -/
theorem Task.ofAudio_puts {V : Type} [Sample V] {cfg : Config V} {q : QSort (EventPoint V) EventPoint.timeIndex}
    {fmt : MagnitudeFormat V} (hmax : cfg.maxFingerprints = (Config.default V).maxFingerprints) (audio : Audio V)
    (id : UInt32) (db : Db) :
    (process cfg q fmt .store audio id db).map Outcome.db = some ((Task.ofAudio cfg q audio id).puts.foldl Put.apply db) := by
  rw [process_store hmax, Task.foldl_puts]
  rfl

end Olaf.ParallelStore
