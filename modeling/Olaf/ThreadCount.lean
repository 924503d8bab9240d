import Mathlib.Data.List.FinRange
import Olaf.ParallelStore
/-!
# One thread or several (`executeParallel` with the action `Store`)

| here | there |
| --- | --- |
| `Fate` | how `processAudioFile` (`olaf_cli_threading.zig:61`) ends for a file |
| `processAudioFile` | the same on one thread: what it leaves, and whether it returns an error |
| `inSequence` | the loop of the single-threaded branch (`:126-135`), which `try` leaves at the first error |
| `InParallel` | the branch with the thread pool (`:136-182`), which keeps the errors for the end; the workers are those of `ParallelStore` |
| `Leaves` | `executeParallel` for `numThreads` threads |

The conversion of a file, or the temporary path before it, may fail (`failed`); the raw audio may not open, which is no error
(`unopened`, `olaf_cli_bridge.zig:111`); and the summary of a stored file may not fit its buffer (`unreported`, `:132`).

So what stands behind a failing file is processed by the pool only. `same_files_iff` says for which lists that makes no
difference.
-/

namespace Olaf.ParallelStore

inductive Fate
  | failed
  | unopened
  | stored
  | unreported
deriving DecidableEq

def Fate.stores : Fate → Bool
  | .stored | .unreported => true
  | .failed | .unopened => false

/-- `processAudioFile` returns an error. -/
def Fate.errs : Fate → Bool
  | .failed | .unreported => true
  | .unopened | .stored => false

/-- An audio file: what it has to store, and how that goes. -/
structure File where
  task : Task
  fate : Fate

def processAudioFile (file : File) (f : Folder) : Folder × Bool :=
  match file.fate with
  | .failed => (f, true)
  | .unopened => (txnCommit f.txnBegin, false)
  | .stored => (file.task.storedIn f, false)
  | .unreported => (file.task.storedIn f, true)

def inSequence : List File → Folder → Folder
  | [], f => f
  | file :: files, f =>
    match processAudioFile file f with
    | (f, true) => f
    | (f, false) => inSequence files f

/-- The steps of a worker whose file has this fate. -/
def Fate.allows (fate : Fate) : Action → Bool
  | .fail => fate = .failed
  | .lock => fate ≠ .failed
  | .openReader found => found = fate.stores
  | .txnBegin | .put | .commit | .unlock => true

/-- One worker for each file; `waitAndWork` returns when all have ended. -/
def InParallel (files : List File) (before after : Folder) : Prop :=
  ∃ (schedule : List (Fin files.length × Action)) (s : _), (∀ x ∈ schedule, (files.get x.1).fate.allows x.2 = true) ∧
    (workers fun w => (files.get w).task).run (start (Fin files.length) before) schedule = some s ∧
    (∀ w, (s.phase w).hasEnded = true) ∧ s.shared.folder = after

def Leaves (files : List File) (numThreads : Nat) (before after : Folder) : Prop :=
  if min numThreads files.length ≤ 1 then after = inSequence files before else InParallel files before after

/-- Its fingerprints and its metadata are there. -/
structure InDatabase (t : Task) (f : Folder) : Prop where
  fps : ∀ e ∈ t.pairs, e ∈ f.fps
  metaData : f.resourceMap t.audioIdentifier = some t.metaData

/-! ## One thread -/

/-- The files up to the first failing one. -/
def upToFailure : List File → List File
  | [] => []
  | file :: files => file :: if file.fate.errs then [] else upToFailure files

/-- The files that get stored, one after the other. -/
def storeAll (files : List File) (f : Folder) : Folder := inTurn File.task (files.filter fun file => file.fate.stores) f

theorem processAudioFile_folder (file : File) (f : Folder) :
    (processAudioFile file f).1 = if file.fate.stores then file.task.storedIn f else f := by
  cases file with
  | mk task fate => cases fate <;> rfl

theorem storeAll_cons (file : File) (files : List File) (f : Folder) :
    storeAll (file :: files) f = storeAll files (processAudioFile file f).1 := by
  cases file with
  | mk task fate => cases fate <;> rfl

theorem processAudioFile_errs (file : File) (f : Folder) : (processAudioFile file f).2 = file.fate.errs := by
  cases file with
  | mk task fate => cases fate <;> rfl

/-- **One thread stores the files up to the first failing one.** -/
theorem inSequence_eq (files : List File) (f : Folder) : inSequence files f = storeAll (upToFailure files) f := by
  induction files generalizing f with
  | nil => rfl
  | cons file files ih =>
    have herrs := processAudioFile_errs file f
    rw [upToFailure, storeAll_cons, inSequence]
    rcases hp : processAudioFile file f with ⟨f', err⟩
    rw [hp] at herrs
    simp only at herrs ⊢
    cases err with
    | true =>
      rw [← herrs]
      rfl
    | false =>
      rw [← herrs]
      exact ih f'

theorem upToFailure_subset (files : List File) : ∀ file ∈ upToFailure files, file ∈ files := by
  induction files with
  | nil => simp [upToFailure]
  | cons file files ih =>
    intro file' h
    rw [upToFailure] at h
    rcases List.mem_cons.1 h with rfl | h
    · simp
    · split at h
      · cases h
      · simp [ih file' h]

/-- What is not behind a failing file. -/
theorem mem_upToFailure {files pre post : List File} {file : File} (hsplit : files = pre ++ file :: post)
    (h : ∀ file' ∈ pre, file'.fate.errs = false) : file ∈ upToFailure files := by
  subst hsplit
  induction pre with
  | nil => simp [upToFailure]
  | cons file' pre ih =>
    have hfirst := h file' (by simp)
    rw [List.cons_append, upToFailure, hfirst]
    simp [ih fun d hd => h d (by simp [hd])]

/-! ## The pool -/

/-- Where a worker whose file has this fate can be. -/
def Phase.Fits (fate : Fate) : Phase → Prop
  | .converting => True
  | .locked | .opened _ => fate ≠ .failed
  | .writing _ _ stored | .committed stored | .ended stored => stored = fate.stores

theorem step_fits {W : Type} {task : W → Task} {w : W} {a : Action} {s s' : Shared W} {p p' : Phase} {fate : Fate}
    (h : step task w a s p = some (s', p')) (ha : fate.allows a = true) (hp : p.Fits fate) : p'.Fits fate := by
  unfold step at h
  split at h
  · cases h
    rw [of_decide_eq_true ha]
    rfl
  · split at h
    · cases h
      have hne : fate ≠ .failed := of_decide_eq_true ha
      exact hne
    · cases h
  · cases h
    exact hp
  · cases h
    have hfound := of_decide_eq_true ha
    exact hfound
  · cases h
    exact hp
  · cases h
    exact hp
  · cases h
    exact hp
  · cases h

/-- **The pool stores every file that can be stored**, in some order. -/
theorem InParallel.order {files : List File} {before after : Folder} (h : InParallel files before after) :
    ∃ order : List (Fin files.length), order.Nodup ∧ (∀ w, w ∈ order ↔ (files.get w).fate.stores = true) ∧
      after = inTurn (fun w => (files.get w).task) order before := by
  obtain ⟨schedule, s, hallowed, hrun, hended, rfl⟩ := h
  have hfits : ∀ w, (s.phase w).Fits (files.get w).fate := by
    refine Workers.run_keeps_of (I := fun s => ∀ w, (s.phase w).Fits (files.get w).fate)
      (C := fun _ x => (files.get x.1).fate.allows x.2 = true) (fun s x s' hs ha hn => ?_) (fun _ => trivial)
      (Workers.meets_of_mem hallowed _) hrun
    obtain ⟨w, a⟩ := x
    obtain ⟨shared', p', hstep, rfl⟩ := Workers.next_cases hn
    have hstep : step (fun w => (files.get w).task) w a s.shared (s.phase w) = some (shared', p') := hstep
    exact (Function.forall_update_iff s.phase fun v p => p.Fits (files.get v).fate).2
      ⟨step_fits hstep ha (hs w), fun v _ => hs v⟩
  obtain ⟨order, hnodup, horder, hfolder⟩ := (run_serial hrun).commits
  refine ⟨order, hnodup, fun w => (horder w).trans ?_, hfolder⟩
  have hw := hfits w
  have hend := hended w
  cases hp : s.phase w with
  | ended stored =>
    rw [hp] at hw
    rw [← show stored = (files.get w).fate.stores from hw]
    rfl
  | converting | locked | opened | writing | committed =>
    rw [hp] at hend
    cases hend

/-- The steps of a worker that is alone. -/
def Fate.actions (fate : Fate) (puts : Nat) : List Action :=
  if fate = .failed then [.fail]
  else [.lock, .txnBegin, .openReader fate.stores] ++ List.replicate (if fate.stores then puts else 0) .put ++ [.commit, .unlock]

theorem allows_actions (fate : Fate) (puts : Nat) : ∀ a ∈ fate.actions puts, fate.allows a = true := by
  intro a ha
  unfold Fate.actions at ha
  split at ha
  · rename_i hfail
    rw [List.mem_singleton.1 ha]
    exact decide_eq_true hfail
  · rename_i hfail
    simp only [List.mem_append, List.mem_cons, List.not_mem_nil, or_false, List.mem_replicate] at ha
    rcases ha with (((rfl | rfl | rfl) | ⟨_, rfl⟩) | (rfl | rfl))
    · exact decide_eq_true hfail
    · rfl
    · exact decide_eq_true rfl
    · rfl
    · rfl
    · rfl

section Solo
variable {W : Type} [DecidableEq W] (task : W → Task) (w : W)

theorem put_run (lock : Option W) (f : Folder) (phase : W → Phase) (stored : Bool) (rest : List Put) (db : Db) :
    (workers task).run ⟨⟨lock, f⟩, Function.update phase w (.writing db rest stored)⟩
      ((List.replicate rest.length Action.put).map (w, ·)) =
        some ⟨⟨lock, f⟩, Function.update phase w (.writing (rest.foldl Put.apply db) [] stored)⟩ := by
  induction rest generalizing db with
  | nil => rfl
  | cons put rest ih =>
    rw [List.length_cons, List.replicate_succ, List.map_cons, Workers.run, Workers.next]
    simp only [workers, step, Function.update_self, Function.update_idem, Option.map_some, Option.bind_some]
    exact ih (put.apply db)

/-- **A worker that is alone does what one thread does.** -/
theorem solo_run (fate : Fate) (f : Folder) (phase : W → Phase) (hp : phase w = .converting) :
    (workers task).run ⟨⟨none, f⟩, phase⟩ ((fate.actions (task w).puts.length).map (w, ·)) =
      some ⟨⟨none, (processAudioFile ⟨task w, fate⟩ f).1⟩, Function.update phase w (.ended fate.stores)⟩ := by
  by_cases hfail : fate = .failed
  · subst hfail
    simp [Fate.actions, Workers.run, Workers.next, workers, step, hp, processAudioFile, Fate.stores]
  have hputs : (List.replicate (if fate.stores then (task w).puts.length else 0) Action.put) =
      List.replicate (if fate.stores then (task w).puts else []).length .put := by
    cases fate.stores <;> rfl
  have hopen : (workers task).run ⟨⟨none, f⟩, phase⟩ ([Action.lock, .txnBegin, .openReader fate.stores].map (w, ·)) =
      some ⟨⟨some w, f⟩, Function.update phase w
        (.writing f.txnBegin (if fate.stores then (task w).puts else []) fate.stores)⟩ := by
    simp [Workers.run, Workers.next, workers, step, hp]
  have hclose : ∀ db, (workers task).run ⟨⟨some w, f⟩, Function.update phase w (.writing db [] fate.stores)⟩
      ([Action.commit, .unlock].map (w, ·)) = some ⟨⟨none, txnCommit db⟩, Function.update phase w (.ended fate.stores)⟩ := by
    intro db
    simp [Workers.run, Workers.next, workers, step]
  rw [Fate.actions, if_neg hfail, hputs, List.map_append, List.map_append, Workers.run_append, Workers.run_append, hopen,
    Option.bind_some, put_run, Option.bind_some, hclose]
  cases fate with
  | failed => exact absurd rfl hfail
  | unopened => rfl
  | stored | unreported => rw [Fate.stores, if_pos rfl, Task.foldl_puts]; rfl

/-- Workers that are alone one after the other. -/
theorem turns_run (fate : W → Fate) (before : Folder) {order : List W} (hnodup : order.Nodup) :
    ∃ (schedule : List (W × Action)) (s : _), (∀ x ∈ schedule, (fate x.1).allows x.2 = true) ∧
      (workers task).run (start W before) schedule = some s ∧
      s.shared = ⟨none, inTurn task (order.filter fun w => (fate w).stores) before⟩ ∧
      ∀ w, s.phase w = if w ∈ order then .ended (fate w).stores else .converting := by
  induction order using List.reverseRecOn with
  | nil => exact ⟨[], _, by simp, rfl, rfl, fun w => by simp [start]⟩
  | append_singleton order w ih =>
    obtain ⟨schedule, s, hallowed, hrun, hshared, hphase⟩ := ih hnodup.of_append_left
    have hnew : w ∉ order := fun h => List.disjoint_of_nodup_append hnodup h (List.mem_singleton_self w)
    obtain ⟨shared, phase⟩ := s
    obtain rfl : shared = _ := hshared
    have hsolo := solo_run task w (fate w) (inTurn task (order.filter fun w => (fate w).stores) before) phase
      ((hphase w).trans (if_neg hnew))
    refine ⟨schedule ++ ((fate w).actions (task w).puts.length).map (w, ·), ⟨⟨none, _⟩, _⟩, fun x hx => ?_,
      by rw [Workers.run_append, hrun, Option.bind_some, hsolo], ?_, fun v => ?_⟩
    · rcases List.mem_append.1 hx with hx | hx
      · exact hallowed x hx
      · obtain ⟨a, ha, rfl⟩ := List.mem_map.1 hx
        exact allows_actions (fate w) _ a ha
    · rw [processAudioFile_folder, List.filter_append, List.filter_singleton]
      cases (fate w).stores with
      | false => simp
      | true => simp [inTurn_concat]
    · by_cases hv : v = w
      · subst hv
        simp
      · have := hphase v
        simp only at this
        simp [hv, this]

end Solo

/-! ## The two branches -/

section Agree
variable {files : List File} {before after : Folder}

/-- In every order the pool can store its files. -/
theorem inParallel_of_order {order : List (Fin files.length)} (hnodup : order.Nodup) (hall : ∀ w, w ∈ order) :
    InParallel files before
      (inTurn (fun w => (files.get w).task) (order.filter fun w => (files.get w).fate.stores) before) := by
  obtain ⟨schedule, s, hallowed, hrun, hshared, hphase⟩ :=
    turns_run (fun w => (files.get w).task) (fun w => (files.get w).fate) before hnodup
  refine ⟨schedule, s, hallowed, hrun, fun w => ?_, by rw [hshared]⟩
  rw [hphase w, if_pos (hall w)]
  rfl

/-- The number of threads does not change which files are in the database. -/
def SameFiles (files : List File) (before : Folder) : Prop :=
  ∀ numThreads, 1 < numThreads → ∀ f f', Leaves files 1 before f → Leaves files numThreads before f' →
    ∀ file ∈ files, InDatabase file.task f ↔ InDatabase file.task f'

/-- The files that get stored under one identifier have the same metadata. -/
def SameMetaData (files : List File) : Prop :=
  ∀ file ∈ files, ∀ file' ∈ files, file.fate.stores = true → file'.fate.stores = true →
    file.task.audioIdentifier = file'.task.audioIdentifier → file.task.metaData = file'.task.metaData

/-- Everything of a task was in the database before or is stored by the earlier files. -/
structure AlreadyThere (t : Task) (earlier : List File) (before : Folder) : Prop where
  fps : ∀ e ∈ t.pairs, e ∈ before.fps ∨ ∃ file ∈ earlier, file.fate.stores = true ∧ e ∈ file.task.pairs
  metaData : before.resourceMap t.audioIdentifier = some t.metaData ∨
    ∃ file ∈ earlier, file.fate.stores = true ∧ file.task.audioIdentifier = t.audioIdentifier

/-- What stands behind a failing file is already there when the single thread stops. -/
structure Independent (files : List File) (before : Folder) : Prop where
  same : SameMetaData files
  kept : ∀ pre file post, files = pre ++ file :: post → (∃ file' ∈ pre, file'.fate.errs = true) → file.fate.stores = true →
    AlreadyThere file.task (upToFailure files) before

/-- What the single thread leaves. -/
theorem together_storeAll (h : SameMetaData files) (before : Folder) :
    Together File.task (fun file => file ∈ upToFailure files ∧ file.fate.stores = true) before
      (storeAll (upToFailure files) before) := by
  have hmem : (· ∈ (upToFailure files).filter fun file => file.fate.stores) =
      fun file => file ∈ upToFailure files ∧ file.fate.stores = true := funext fun file => propext List.mem_filter
  rw [← hmem]
  refine together_inTurn (fun file hfile file' hfile' he => ?_) before
  obtain ⟨h1, h2⟩ := List.mem_filter.1 hfile
  obtain ⟨h1', h2'⟩ := List.mem_filter.1 hfile'
  exact h file (upToFailure_subset files file h1) file' (upToFailure_subset files file' h1') h2 h2' he

theorem alreadyThere_iff (h : SameMetaData files) {file : File} (hfile : file ∈ files) (hs : file.fate.stores = true) :
    AlreadyThere file.task (upToFailure files) before ↔ InDatabase file.task (storeAll (upToFailure files) before) := by
  have hseq := together_storeAll h before
  constructor
  · intro hthere
    refine ⟨fun e he => (hseq.fps e).2 ((hthere.fps e he).imp_right ?_), ?_⟩
    · rintro ⟨file', h1, h2, he⟩
      exact ⟨file', ⟨h1, h2⟩, he⟩
    · by_cases hid : ∃ file' ∈ upToFailure files, file'.fate.stores = true ∧
          file'.task.audioIdentifier = file.task.audioIdentifier
      · obtain ⟨file', h1, h2, he⟩ := hid
        rw [← he, hseq.metaData file' ⟨h1, h2⟩, h file' (upToFailure_subset files file' h1) file hfile h2 hs he]
      · rw [hseq.others _ fun file' hf he => hid ⟨file', hf.1, hf.2, he⟩]
        exact hthere.metaData.resolve_right hid
  · intro hin
    refine ⟨fun e he => ((hseq.fps e).1 (hin.fps e he)).imp_right ?_, ?_⟩
    · rintro ⟨file', ⟨h1, h2⟩, he⟩
      exact ⟨file', h1, h2, he⟩
    · by_cases hid : ∃ file' ∈ upToFailure files, file'.fate.stores = true ∧
          file'.task.audioIdentifier = file.task.audioIdentifier
      · exact Or.inr hid
      · refine Or.inl ?_
        rw [← hseq.others _ fun file' hf he => hid ⟨file', hf.1, hf.2, he⟩]
        exact hin.metaData

/-- The single thread has stored what the pool stores. -/
theorem Independent.inSequence (h : Independent files before) :
    Together (fun w : Fin files.length => (files.get w).task) (fun w => (files.get w).fate.stores = true) before
      (inSequence files before) := by
  rw [inSequence_eq]
  have hseq := together_storeAll h.same before
  have hin : ∀ w : Fin files.length, (files.get w).fate.stores = true →
      InDatabase (files.get w).task (storeAll (upToFailure files) before) := by
    intro w hw
    have hsplit : files = files.take w ++ files.get w :: files.drop (w + 1) := by simp
    by_cases hfail : ∃ file' ∈ files.take w, file'.fate.errs = true
    · exact (alreadyThere_iff h.same (List.get_mem ..) hw).1 (h.kept _ _ _ hsplit hfail hw)
    · have hfront : files.get w ∈ upToFailure files := by
        apply mem_upToFailure hsplit
        intro file' hfile'
        simpa using fun herr => hfail ⟨file', hfile', herr⟩
      exact ⟨fun e he => (hseq.fps e).2 (Or.inr ⟨_, ⟨hfront, hw⟩, he⟩), hseq.metaData _ ⟨hfront, hw⟩⟩
  refine ⟨fun e => ⟨fun he => ?_, fun he => ?_⟩, fun w hw => (hin w hw).metaData, fun k hk => hseq.others k ?_⟩
  · refine ((hseq.fps e).1 he).imp_right ?_
    rintro ⟨file, ⟨h1, h2⟩, he⟩
    obtain ⟨w, rfl⟩ := List.mem_iff_get.1 (upToFailure_subset files file h1)
    exact ⟨w, h2, he⟩
  · rcases he with he | ⟨w, hw, he⟩
    · exact (hseq.fps e).2 (Or.inl he)
    · exact (hin w hw).fps e he
  · rintro file ⟨h1, h2⟩
    obtain ⟨w, rfl⟩ := List.mem_iff_get.1 (upToFailure_subset files file h1)
    exact hk w h2

theorem Independent.inParallel (h : Independent files before) (hp : InParallel files before after) :
    Together (fun w : Fin files.length => (files.get w).task) (fun w => (files.get w).fate.stores = true) before after := by
  obtain ⟨order, _, horder, rfl⟩ := hp.order
  have heq : (· ∈ order) = fun w => (files.get w).fate.stores = true := funext fun w => propext (horder w)
  rw [← heq]
  exact together_inTurn (fun v hv w hw he => h.same _ (List.get_mem ..) _ (List.get_mem ..) ((horder v).1 hv)
    ((horder w).1 hw) he) before

variable (before) in
/-- The file that is stored last is in the database. -/
theorem inDatabase_last (w : Fin files.length) (hw : (files.get w).fate.stores = true) :
    ∃ after, InParallel files before after ∧ InDatabase (files.get w).task after := by
  have hnodup : ((List.finRange files.length).erase w ++ [w]).Nodup := by
    refine List.nodup_append.2 ⟨(List.nodup_finRange _).erase w, List.nodup_singleton w, fun v hv u hu he => ?_⟩
    rw [he, List.mem_singleton.1 hu] at hv
    exact (List.nodup_finRange _).not_mem_erase hv
  have hall : ∀ v, v ∈ (List.finRange files.length).erase w ++ [w] := by
    intro v
    by_cases hv : v = w
    · simp [hv]
    · exact List.mem_append_left _ ((List.mem_erase_of_ne hv).2 (List.mem_finRange v))
  refine ⟨_, inParallel_of_order hnodup hall, ?_⟩
  have hlast : ([w].filter fun w => (files.get w).fate.stores) = [w] := by rw [List.filter_singleton, hw, cond_true]
  rw [List.filter_append, hlast, inTurn_concat]
  constructor
  · intro e he
    exact mem_storedIn.2 (Or.inl he)
  · rw [storedIn_resourceMap, Function.update_self]

/-- **When the number of threads makes no difference.** -/
theorem same_files_iff (files : List File) (before : Folder) :
    SameFiles files before ↔ files.length ≤ 1 ∨ Independent files before := by
  have hone : ∀ after, Leaves files 1 before after ↔ after = inSequence files before := fun after => by
    rw [Leaves, if_pos (by omega)]
  constructor
  · intro h
    by_cases hlen : files.length ≤ 1
    · exact Or.inl hlen
    have hpool : ∀ after, InParallel files before after → ∀ w : Fin files.length,
        (InDatabase (files.get w).task (inSequence files before) ↔ InDatabase (files.get w).task after) := by
      intro after hp w
      refine h 2 (by omega) _ after ((hone _).2 rfl) ?_ _ (List.get_mem ..)
      rw [Leaves, if_neg (by omega)]
      exact hp
    have hsame : SameMetaData files := by
      intro file hfile file' hfile' hs hs' he
      obtain ⟨v, rfl⟩ := List.mem_iff_get.1 hfile
      obtain ⟨w, rfl⟩ := List.mem_iff_get.1 hfile'
      -- both are in what the order with the first of them at the end leaves
      obtain ⟨after, hp, hv⟩ := inDatabase_last before v hs
      obtain ⟨after', hp', hw⟩ := inDatabase_last before w hs'
      have hw := (hpool after hp w).1 ((hpool after' hp' w).2 hw)
      have hmeta := hv.metaData
      rw [he, hw.metaData, Option.some.injEq] at hmeta
      exact hmeta.symm
    refine Or.inr ⟨hsame, fun pre file post hsplit _ hs => ?_⟩
    have hfile : file ∈ files := by simp [hsplit]
    rw [alreadyThere_iff hsame hfile hs, ← inSequence_eq]
    obtain ⟨w, rfl⟩ := List.mem_iff_get.1 hfile
    obtain ⟨after, hp, hin⟩ := inDatabase_last before w hs
    exact (hpool after hp w).2 hin
  · intro h numThreads hthreads f f' hf hf' file _
    rw [(hone f).1 hf]
    unfold Leaves at hf'
    split at hf'
    · rw [hf']
    · rename_i hseveral
      have hi : Independent files before := h.resolve_left fun hlen => by omega
      rw [hi.inSequence.unique (hi.inParallel hf')]

end Agree

/-- The first file cannot be converted: with one thread the second one is not stored. -/
theorem failingFirst_differs : ¬ SameFiles [⟨twoTasks true, .failed⟩, ⟨twoTasks false, .stored⟩] emptyFolder := by
  intro h
  let files : List File := [⟨twoTasks true, .failed⟩, ⟨twoTasks false, .stored⟩]
  let second : Fin files.length := 1
  obtain ⟨after, hp, hin⟩ := inDatabase_last emptyFolder second rfl
  have hseq := (h 2 (by decide) emptyFolder after rfl hp ⟨twoTasks false, .stored⟩ (by simp)).2 hin
  cases hseq.metaData

end Olaf.ParallelStore
