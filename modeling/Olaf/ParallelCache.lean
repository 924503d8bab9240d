import Olaf.Library.Workers
import Olaf.Caching
import Olaf.Repeats
/-!
# Caching in parallel (`olaf cache --threads n`, `olaf_cli_cmd_cache.zig`)

| here | there |
| --- | --- |
| `createTempRawPath` | `:58`, the command's own copy; `olaf_cli_threading.zig:45` has the one with a counter |
| `cacheFilePath`     | the name of the cache file (`:93`) |
| `Files`             | the raw audio files under the temporary folder and the `.tdb` files under the cache folder |
| `Phase`, `step`     | a task of the pool: `cacheAudioFile` (`:72`) |

A raw audio file stands for the frames that the reader makes of it. `ffmpeg` is called with `-y` and replaces a file
that is there; a conversion that fails may leave anything behind, which the deferred `deleteFile` removes as it removes
every other raw file. `olaf_print_to_file` (`olaf_cli_bridge.c:474`) opens the cache file first, so that nothing but an
empty file is left when the raw audio is gone.

The temporary path has the milliseconds of the clock in it and nothing else. `Unmixed` is kept as long as no worker
chooses a path that another one still uses (`cached_own`); two workers that choose in one millisecond share a raw file,
and one of them caches the fingerprints of the other's audio (`sameMillisecond_mixes`).
-/

namespace Olaf.ParallelCache
open CText EpExtractor Sorting StreamProcessor

/-- A path has the milliseconds of the clock in its name. -/
def createTempRawPath (tmpDir : List Char) (milliTimestamp : Int) : List Char :=
  tmpDir ++ "olaf_raw_audio_cache".toList ++ "/olaf_audio_".toList ++ formatInt milliTimestamp ++ ".raw".toList

def cacheFilePath (cacheFolder : List Char) (audioId : UInt32) : List Char :=
  cacheFolder ++ "/".toList ++ Nat.toDigits 10 audioId.toNat ++ ".tdb".toList

/-- What the workers have in common. -/
structure Setting (V : Type) [Sample V] where
  cfg : Config V
  q : QSort (EventPoint V) EventPoint.timeIndex
  fmt : MagnitudeFormat V
  tmpDir : List Char
  cacheFolder : List Char

/-- An audio file: its identifier and its decoded audio. -/
structure Task (V : Type) where
  audioId : UInt32
  frames : List (Frame V)

structure Files (V : Type) where
  raw : List Char → Option (List (Frame V))
  tdb : List Char → Option (List Char)

inductive Phase
  /-- Up to `access`. -/
  | starting
  /-- There is no cache file yet. -/
  | missing
  | chosen (rawAudioPath : List Char)
  | converted (rawAudioPath : List Char)
  | failed (rawAudioPath : List Char)
  | cached (rawAudioPath : List Char)
  /-- Whether it has written its cache file. -/
  | ended (written : Bool)

inductive Action (V : Type)
  | access
  | choose (milliTimestamp : Int)
  | convert
  /-- The conversion fails; what it leaves behind. -/
  | fail (left : Option (List (Frame V)))
  | print
  | delete

section Model
variable {V : Type} [Sample V] {W : Type}

/-- The text of a cache file. -/
def Setting.tdbText (c : Setting V) (frames : List (Frame V)) : List Char :=
  FpDbWriterCache.written c.fmt (handed c.cfg c.q .cache frames)

def Setting.cacheFile (c : Setting V) (t : Task V) : List Char := cacheFilePath c.cacheFolder t.audioId

/-- `olaf_print_to_file`, given the raw audio if there is one. -/
def Setting.printed (c : Setting V) (raw : Option (List (Frame V))) : List Char :=
  match raw with
  | some frames => c.tdbText frames
  | none => [] -- the stream processor is `NULL`

def step (c : Setting V) (task : W → Task V) (w : W) : Action V → Files V → Phase → Option (Files V × Phase)
  | .access, s, .starting => some (s, if (s.tdb (c.cacheFile (task w))).isSome then .ended false else .missing)
  | .choose milliTimestamp, s, .missing => some (s, .chosen (createTempRawPath c.tmpDir milliTimestamp))
  | .convert, s, .chosen path => some ({ s with raw := Function.update s.raw path (some (task w).frames) }, .converted path)
  | .fail left, s, .chosen path => some ({ s with raw := Function.update s.raw path left }, .failed path)
  | .print, s, .converted path =>
    some ({ s with tdb := Function.update s.tdb (c.cacheFile (task w)) (some (c.printed (s.raw path))) }, .cached path)
  | .delete, s, .cached path => some ({ s with raw := Function.update s.raw path none }, .ended true)
  | .delete, s, .failed path => some ({ s with raw := Function.update s.raw path none }, .ended false)
  | _, _, _ => none

def workers (c : Setting V) (task : W → Task V) : Workers W (Action V) (Files V) Phase := ⟨step c task⟩

def start (W : Type) (files : Files V) : Workers.State W (Files V) Phase := ⟨files, fun _ => .starting⟩

/-- The path that a worker has chosen, until it deletes the file. -/
def Phase.rawAudioPath : Phase → Option (List Char)
  | .chosen path | .converted path | .failed path | .cached path => some path
  | .starting | .missing | .ended _ => none

/-- It has written its cache file. -/
def Phase.hasCached : Phase → Bool
  | .cached _ => true
  | .ended written => written
  | .starting | .missing | .chosen _ | .converted _ | .failed _ => false

/-- What a cache file has to hold. -/
def OwnText (c : Setting V) (task : W → Task V) (s : Workers.State W (Files V) Phase) : Prop :=
  ∀ w, (s.phase w).hasCached = true → s.shared.tdb (c.cacheFile (task w)) = some (c.tdbText (task w).frames)

/-- No other worker uses the path that a worker chooses. -/
def Unused (c : Setting V) (s : Workers.State W (Files V) Phase) (x : W × Action V) : Prop :=
  ∀ milliTimestamp, x.2 = .choose milliTimestamp →
    ∀ v, v ≠ x.1 → (s.phase v).rawAudioPath ≠ some (createTempRawPath c.tmpDir milliTimestamp)

/-- It is the text that a run in this mode writes. -/
theorem tdbText_process (c : Setting V) (audio : Audio V) (id : UInt32) (db : Db) :
    (process c.cfg c.q c.fmt .cache audio id db).map Outcome.cacheFile = some (c.tdbText audio.frames) := by
  rw [process_cached c.cfg c.q c.fmt rfl (by decide)]
  rfl

/-! ## One step -/

/-- What a step can do. -/
inductive Moves (c : Setting V) (t : Task V) : Action V → Files V → Phase → Files V → Phase → Prop
  | skip (s : Files V) : Moves c t .access s .starting s (.ended false)
  | missing (s : Files V) : Moves c t .access s .starting s .missing
  | choose (s : Files V) (ms : Int) : Moves c t (.choose ms) s .missing s (.chosen (createTempRawPath c.tmpDir ms))
  | convert (s : Files V) (path : List Char) :
    Moves c t .convert s (.chosen path) ⟨Function.update s.raw path (some t.frames), s.tdb⟩ (.converted path)
  | fail (s : Files V) (path : List Char) (left : Option (List (Frame V))) :
    Moves c t (.fail left) s (.chosen path) ⟨Function.update s.raw path left, s.tdb⟩ (.failed path)
  | print (s : Files V) (path : List Char) :
    Moves c t .print s (.converted path) ⟨s.raw, Function.update s.tdb (c.cacheFile t) (some (c.printed (s.raw path)))⟩
      (.cached path)
  | deleteCached (s : Files V) (path : List Char) :
    Moves c t .delete s (.cached path) ⟨Function.update s.raw path none, s.tdb⟩ (.ended true)
  | deleteFailed (s : Files V) (path : List Char) :
    Moves c t .delete s (.failed path) ⟨Function.update s.raw path none, s.tdb⟩ (.ended false)

theorem step_moves {c : Setting V} {task : W → Task V} {w : W} {a : Action V} {s s' : Files V} {p p' : Phase}
    (h : step c task w a s p = some (s', p')) : Moves c (task w) a s p s' p' := by
  unfold step at h
  split at h
  · by_cases hfile : (s.tdb (c.cacheFile (task w))).isSome
    · rw [if_pos hfile] at h
      cases h
      exact .skip s
    · rw [if_neg hfile] at h
      cases h
      exact .missing s
  · cases h
    exact .choose s _
  · cases h
    exact .convert s _
  · cases h
    exact .fail s _ _
  · cases h
    exact .print s _
  · cases h
    exact .deleteCached s _
  · cases h
    exact .deleteFailed s _
  · cases h

/-! ## The invariant -/

/-- Paths in use are apart, and what a worker has written is its own. -/
structure Unmixed (c : Setting V) (task : W → Task V) (files : Files V) (phase : W → Phase) : Prop where
  apart : ∀ v w path, v ≠ w → (phase v).rawAudioPath = some path → (phase w).rawAudioPath ≠ some path
  raw : ∀ w path, phase w = .converted path → files.raw path = some (task w).frames
  tdb : ∀ w, (phase w).hasCached = true → files.tdb (c.cacheFile (task w)) = some (c.tdbText (task w).frames)

theorem unmixed_start (c : Setting V) (task : W → Task V) (files : Files V) :
    Unmixed c task (start W files).shared (start W files).phase := by
  constructor
  · intro v w path _ h
    cases h
  · intro w path h
    cases h
  · intro w h
    cases h

omit [Sample V] in
/-- A step on the own raw file is not seen under another path. -/
theorem raw_elsewhere {raw : List Char → Option (List (Frame V))} {p : Phase} {path other : List Char}
    (hp : p.rawAudioPath = some path) (hother : p.rawAudioPath ≠ some other) (left : Option (List (Frame V))) :
    Function.update raw path left other = raw other :=
  Function.update_of_ne (fun he => hother (hp.trans (congrArg some he.symm))) _ _

section Step
variable {c : Setting V} {task : W → Task V} {files files' : Files V} {phase : W → Phase} {w : W} {p' : Phase} [DecidableEq W]

/-- A step that takes no path of another worker and changes its own files only. -/
theorem Unmixed.update (h : Unmixed c task files phase)
    (hpath : ∀ path, p'.rawAudioPath = some path → ∀ v, v ≠ w → (phase v).rawAudioPath ≠ some path)
    (hraw : ∀ path, (phase w).rawAudioPath ≠ some path → files'.raw path = files.raw path)
    (hown : ∀ path, p' = .converted path → files'.raw path = some (task w).frames)
    (htdb : ∀ v, v ≠ w → files'.tdb (c.cacheFile (task v)) = files.tdb (c.cacheFile (task v)))
    (hcached : p'.hasCached = true → files'.tdb (c.cacheFile (task w)) = some (c.tdbText (task w).frames)) :
    Unmixed c task files' (Function.update phase w p') := by
  constructor
  · intro u v path huv hu
    by_cases hv : v = w
    · subst hv
      rw [Function.update_of_ne huv] at hu
      rw [Function.update_self]
      exact fun hp' => hpath path hp' u huv hu
    · rw [Function.update_of_ne hv]
      by_cases huw : u = w
      · subst huw
        rw [Function.update_self] at hu
        exact hpath path hu v hv
      · rw [Function.update_of_ne huw] at hu
        exact h.apart u v path huv hu
  · refine (Function.forall_update_iff phase fun v p => ∀ path, p = .converted path →
      files'.raw path = some (task v).frames).2 ⟨hown, fun v hv path hp => ?_⟩
    rw [hraw path (h.apart v w path hv (by rw [hp]; rfl))]
    exact h.raw v path hp
  · refine (Function.forall_update_iff phase fun v p => p.hasCached = true →
      files'.tdb (c.cacheFile (task v)) = some (c.tdbText (task v).frames)).2 ⟨hcached, fun v hv hp => ?_⟩
    rw [htdb v hv]
    exact h.tdb v hp

/-- A step keeps the invariant, if it chooses a path that no other worker uses. -/
theorem Unmixed.step (h : Unmixed c task files phase)
    (hnames : ∀ v w, v ≠ w → c.cacheFile (task v) ≠ c.cacheFile (task w)) {a : Action V}
    (hm : Moves c (task w) a files (phase w) files' p') (hunused : Unused c ⟨files, phase⟩ (w, a)) :
    Unmixed c task files' (Function.update phase w p') := by
  have hkeep : ∀ path, (phase w).rawAudioPath = some path → ∀ v, v ≠ w → (phase v).rawAudioPath ≠ some path :=
    fun path hw v hv => h.apart w v path hv.symm hw
  have hraw := h.raw w
  have hdone := h.tdb w
  generalize hp : phase w = p at hm hkeep hraw hdone
  cases hm with
  | skip | missing =>
    refine h.update ?_ ?_ ?_ ?_ ?_ <;> simp [Phase.rawAudioPath, Phase.hasCached]
  | choose _ ms =>
    refine h.update ?_ ?_ ?_ ?_ ?_
    · intro path hpath
      cases hpath
      exact hunused ms rfl
    all_goals simp [Phase.hasCached]
  | convert _ path =>
    refine h.update hkeep (fun other hother => ?_) (fun other hother => ?_) (fun _ _ => rfl) (fun h => by cases h)
    · exact raw_elsewhere (hp ▸ rfl) hother _
    · cases hother
      exact Function.update_self ..
  | fail _ path left =>
    refine h.update hkeep (fun other hother => ?_) (fun other hother => by cases hother) (fun _ _ => rfl) (fun h => by cases h)
    exact raw_elsewhere (hp ▸ rfl) hother _
  | print _ path =>
    refine h.update hkeep (fun _ _ => rfl) (fun other hother => by cases hother) (fun v hv => ?_) fun _ => ?_
    · exact Function.update_of_ne (hnames v w hv) _ _
    · rw [hraw path rfl]
      exact Function.update_self ..
  | deleteCached _ path =>
    refine h.update (fun _ hother => by cases hother) (fun other hother => ?_) (fun other hother => by cases hother)
      (fun _ _ => rfl) fun _ => hdone rfl
    exact raw_elsewhere (hp ▸ rfl) hother _
  | deleteFailed _ path =>
    refine h.update (fun _ hother => by cases hother) (fun other hother => ?_) (fun other hother => by cases hother)
      (fun _ _ => rfl) fun h => by cases h
    exact raw_elsewhere (hp ▸ rfl) hother _

/-- **No file is mixed up as long as no worker chooses a path in use.** -/
theorem cached_own (c : Setting V) (task : W → Task V)
    (hnames : ∀ v w, v ≠ w → c.cacheFile (task v) ≠ c.cacheFile (task w)) (before : Files V)
    (schedule : List (W × Action V)) (s : Workers.State W (Files V) Phase)
    (hunused : (workers c task).Meets (Unused c) (start W before) schedule)
    (hrun : (workers c task).run (start W before) schedule = some s) : OwnText c task s := by
  have h := Workers.run_keeps_of (I := fun s => Unmixed c task s.shared s.phase) (C := Unused c) (fun s x s' hs hc hn => ?_)
    (unmixed_start c task before) hunused hrun
  · exact h.tdb
  · obtain ⟨w, a⟩ := x
    obtain ⟨files', p', hstep, rfl⟩ := Workers.next_cases hn
    exact hs.step hnames (step_moves hstep) hc

end Step

end Model

/-! ## Two workers -/

/-- The raw files of two workers are one file if they choose in the same millisecond. -/
theorem createTempRawPath_inj {tmpDir : List Char} {ms ms' : Int} :
    createTempRawPath tmpDir ms = createTempRawPath tmpDir ms' ↔ ms = ms' := by
  simp only [createTempRawPath, List.append_assoc, List.append_cancel_left_eq, List.append_cancel_right_eq, ← formatInt_inj]

def twoSetting : Setting ℚ :=
  ⟨.default ℚ, .insertion _ _, FpDbWriterCache.sixDecimals, "/tmp/".toList, "/cache".toList⟩

/-- The audio of worker `false` has fingerprints that are cached, that of worker `true` is empty. -/
def twoTasks : Bool → Task ℚ
  | false => ⟨1, (busyAfter 39).map impulses⟩
  | true => ⟨2, []⟩

/-- Each step is taken by worker `false` first; the clock reads `ms` and `ms'`. -/
def twoTasks_schedule (ms ms' : Int) : List (Bool × Action ℚ) :=
  [.access, .choose ms].map (false, ·) ++ [.access, .choose ms'].map (true, ·) ++
    [(false, .convert), (true, .convert), (false, .print), (true, .print), (false, .delete), (true, .delete)]

def noFiles : Files ℚ := ⟨fun _ => none, fun _ => none⟩

theorem twoTasks_names (v w : Bool) (h : v ≠ w) : twoSetting.cacheFile (twoTasks v) ≠ twoSetting.cacheFile (twoTasks w) := by
  cases v <;> cases w <;> first | exact absurd rfl h | decide

theorem written_header {V : Type} (fmt : MagnitudeFormat V) {batches : List (List (Fingerprint V))}
    (h : FpDbWriterCache.written fmt batches = FpFileWriter.header) : batches.flatten = [] := by
  rw [FpDbWriterCache.written, FpFileWriter.write_all, eq_comm, List.self_eq_append_right, List.flatMap_eq_nil_iff] at h
  refine List.eq_nil_iff_forall_not_mem.2 fun f hf => ?_
  have := h f hf
  simp [FpFileWriter.row] at this

theorem twoTasks_unused : (workers twoSetting twoTasks).Meets (Unused twoSetting) (start Bool noFiles) (twoTasks_schedule 1000 1001) := by
  have hother : ∀ {s : Workers.State Bool (Files ℚ) Phase} {w : Bool} {a : Action ℚ}, (∀ ms, a ≠ .choose ms) →
      Unused twoSetting s (w, a) := fun h ms hms => absurd hms (h ms)
  refine Workers.meets_cons rfl (hother (by simp)) <| Workers.meets_cons rfl (fun ms h v hv => ?_) <|
    Workers.meets_cons rfl (hother (by simp)) <| Workers.meets_cons rfl (fun ms h v hv => ?_) <|
    Workers.meets_cons rfl (hother (by simp)) <| Workers.meets_cons rfl (hother (by simp)) <|
    Workers.meets_cons rfl (hother (by simp)) <| Workers.meets_cons rfl (hother (by simp)) <|
    Workers.meets_cons rfl (hother (by simp)) <| Workers.meets_cons rfl (hother (by simp)) trivial
  · cases h
    cases v with
    | false => exact absurd rfl hv
    | true => exact fun h => nomatch h
  · cases h
    cases v with
    | false =>
      show some (createTempRawPath _ 1000) ≠ some (createTempRawPath _ 1001)
      rw [Ne, Option.some.injEq, createTempRawPath_inj]
      decide
    | true => exact absurd rfl hv

/-- One millisecond apart, each has its own raw file. -/
theorem cached_own_twoTasks : ∃ s,
    (workers twoSetting twoTasks).run (start Bool noFiles) (twoTasks_schedule 1000 1001) = some s ∧
      (∀ w, (s.phase w).hasCached = true) ∧ OwnText twoSetting twoTasks s := by
  refine ⟨_, rfl, fun w => ?_, cached_own _ _ twoTasks_names noFiles _ _ twoTasks_unused rfl⟩
  cases w <;> rfl

/-- **Two workers that choose in one millisecond mix their files.** -/
theorem sameMillisecond_mixes :
    (∀ v w, v ≠ w → twoSetting.cacheFile (twoTasks v) ≠ twoSetting.cacheFile (twoTasks w)) ∧
    ¬ ∀ schedule s, (workers twoSetting twoTasks).run (start Bool noFiles) schedule = some s →
      OwnText twoSetting twoTasks s := by
  refine ⟨twoTasks_names, fun h => ?_⟩
  have hown := h (twoTasks_schedule 1000 1000) _ rfl false rfl
  have hother : twoSetting.tdbText (twoTasks true).frames = twoSetting.tdbText (twoTasks false).frames := by
    refine Option.some.inj (Eq.trans ?_ hown)
    rfl
  have hnil := written_header _ hother.symm
  rw [handed_written _ _ rfl] at hnil
  simp only [twoTasks, twoSetting, detected_impulses] at hnil
  revert hnil
  decide +kernel

end Olaf.ParallelCache
