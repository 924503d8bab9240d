import Olaf.MetaFile
/-!
# Storing an identifier and finding it again

| here | there |
| --- | --- |
| `storeProcessed` | the end of a run in mode `STORE` (`olaf_stream_processor.c:207-219`) |
| `cacheStore`     | the end of `olaf_fp_db_writer_cache_store` (`olaf_fp_db_writer_cache.c:141-149`) |
| `Route`          | the two ways to the database: `olaf store`, and `olaf cache` with `olaf store_cached` |
| `storeIdentifier` | what they do for an identifier |

On its way to the table an identifier goes through a copy to the 512 bytes of a record at every stage, and none of them looks
at its length. The first copy is the one that overflows, since behind it the identifier is in a record (`kept_iff`): an
identifier has to be shorter than 512 bytes, which is what the comment at the field says and no caller makes sure of.
-/

namespace Olaf.StoredMetaData
open Checked CStr MetaData MetaFile ParallelQuery

variable {V : Type}

def storeProcessed (metaData r : Record V) (t : Table V) (audioIdentifier : UInt32) (origPath : Option (Buffer UInt8))
    (audioDuration : V) (total : Nat) : Option (Table V) := do
  let metaData ← processedMetaData metaData origPath audioDuration total
  storeMetaData r t audioIdentifier metaData

def cacheStore (metaData r : Record V) (t : Table V) (audioFileIdentifier : UInt64) (audioFilename : Buffer UInt8)
    (approximateDuration : V) (fpCounter : Nat) : Option (Table V) := do
  let metaData ← metaData.setPath audioFilename
  storeMetaData r t audioFileIdentifier.toUInt32 { metaData with duration := approximateDuration, fingerprints := long fpCounter }

/-- For an identifier from the cache, the run that cached it: what its record was before, its duration and its count. -/
inductive Route (V : Type)
  | direct
  | cached (metaData : Record V) (audioDuration : V) (total : Nat)

/-- `duration` and `count` are those of the run that stores, and `metaData` and `r` what its records are before they are set.
A meta file that cannot be read or has no path is left out. -/
def storeIdentifier (fmt : SecondsFormat V) (char : UInt8 → UInt32) (metaData r : Record V) (t : Table V) (s : CStr)
    (duration : V) (count : Nat) : Route V → Option (Table V)
  | .direct => storeProcessed metaData r t (identifierId char s.bytes) (some (dupeZ s.bytes)) duration count
  | .cached cachedData audioDuration total => do
    let file ← cacheProcessed fmt cachedData (some (dupeZ s.bytes)) audioDuration total
    match readMetaPath file with
    | some (some path) => cacheStore metaData r t (identifierId char path).toUInt64 (dupeZ path) duration count
    | _ => return t

/-- No copy leaves its array, and until the next call for this number the table has what was stored. -/
def Kept (fmt : SecondsFormat V) (char : UInt8 → UInt32) (s : CStr) (route : Route V) : Prop :=
  ∀ (metaData r : Record V) (t : Table V) (duration : V) (count : Nat),
    Returns (storeIdentifier fmt char metaData r t s duration count route) fun t' =>
      ∀ (ops : List (Op V)) (t'' : Table V), (∀ op ∈ ops, op.key ≠ identifierId char s.bytes) → run ops t' = some t'' →
        hasMetaData t'' (identifierId char s.bytes) = true ∧
        ∀ value, Returns (findMetaData t'' (identifierId char s.bytes) value) fun e =>
          text (pathBuffer e.path) = s.bytes ∧ e.duration = duration ∧ e.fingerprints = long count

/-- Only an identifier that is plain comes back from its meta file. -/
def Route.Keeps (s : CStr) : Route V → Prop
  | .direct => True
  | .cached .. => Plain s

variable {fmt : SecondsFormat V} {char : UInt8 → UInt32} {s : CStr} {metaData r : Record V} {t : Table V} {duration : V}
  {count : Nat}

/-! ## The two ends -/

theorem storeProcessed_returns (key : UInt32) (hroom : s.bytes.length < pathSize) :
    Returns (storeProcessed metaData r t key (some (dupeZ s.bytes)) duration count) fun t' => ∃ r' : Record V,
      t' = Function.update t key (some r') ∧ r'.Says s duration (long count) :=
  (processed_returns metaData (holds_dupeZ s) hroom duration count).bind fun _ h => store_returns r t key h

variable (metaData duration count) in
theorem cacheStore_returns (id : UInt64) (hroom : s.bytes.length < pathSize) :
    Returns (cacheStore metaData r t id (dupeZ s.bytes) duration count) fun t' => ∃ r' : Record V,
      t' = Function.update t id.toUInt32 (some r') ∧ r'.Says s duration (long count) := by
  refine (Record.setPath_returns (holds_dupeZ s) hroom).bind fun m hm => ?_
  exact store_returns r t id.toUInt32 ⟨hm.1, rfl, rfl⟩

variable (fmt char metaData duration count) in
/-- The path that is read is stored under its own number. -/
theorem storeIdentifier_cached (cachedData : Record V) (audioDuration : V) (total : Nat) (hroom : s.bytes.length < pathSize) :
    Returns (storeIdentifier fmt char metaData r t s duration count (.cached cachedData audioDuration total)) fun t' =>
      if metaPath s.bytes = [] then t' = t
      else ∃ r' : Record V, t' = Function.update t (identifierId char (metaPath s.bytes)) (some r') ∧
        r'.Says ⟨metaPath s.bytes, fun c hc => s.nonzero c (mem_of_mem_metaPath hc)⟩ duration (long count) := by
  obtain ⟨m, hm, hsaid⟩ := processed_returns cachedData (holds_dupeZ s) hroom audioDuration total
  have hlength : (metaPath s.bytes).length < pathSize := Nat.lt_of_le_of_lt (metaPath_length s.bytes) hroom
  rw [storeIdentifier, cacheProcessed, hm]
  dsimp only [Option.bind_eq_bind, Option.bind_some, Option.pure_def]
  rw [readMetaPath_destroy fmt hsaid]
  by_cases hnil : metaPath s.bytes = []
  · rw [if_pos hnil]
    refine Returns.pure ?_
    rw [if_pos hnil]
  · rw [if_neg hnil]
    have hstore := cacheStore_returns metaData duration count (r := r) (t := t)
      (s := ⟨metaPath s.bytes, fun c hc => s.nonzero c (mem_of_mem_metaPath hc)⟩)
      (identifierId char (metaPath s.bytes)).toUInt64 hlength
    rw [UInt32.toUInt32_toUInt64] at hstore
    refine hstore.mono fun t' ht' => ?_
    rw [if_neg hnil]
    exact ht'

theorem storeIdentifier_overflow (hfull : pathSize ≤ s.bytes.length) (route : Route V) :
    storeIdentifier fmt char metaData r t s duration count route = none := by
  cases route with
  | direct =>
    rw [storeIdentifier, storeProcessed, processed_overflow (holds_dupeZ s) hfull]
    rfl
  | cached cachedData audioDuration total =>
    rw [storeIdentifier, cacheProcessed, processed_overflow (holds_dupeZ s) hfull]
    rfl

/-! ## What is found afterwards -/

/-- What was stored stays, whatever happens to other numbers. -/
theorem found_after {t' t'' : Table V} {key : UInt32} {r' : Record V} {ops : List (Op V)}
    (hget : t' key = some r') (hsaid : r'.Says s duration (long count)) (hkeys : ∀ op ∈ ops, op.key ≠ key)
    (hrun : run ops t' = some t'') : hasMetaData t'' key = true ∧ ∀ value, Returns (findMetaData t'' key value) fun e =>
      text (pathBuffer e.path) = s.bytes ∧ e.duration = duration ∧ e.fingerprints = long count := by
  have hother := run_other hkeys hrun
  rw [hget] at hother
  refine ⟨by rw [hasMetaData, hother]; rfl, fun value => ?_⟩
  exact (find_returns hother hsaid value).mono fun e he => ⟨he.path.text, he.duration, he.fingerprints⟩

theorem storeIdentifier_returns {route : Route V} (hroom : s.bytes.length < pathSize) (hroute : route.Keeps s) :
    Returns (storeIdentifier fmt char metaData r t s duration count route) fun t' => ∃ r' : Record V,
      t' = Function.update t (identifierId char s.bytes) (some r') ∧ r'.Says s duration (long count) := by
  cases route with
  | direct => exact storeProcessed_returns _ hroom
  | cached cachedData audioDuration total =>
    obtain ⟨hne, heq⟩ := plain_iff.1 hroute
    refine (storeIdentifier_cached fmt char metaData duration count cachedData audioDuration total hroom).mono fun t' ht' => ?_
    simp only [heq] at ht'
    rw [if_neg hne] at ht'
    exact ht'

/-- In an empty table what is found for the number is the path that was read. -/
theorem kept_plain [Inhabited V] {cachedData : Record V} {audioDuration : V} {total : Nat}
    (h : Kept fmt char s (.cached cachedData audioDuration total)) (hroom : s.bytes.length < pathSize) : Plain s := by
  obtain ⟨t', hrun, hfound⟩ := h ⟨default, 0, fun _ => 0⟩ ⟨default, 0, fun _ => 0⟩ (fun _ => none) default 0
  obtain ⟨hhas, hfind⟩ := hfound [] t' nofun rfl
  obtain ⟨_, hrun', hput⟩ := storeIdentifier_cached fmt char ⟨default, 0, fun _ => 0⟩ default 0 cachedData audioDuration total
    hroom (r := ⟨default, 0, fun _ => 0⟩) (t := fun _ => none)
  obtain rfl := Option.some.inj (hrun'.symm.trans hrun)
  by_cases hnil : metaPath s.bytes = []
  · rw [if_pos hnil] at hput
    rw [hasMetaData, hput] at hhas
    cases hhas
  · rw [if_neg hnil] at hput
    obtain ⟨r', rfl, hsaid⟩ := hput
    by_cases hkey : identifierId char s.bytes = identifierId char (metaPath s.bytes)
    · rw [hkey] at hfind
      obtain ⟨e, he, htext, _⟩ := hfind r'
      obtain ⟨e', he', hsaid'⟩ := find_returns (Function.update_self ..) hsaid r'
      obtain rfl := Option.some.inj (he'.symm.trans he)
      have heq := hsaid'.path.text.symm.trans htext
      exact plain_iff.2 ⟨fun h => hnil (heq.trans h), heq⟩
    · rw [hasMetaData, Function.update_of_ne hkey] at hhas
      cases hhas

theorem kept_short [Inhabited V] {route : Route V} (h : Kept fmt char s route) : s.bytes.length < pathSize := by
  by_contra hfull
  obtain ⟨t', hrun, _⟩ := h ⟨default, 0, fun _ => 0⟩ ⟨default, 0, fun _ => 0⟩ (fun _ => none) default 0
  rw [storeIdentifier_overflow (by omega)] at hrun
  cases hrun

/-- **An identifier is stored and found again iff it is shorter than 512 bytes**, and plain when it comes from the cache. -/
theorem kept_iff [Inhabited V] (fmt : SecondsFormat V) (char : UInt8 → UInt32) (s : CStr) (route : Route V) :
    Kept fmt char s route ↔ s.bytes.length < pathSize ∧ route.Keeps s := by
  constructor
  · intro h
    refine ⟨kept_short h, ?_⟩
    cases route with
    | direct => trivial
    | cached cachedData audioDuration total => exact kept_plain h (kept_short h)
  · rintro ⟨hroom, hroute⟩ metaData r t duration count
    refine (storeIdentifier_returns hroom hroute).mono ?_
    rintro t' ⟨r', rfl, hsaid⟩ ops t'' hkeys hrun
    exact found_after (Function.update_self ..) hsaid hkeys hrun

/-- An identifier of 512 letters leaves the record that it is copied to. -/
theorem longIdentifier_not_kept : ¬ ∀ (fmt : SecondsFormat UInt32) (char : UInt8 → UInt32) (s : CStr) (route : Route UInt32),
    Kept fmt char s route := by
  intro h
  have hshort := kept_short (h milliseconds UInt8.toUInt32 ⟨List.replicate 512 97, ?_⟩ .direct)
  · rw [List.length_replicate] at hshort
    exact absurd hshort (by decide)
  · intro c hc
    rw [List.eq_of_mem_replicate hc]
    decide

end Olaf.StoredMetaData
