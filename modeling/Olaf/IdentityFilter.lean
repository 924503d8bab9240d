import Mathlib.Data.List.Basic
import Olaf.ParallelQuery
/-!
# Leaving out self-matches (`executeParallel` with `allow_identity_match = false`)

| here | there |
| --- | --- |
| `stringHash`, `identifierId` | `olaf_db_string_hash` and `olaf_db_identifier_id` (`olaf_db.c:122`, `:144`) |
| `cString` | `dupeZ` and `strlen`: the bytes up to the first zero |
| `nameToId` | `olaf_name_to_id` (`olaf_cli_bridge.c:496`) |
| `audioIdentifier` | the identifier that `olaf_stream_processor_new` stores under (`olaf_stream_processor.c:59`) |
| `excludeIdentifier`, `queries` | the queries of `executeParallel` (`olaf_cli_threading.zig:112`), which sets the context of each |
| `reported` | the results of the matcher that a query prints |

Whether a `char` has a sign is up to the platform, so its value is an argument of the hash. Each query sets all of its
thread's context before it runs, on whatever thread that is.

`0` in the context stands for no filter, and it is the number of an identifier as well: of `0`, and of the empty one.
`self_filtered_iff` says when that does no harm.
-/

namespace Olaf.ParallelQuery
open QueryPrint

/-! ## The number of an identifier -/

section Identifier
variable (char : UInt8 → UInt32)

/-- One byte of the hash. -/
def stringHashByte (hash : UInt32) (c : UInt8) : UInt32 :=
  let hash := hash + char c
  let hash := hash + (hash <<< 10)
  hash ^^^ (hash >>> 6)

def stringHash (key : List UInt8) : UInt32 :=
  let hash := key.foldl (stringHashByte char) 0
  let hash := hash + (hash <<< 3)
  let hash := hash ^^^ (hash >>> 11)
  hash + (hash <<< 15)

/-- The loop over the digits; `none` where the number of an identifier is its hash. -/
def decimalValue : List UInt8 → (value : Nat) → Option Nat
  | [], value => some value
  | c :: rest, value =>
    if c < 48 ∨ c > 57 then none
    else
      let value := value * 10 + (c.toNat - 48)
      if value > 0xFFFFFFFF then none else decimalValue rest value

def identifierId (identifier : List UInt8) : UInt32 :=
  if identifier.length = 0 then stringHash char identifier
  else if identifier.length > 1 ∧ identifier[0]? = some 48 then stringHash char identifier
  else if identifier.length > 10 then stringHash char identifier
  else
    match decimalValue identifier 0 with
    | some value => UInt32.ofNat value
    | none => stringHash char identifier

def cString (bytes : List UInt8) : List UInt8 := bytes.takeWhile (· ≠ 0)

def nameToId (identifier : List UInt8) : UInt32 := identifierId char (cString identifier)

def audioIdentifier (origPath : List UInt8) : UInt32 := identifierId char (cString origPath)

end Identifier

/-! ## The queries -/

structure AudioFileWithId where
  path : List Char
  identifier : List UInt8

inductive ProcessAction
  | query
  | store
  | delete
deriving DecidableEq

/-- What a query's stream processor makes of its audio. -/
structure Run where
  stats : Stats
  rawAudio : Bool
  reports : List (List Match)
  final : List Match

def excludeIdentifier (char : UInt8 → UInt32) (action : ProcessAction) (allowIdentityMatch : Bool) (identifier : List UInt8) :
    UInt32 :=
  let filterIdentity := action = .query ∧ allowIdentityMatch = false
  if filterIdentity then nameToId char identifier else 0

/-- The queries of the files, of which number `i` makes `run i` of its audio. -/
def queries (char : UInt8 → UInt32) (allowIdentityMatch : Bool) (audioFiles : List AudioFileWithId) (run : Nat → Run) :
    List Query :=
  audioFiles.mapIdx fun i audioFile =>
    { ctx := ⟨i, audioFiles.length, audioFile.path, 0,
        excludeIdentifier char .query allowIdentityMatch audioFile.identifier⟩
      stats := (run i).stats
      rawAudio := (run i).rawAudio
      reports := (run i).reports
      final := (run i).final }

/-- All the results of the matcher. -/
def Query.results (q : Query) : List Match := if q.rawAudio then q.callbacks.flatten else []

/-- The results with a line or an entry of their own. -/
def reported (fixed3 : ℚ → List Char) (fmt : OutputFormat) (q : Query) : List Match :=
  match fmt with
  | .csv => q.results.filter fun m => printMatch fixed3 q.ctx m ≠ []
  | .json => q.results.foldl (collectMatch q.ctx) []

/-- The records of a query are its headers and the lines of what is reported, or one object with it. -/
theorem records_reported (fixed3 : ℚ → List Char) (q : Query) (hraw : q.rawAudio = true) :
    (records fixed3 .csv q).filter (· ≠ [header]) = (reported fixed3 .csv q).map (printMatch fixed3 q.ctx) ∧
      records fixed3 .json q = [queryJson fixed3 q.ctx q.stats (reported fixed3 .json q)] := by
  refine ⟨?_, by simp only [records, reported, Query.collected, Query.results, hraw, if_true]⟩
  have hline : ∀ results : List Match,
      (csvReport fixed3 q.ctx results).filter (· ≠ [header]) =
        (results.filter fun m => printMatch fixed3 q.ctx m ≠ []).map (printMatch fixed3 q.ctx) := by
    intro results
    rw [csvReport, List.filter_cons_of_neg (by simp), List.filter_map, List.filter_map, List.filter_filter]
    congr 1
    apply List.filter_congr
    intro m _
    -- a line is three calls and the header is one
    have hlen := printMatch_length fixed3 q.ctx m
    have hne : printMatch fixed3 q.ctx m ≠ [header] := by
      intro heq
      rw [heq, List.length_singleton] at hlen
      split at hlen <;> cases hlen
    simp [hne]
  simp only [records, reported, Query.results, hraw, if_true]
  induction q.callbacks with
  | nil => rfl
  | cons results callbacks ih =>
    rw [List.flatMap_cons, List.filter_append, ih, hline, List.flatten_cons, List.filter_append, List.map_append]

/-! ## What is left out -/

/-- What is reported of the results holds no self-match, and every other match. -/
structure SelfFiltered (own : UInt32) (results reported : List Match) : Prop where
  noSelf : ∀ m ∈ reported, 0 < m.matchCount → m.matchIdentifier ≠ own
  others : (results.filter fun m => 0 < m.matchCount ∧ m.matchIdentifier ≠ own).Sublist reported

theorem collected_eq (ctx : Context) (results kept : List Match) :
    results.foldl (collectMatch ctx) kept = kept ++ results.filter fun m => excluded ctx m = false ∧ m.matchCount ≠ 0 := by
  induction results generalizing kept with
  | nil => simp
  | cons m results ih =>
    rw [List.foldl_cons, ih, collectMatch]
    by_cases hex : excluded ctx m = true
    · rw [if_pos hex, List.filter_cons_of_neg (by simp [hex])]
    · by_cases hzero : m.matchCount = 0
      · rw [if_neg hex, if_pos hzero, List.filter_cons_of_neg (by simp [hzero])]
      · rw [if_neg hex, if_neg hzero, List.filter_cons_of_pos (by simp [hzero, hex]), List.append_assoc]
        rfl

/-- Both formats report the matches that are not excluded. -/
theorem reported_matches (fixed3 : ℚ → List Char) (fmt : OutputFormat) (q : Query) :
    (reported fixed3 fmt q).filter (fun m => 0 < m.matchCount) =
      q.results.filter fun m => 0 < m.matchCount ∧ excluded q.ctx m = false := by
  cases fmt with
  | csv =>
    rw [reported, List.filter_filter]
    apply List.filter_congr
    intro m _
    have hlen := printMatch_length fixed3 q.ctx m
    have hnil : printMatch fixed3 q.ctx m ≠ [] ↔ excluded q.ctx m = false := by
      rw [← List.length_pos_iff, hlen]
      cases excluded q.ctx m <;> simp
    simp only [hnil, Bool.decide_and]
  | json =>
    rw [reported, collected_eq, List.nil_append, List.filter_filter]
    apply List.filter_congr
    intro m _
    by_cases hpos : 0 < m.matchCount
    · have hne : m.matchCount ≠ 0 := by omega
      simp [hpos, hne]
    · simp [hpos]

/-- **Self-matches are left out exactly when the number of the audio says so**: it is not `0`, or no match has the
number `0`. -/
theorem self_filtered_iff (char : UInt8 → UInt32) (fixed3 : ℚ → List Char) (audioFiles : List AudioFileWithId)
    (run : Nat → Run) (fmt : OutputFormat) (i : Nat) (audioFile : AudioFileWithId) (q : Query)
    (hfile : audioFiles[i]? = some audioFile) (hq : (queries char false audioFiles run)[i]? = some q) :
    SelfFiltered (audioIdentifier char audioFile.identifier) q.results (reported fixed3 fmt q) ↔
      audioIdentifier char audioFile.identifier ≠ 0 ∨ ∀ m ∈ q.results, 0 < m.matchCount → m.matchIdentifier ≠ 0 := by
  have hexclude : q.ctx.excludeIdentifier = audioIdentifier char audioFile.identifier := by
    rw [queries, List.getElem?_mapIdx, hfile, Option.map_some, Option.some.injEq] at hq
    rw [← hq]
    rfl
  have hmatches := reported_matches fixed3 fmt q
  have hmem : ∀ m, 0 < m.matchCount → (m ∈ reported fixed3 fmt q ↔ m ∈ q.results ∧ excluded q.ctx m = false) := by
    intro m hpos
    have := congrArg (m ∈ ·) hmatches
    simpa [hpos] using this
  generalize audioIdentifier char audioFile.identifier = own at hexclude ⊢
  constructor
  · intro h
    by_cases hzero : own = 0
    · apply Or.inr
      intro m hm hpos hid
      have hin : excluded q.ctx m = false := by simp [excluded, hexclude, hzero]
      exact h.noSelf m ((hmem m hpos).2 ⟨hm, hin⟩) hpos (hid.trans hzero.symm)
    · exact Or.inl hzero
  · intro h
    have hkept : ∀ m ∈ q.results, 0 < m.matchCount → (excluded q.ctx m = false ↔ m.matchIdentifier ≠ own) := by
      intro m hm hpos
      rcases h with hne | hno
      · simp [excluded, hexclude, hne, hpos]
      · by_cases hzero : own = 0
        · simp [excluded, hexclude, hzero, hno m hm hpos]
        · simp [excluded, hexclude, hzero, hpos]
    constructor
    · intro m hm hpos
      obtain ⟨hres, hex⟩ := (hmem m hpos).1 hm
      exact (hkept m hres hpos).1 hex
    · have hsame : (q.results.filter fun m => 0 < m.matchCount ∧ m.matchIdentifier ≠ own) =
          (reported fixed3 fmt q).filter (fun m => 0 < m.matchCount) := by
        rw [hmatches]
        refine List.filter_congr fun m hm => decide_eq_decide.2 ?_
        exact and_congr_right fun hpos => (hkept m hm hpos).symm
      rw [hsame]
      exact List.filter_sublist

/-- The numbers of `0` and of the empty identifier. -/
example : nameToId UInt8.toUInt32 [48] = 0 ∧ nameToId UInt8.toUInt32 [] = 0 := by decide

/-- A file that was stored as `0`, and the match of its query with itself. -/
def zeroFile : AudioFileWithId := ⟨"a.wav".toList, [48]⟩

def zeroRun : Run := ⟨⟨10, 2, 1⟩, true, [], [⟨6, 0, 1, "a.wav".toList, 0, 0, 1⟩]⟩

/-- What executing it leads to. -/
def zeroQuery : Query := ⟨⟨0, 1, "a.wav".toList, 0, 0⟩, ⟨10, 2, 1⟩, true, [], [⟨6, 0, 1, "a.wav".toList, 0, 0, 1⟩]⟩

theorem self_filtered_iff_zero :
    SelfFiltered (audioIdentifier UInt8.toUInt32 [48]) zeroQuery.results (reported (fun _ => []) .json zeroQuery) ↔
      audioIdentifier UInt8.toUInt32 [48] ≠ 0 ∨ ∀ m ∈ zeroQuery.results, 0 < m.matchCount → m.matchIdentifier ≠ 0 :=
  self_filtered_iff UInt8.toUInt32 (fun _ => []) [zeroFile] (fun _ => zeroRun) .json 0 zeroFile zeroQuery rfl rfl

/-- The match is reported. -/
theorem zero_not_filtered :
    ¬ ∀ (char : UInt8 → UInt32) (fixed3 : ℚ → List Char) (fmt : OutputFormat) (audioFiles : List AudioFileWithId)
      (run : Nat → Run) (i : Nat) (audioFile : AudioFileWithId) (q : Query), audioFiles[i]? = some audioFile →
      (queries char false audioFiles run)[i]? = some q →
      SelfFiltered (audioIdentifier char audioFile.identifier) q.results (reported fixed3 fmt q) := by
  intro h
  have hself := (h UInt8.toUInt32 (fun _ => []) .json [zeroFile] (fun _ => zeroRun) 0 zeroFile zeroQuery rfl rfl).noSelf
  exact hself _ (List.mem_singleton_self _) (by decide) rfl

end Olaf.ParallelQuery
