import Olaf.Library.Records
import Olaf.QueryPrint
/-!
# Querying in parallel (`executeParallel` with the action `Query`)

| here | there |
| --- | --- |
| `Query`   | a task of the pool: what it has to print, and whether it gets that far |
| `header`  | the header line of `olaf_query` (`olaf_cli_bridge.c:346`), printed before each report |
| `records` | what `olaf_query` (`:315`) and `olaf_query_json` (`:359`) print, record by record and call by call |
| `noMetaData` | the line of `olaf_db_find_meta_data` (`olaf_db.c:233`) for a match whose audio has no metadata |

A query whose audio cannot be converted or whose raw audio cannot be opened prints nothing. Any other prints the header
at least, or its object. The line for a match without metadata is left out of `records`: it is one call, made before the
callback of the match. `objectRecords` has it before the object.

A call of `printf`, `fputs` or `fputc` appends its text at once; `records` of more than one call have no lock around
them. `parallel_queries_whole_iff` says when that does no harm. `writeStoreSummary` (`olaf_cli_bridge.zig:139`) and
`olaf_fp_matcher_callback_print_result` (`olaf_fp_matcher.c:269`) print each record in one call.
-/

namespace Olaf.ParallelQuery
open QueryPrint Records

inductive OutputFormat
  | csv
  | json

structure Query where
  ctx : Context
  stats : Stats
  /-- The audio is converted and the raw audio opened. -/
  rawAudio : Bool
  /-- The results of the reports while the query runs. -/
  reports : List (List Match)
  /-- The results of the report at the end. -/
  final : List Match

/-- The calls of the result callback, report by report. -/
def Query.callbacks (q : Query) : List (List Match) := q.reports ++ [q.final]

def header : List Char :=
  ("query_index, total_queries, query_path, query_offset, match_count, query_start, query_stop, path, " ++
    "match_identifier, reference_start, reference_stop\n").toList

section Print
variable (fixed3 : ℚ → List Char)

/-- The header and the result lines of a report. -/
def csvReport (ctx : Context) (results : List Match) : List (List (List Char)) :=
  [header] :: (results.map (printMatch fixed3 ctx)).filter (· ≠ [])

/-- The matches that the callback collects for the object. -/
def Query.collected (q : Query) : List Match := q.callbacks.flatten.foldl (collectMatch q.ctx) []

def records (fmt : OutputFormat) (q : Query) : List (List (List Char)) :=
  if q.rawAudio then
    match fmt with
    | .csv => q.callbacks.flatMap (csvReport fixed3 q.ctx)
    | .json => [queryJson fixed3 q.ctx q.stats q.collected]
  else []

/-- `olaf_db_find_meta_data` does not find the audio of a match. -/
def noMetaData (m : Match) : List (List Char) :=
  ["No meta data with key ".toList ++ CText.formatInt m.matchIdentifier.toNat ++ " \n".toList]

/-- All that `olaf_query_json` prints. Every result but the empty one is looked up before its callback. -/
def objectRecords (resourceMap : UInt32 → Option ResourceMetaData) (q : Query) : List (List (List Char)) :=
  (if q.rawAudio then
    (q.callbacks.flatten.filter fun m => m.matchCount ≠ 0 ∧ (resourceMap m.matchIdentifier).isNone).map noMetaData
  else []) ++ records fixed3 .json q

/-- The query prints a result line or an object. -/
def Query.PrintsResult (fmt : OutputFormat) (q : Query) : Prop :=
  q.rawAudio = true ∧
    match fmt with
    | .csv => ∃ results ∈ q.callbacks, ∃ m ∈ results, excluded q.ctx m = false
    | .json => True

/-! ## The records of a query -/

theorem mem_csvReport {ctx : Context} {results : List Match} {r : List (List Char)} :
    r ∈ csvReport fixed3 ctx results ↔ r = [header] ∨ ∃ m ∈ results, excluded ctx m = false ∧ r = printMatch fixed3 ctx m := by
  have hnil : ∀ m, printMatch fixed3 ctx m ≠ [] ↔ excluded ctx m = false := by
    intro m
    rw [← List.length_pos_iff, printMatch_length fixed3]
    cases excluded ctx m <;> simp
  simp only [csvReport, List.mem_cons, List.mem_filter, List.mem_map, decide_eq_true_iff]
  refine or_congr_right ⟨?_, ?_⟩
  · rintro ⟨⟨m, hm, rfl⟩, hr⟩
    exact ⟨m, hm, (hnil m).1 hr, rfl⟩
  · rintro ⟨m, hm, he, rfl⟩
    exact ⟨⟨m, hm, rfl⟩, (hnil m).2 he⟩

/-- No record is empty. -/
theorem nil_not_mem_records (fmt : OutputFormat) (q : Query) : [] ∉ records fixed3 fmt q := by
  intro h
  unfold records at h
  split at h
  · cases fmt with
    | csv =>
      obtain ⟨results, _, hr⟩ := List.mem_flatMap.1 h
      rcases (mem_csvReport fixed3).1 hr with hr | ⟨m, _, he, hr⟩
      · cases hr
      · have := printMatch_length fixed3 q.ctx m
        rw [← hr, he] at this
        cases this
    | json =>
      have := queryJson_length fixed3 q.ctx q.stats q.collected
      rw [← List.mem_singleton.1 h] at this
      cases this
  · cases h

/-- A query prints something exactly when it gets to its audio. -/
theorem records_eq_nil_iff (fmt : OutputFormat) (q : Query) : records fixed3 fmt q = [] ↔ q.rawAudio = false := by
  cases hraw : q.rawAudio with
  | false => simp [records, hraw]
  | true => cases fmt <;> simp [records, hraw, Query.callbacks, csvReport]

/-- It has a record of several calls exactly when it prints a result. -/
theorem long_record_iff (fmt : OutputFormat) (q : Query) :
    (∃ r ∈ records fixed3 fmt q, 2 ≤ r.length) ↔ q.PrintsResult fmt := by
  cases hraw : q.rawAudio with
  | false => simp [records, Query.PrintsResult, hraw]
  | true =>
    cases fmt with
    | json =>
      have := queryJson_length fixed3 q.ctx q.stats q.collected
      simp only [records, Query.PrintsResult, hraw, if_true, List.mem_singleton, exists_eq_left, and_self, iff_true]
      omega
    | csv =>
      simp only [records, Query.PrintsResult, hraw, if_true, true_and, List.mem_flatMap]
      constructor
      · rintro ⟨r, ⟨results, hresults, hr⟩, hlen⟩
        rcases (mem_csvReport fixed3).1 hr with rfl | ⟨m, hm, he, _⟩
        · simp at hlen
        · exact ⟨results, hresults, m, hm, he⟩
      · rintro ⟨results, hresults, m, hm, he⟩
        refine ⟨_, ⟨results, hresults, (mem_csvReport fixed3).2 (Or.inr ⟨m, hm, he, rfl⟩)⟩, ?_⟩
        rw [printMatch_length, he]
        decide

end Print

/-! ## All queries -/

/-- The workers print their records call by call. -/
def RecordsWhole {W : Type} [DecidableEq W] (fixed3 : ℚ → List Char) (fmt : OutputFormat) (query : W → Query) : Prop :=
  ∀ schedule s, (writers W (List Char)).run (start fun w => records fixed3 fmt (query w)) schedule = some s →
    (∀ w, s.phase w = []) → Whole (fun w => records fixed3 fmt (query w)) s.shared

/-- **Every interleaving leaves the records whole exactly when a query that prints a result is the only one that
gets to its audio.** -/
theorem parallel_queries_whole_iff {W : Type} [DecidableEq W] [Fintype W] (fixed3 : ℚ → List Char) (fmt : OutputFormat)
    (query : W → Query) :
    RecordsWhole fixed3 fmt query ↔ ∀ v w, v ≠ w → (query v).PrintsResult fmt → (query w).rawAudio = false := by
  rw [RecordsWhole, runs_whole_iff fun w => nil_not_mem_records fixed3 fmt (query w)]
  refine forall_congr' fun v => forall_congr' fun w => imp_congr_right fun _ => ?_
  rw [long_record_iff, records_eq_nil_iff]

/-- The empty result. -/
def noResult : Match := ⟨0, 0, 0, [], 0, 0, 0⟩

/-- Two queries that find nothing. -/
def twoQueries (w : Bool) : Query :=
  { ctx := ⟨if w then 1 else 0, 2, if w then "b.wav".toList else "a.wav".toList, 0, 0⟩
    stats := ⟨0, 2, 1⟩
    rawAudio := true
    reports := []
    final := [noResult] }

/-- The other query prints its header into the result line of the first, or its first brace into the object. -/
theorem twoQueries_mixed : ¬ RecordsWhole (fun _ => "0.000".toList) .csv twoQueries ∧
    ¬ RecordsWhole (fun _ => "0.000".toList) .json twoQueries := by
  refine ⟨fun h => ?_, fun h => ?_⟩
  · refine not_whole_of_cut (v := false) (w := true) (by decide) [[header]] [] rfl _
      (h ([false, false, true, false, false, true, true, true].map (·, ())) _ rfl (fun w => ?_))
    cases w <;> rfl
  · have hlong := (long_record_iff (fun _ => "0.000".toList) .json (twoQueries false)).2 ⟨rfl, trivial⟩
    have hnil := (runs_whole_iff fun w => nil_not_mem_records _ .json (twoQueries w)).1 h false true (by decide) hlong
    exact absurd ((records_eq_nil_iff _ .json (twoQueries true)).1 hnil) (by decide)

end Olaf.ParallelQuery
