import Olaf.IdentityFilter
import Olaf.JsonString
import Olaf.Library.JsonValues
/-!
# Reading the objects of a query (`olaf_query_json`)

| here | there |
| --- | --- |
| `matchValue`, `queryValue` | what an object says of a match and of a query (`olaf_cli_bridge.c:401-429`) |
| `matchText`, `queryText` | the bytes for these |
| `found`    | the matches that `olaf_cli_collect_match` (`:219`) keeps of the results |
| `printed`  | what queries leave in their log, call after call |

A path is a text of bytes and a number with `%.3f` is a JSON number. As long as the records of the queries are whole and every
match that is reported has metadata, the log is read as one object for each query with an audio (`objects_read`). For a match
without, `olaf_db_find_meta_data` prints a line that is no JSON, and the path of the match is left unset.
-/

namespace Olaf.QueryObjects
open CText JsonStrings JsonValues QueryPrint JsonString ParallelQuery Records

def key (s : String) : List UInt8 := ascii s.toList

section Values
variable (fixed3 : ℚ → List Char)

/-- The object of a match. -/
def matchValue (m : Match) : Value :=
  .object [(key "match_count", .number (ascii (formatInt m.matchCount))),
    (key "query_start", .number (ascii (fixed3 m.queryStart))),
    (key "query_stop", .number (ascii (fixed3 m.queryStop))),
    (key "path", .string (ascii m.path)),
    (key "match_identifier", .number (ascii (Nat.toDigits 10 m.matchIdentifier.toNat))),
    (key "reference_start", .number (ascii (fixed3 m.referenceStart))),
    (key "reference_stop", .number (ascii (fixed3 m.referenceStop)))]

/-- The object of a query. -/
def queryValue (ctx : Context) (s : Stats) (jsonMatches : List Match) : Value :=
  .object [(key "query_index", .number (ascii (Nat.toDigits 10 ((ctx.qIndex + 1) % 2 ^ 64)))),
    (key "total_queries", .number (ascii (Nat.toDigits 10 ctx.qTotal))),
    (key "query_path", .string (ascii ctx.queryPath)),
    (key "query_offset", .number (ascii (fixed3 0))),
    (key "fingerprints_matched", .number (ascii (Nat.toDigits 10 s.totalFp))),
    (key "query_duration_seconds", .number (ascii (fixed3 s.audioDuration))),
    (key "fingerprints_per_second", .number (ascii (fixed3 (fpPerSecond s)))),
    (key "search_time_seconds", .number (ascii (fixed3 s.cpuTimeUsed))),
    (key "realtime_factor", .number (ascii (fixed3 (realtimeFactor s)))),
    (key "matches", .array (jsonMatches.map (matchValue fixed3)))]

/-! ## The text -/

theorem ascii_jsonLine (indent key sep : String) (value : List Char) : ascii (jsonLine indent key value sep) =
    ascii indent.toList ++ (quote :: ascii key.toList ++ quote :: 58 :: 32 :: (ascii value ++ ascii sep.toList)) := by
  simp only [jsonLine, ascii_append, List.append_assoc]
  rfl

/-- A text of bytes. -/
abbrev Bytes (s : List Char) : Prop := ∀ c ∈ s, c.toNat < 256

theorem Bytes.map_ascii {s : List Char} (h : Bytes s) : (ascii s).map Char.ofUInt8 = s := by
  rw [ascii, List.map_map]
  refine (List.map_congr_left fun c hc => ?_).trans (List.map_id s)
  refine Char.toNat_inj.1 ?_
  rw [Function.comp_apply, toNat_ofUInt8, UInt8.toNat_ofNat']
  exact Nat.mod_eq_of_lt (h c hc)

theorem ascii_map_ofUInt8 (s : List UInt8) : ascii (s.map Char.ofUInt8) = s := by
  rw [ascii, List.map_map]
  refine (List.map_congr_left fun c _ => ?_).trans (List.map_id s)
  rw [Function.comp_apply, toNat_ofUInt8, UInt8.ofNat_toNat, id]

/-- What is escaped byte by byte is a string. -/
theorem ascii_jsonPrintEscaped {s : List Char} (h : Bytes s) :
    ascii (jsonPrintEscaped (some s)).flatten = quote :: (ascii s).flatMap writeJsonByte ++ [quote] := by
  rw [← h.map_ascii, jsonPrintEscaped_eq, ascii_map_ofUInt8, h.map_ascii]
  rfl

/-- The members as they stand in the log, each with its key. -/
def matchTexts (m : Match) : List (List UInt8 × List UInt8) :=
  [(key "match_count", ascii (formatInt m.matchCount)),
    (key "query_start", ascii (fixed3 m.queryStart)),
    (key "query_stop", ascii (fixed3 m.queryStop)),
    (key "path", quote :: (ascii m.path).flatMap writeJsonByte ++ [quote]),
    (key "match_identifier", ascii (Nat.toDigits 10 m.matchIdentifier.toNat)),
    (key "reference_start", ascii (fixed3 m.referenceStart)),
    (key "reference_stop", ascii (fixed3 m.referenceStop))]

def blanks (n : Nat) : List UInt8 := 10 :: List.replicate n 32

def matchText (m : Match) : List UInt8 := 123 :: layMembers (blanks 6) [32] (blanks 4) (matchTexts fixed3 m)

theorem ascii_jsonMatch {m : Match} (h : Bytes m.path) (i : Nat) :
    ascii (jsonMatch fixed3 i m).flatten = (if i = 0 then [] else [44]) ++ (blanks 4 ++ matchText fixed3 m) := by
  have hcomma : ascii (if i = 0 then [] else ",".toList) = if i = 0 then [] else [44] := by
    split <;> rfl
  simp only [jsonMatch, List.flatten_append, List.flatten_cons, List.flatten_nil, ascii_append, ascii_jsonLine,
    ascii_jsonPrintEscaped h, hcomma, matchText, matchTexts, layMembers, List.append_assoc, List.cons_append, List.nil_append,
    List.append_nil]
  rfl

/-- The array of the matches. -/
def matchesText (ms : List Match) : List UInt8 :=
  91 :: if ms = [] then [93] else layItems (blanks 4) (blanks 2) (ms.map (matchText fixed3))

theorem ascii_matches {ms : List Match} (h : ∀ m ∈ ms, Bytes m.path) :
    91 :: (ascii (ms.mapIdx (jsonMatch fixed3)).flatten.flatten ++ (ascii (if ms = [] then [] else "\n  ".toList) ++ [93])) =
      matchesText fixed3 ms := by
  cases ms with
  | nil => rfl
  | cons m ms =>
    obtain ⟨hm, hms⟩ := List.forall_mem_cons.1 h
    have hrest : ∀ ms : List Match, (∀ m ∈ ms, Bytes m.path) →
        ascii (ms.mapIdx fun i => jsonMatch fixed3 (i + 1)).flatten.flatten =
          (ms.map (matchText fixed3)).flatMap fun t => 44 :: (blanks 4 ++ t) := by
      intro ms hms
      induction ms using List.reverseRecOn with
      | nil => rfl
      | append_singleton ms m ih =>
        obtain ⟨hms, hm⟩ := List.forall_mem_append.1 hms
        rw [List.mapIdx_append, List.flatten_append, List.flatten_append, ascii_append, ih hms, List.map_append, List.flatMap_append]
        refine congrArg _ ?_
        rw [List.mapIdx_cons, List.mapIdx_nil, List.flatten_singleton, ascii_jsonMatch fixed3 (hm m (List.mem_singleton_self _)),
          if_neg (Nat.succ_ne_zero _)]
        simp
    rw [matchesText, if_neg (List.cons_ne_nil _ _), if_neg (List.cons_ne_nil _ _), List.map_cons, layItems_cons, List.mapIdx_cons,
      List.flatten_cons, List.flatten_append, ascii_append, ascii_jsonMatch fixed3 hm, if_pos rfl, hrest ms hms]
    simp only [List.nil_append, List.append_assoc]
    rfl

def queryTexts (ctx : Context) (s : Stats) (jsonMatches : List Match) : List (List UInt8 × List UInt8) :=
  [(key "query_index", ascii (Nat.toDigits 10 ((ctx.qIndex + 1) % 2 ^ 64))),
    (key "total_queries", ascii (Nat.toDigits 10 ctx.qTotal)),
    (key "query_path", quote :: (ascii ctx.queryPath).flatMap writeJsonByte ++ [quote]),
    (key "query_offset", ascii (fixed3 0)),
    (key "fingerprints_matched", ascii (Nat.toDigits 10 s.totalFp)),
    (key "query_duration_seconds", ascii (fixed3 s.audioDuration)),
    (key "fingerprints_per_second", ascii (fixed3 (fpPerSecond s))),
    (key "search_time_seconds", ascii (fixed3 s.cpuTimeUsed)),
    (key "realtime_factor", ascii (fixed3 (realtimeFactor s))),
    (key "matches", matchesText fixed3 jsonMatches)]

def queryText (ctx : Context) (s : Stats) (jsonMatches : List Match) : List UInt8 :=
  123 :: layMembers (blanks 2) [32] [10] (queryTexts fixed3 ctx s jsonMatches)

/-- What a query prints is the text of its object and a line end. -/
theorem ascii_queryJson {ctx : Context} (hpath : Bytes ctx.queryPath) (s : Stats) {jsonMatches : List Match}
    (h : ∀ m ∈ jsonMatches, Bytes m.path) :
    ascii (queryJson fixed3 ctx s jsonMatches).flatten = queryText fixed3 ctx s jsonMatches ++ [10] := by
  have hmatches := ascii_matches fixed3 h
  have hnewline : ascii (if jsonMatches = [] then [] else ["\n  ".toList]).flatten =
      ascii (if jsonMatches = [] then [] else "\n  ".toList) := by
    split <;> rfl
  simp only [queryJson, List.flatten_append, List.flatten_cons, List.flatten_nil, ascii_append, ascii_jsonLine,
    ascii_jsonPrintEscaped hpath, hnewline, queryText, queryTexts, layMembers, ← hmatches, List.append_assoc, List.cons_append,
    List.nil_append, List.append_nil]
  rfl

/-! ## What is read -/

theorem isNumber_int (n : Int) : isNumber (ascii (formatInt n)) = true := by
  unfold formatInt
  split
  · simpa using isNumber_printed (Or.inr rfl) n.natAbs (Or.inl rfl)
  · simpa using isNumber_printed (Or.inl rfl) n.natAbs (Or.inl rfl)

theorem grammar_string (s : List Char) : Grammar (.value (.string (ascii s))) (quote :: (ascii s).flatMap writeJsonByte ++ [quote]) :=
  .string (encodes_flatMap (ascii s))

variable {fixed3} (hfixed3 : ∀ v, isNumber (ascii (fixed3 v)) = true)
include hfixed3

theorem grammar_match (m : Match) : Grammar (.value (matchValue fixed3 m)) (matchText fixed3 m) := by
  refine .object (grammar_layMembers (by decide) (by decide) (by decide) ?_ (List.cons_ne_nil _ _))
  refine .cons (member "match_count" (by decide) (.number (isNumber_int _))) ?_
  refine .cons (member "query_start" (by decide) (.number (hfixed3 _))) ?_
  refine .cons (member "query_stop" (by decide) (.number (hfixed3 _))) ?_
  refine .cons (member "path" (by decide) (grammar_string _)) ?_
  refine .cons (member "match_identifier" (by decide) (.number (isNumber_toDigits _))) ?_
  refine .cons (member "reference_start" (by decide) (.number (hfixed3 _))) ?_
  exact .cons (member "reference_stop" (by decide) (.number (hfixed3 _))) .nil

theorem grammar_matches (ms : List Match) : Grammar (.value (.array (ms.map (matchValue fixed3)))) (matchesText fixed3 ms) := by
  unfold matchesText
  split
  · next h =>
    subst h
    exact @Grammar.emptyArray [] (by decide)
  · next h =>
    refine .array (grammar_layItems (by decide) (by decide) ?_ (by simpa using h))
    rw [List.forall₂_map_left_iff, List.forall₂_map_right_iff, List.forall₂_same]
    exact fun m _ => grammar_match hfixed3 m

/-- The text of a query stands for its object. -/
theorem grammar_query (ctx : Context) (s : Stats) (ms : List Match) :
    Grammar (.value (queryValue fixed3 ctx s ms)) (queryText fixed3 ctx s ms) := by
  refine .object (grammar_layMembers (by decide) (by decide) (by decide) ?_ (List.cons_ne_nil _ _))
  refine .cons (member "query_index" (by decide) (.number (isNumber_toDigits _))) ?_
  refine .cons (member "total_queries" (by decide) (.number (isNumber_toDigits _))) ?_
  refine .cons (member "query_path" (by decide) (grammar_string _)) ?_
  refine .cons (member "query_offset" (by decide) (.number (hfixed3 _))) ?_
  refine .cons (member "fingerprints_matched" (by decide) (.number (isNumber_toDigits _))) ?_
  refine .cons (member "query_duration_seconds" (by decide) (.number (hfixed3 _))) ?_
  refine .cons (member "fingerprints_per_second" (by decide) (.number (hfixed3 _))) ?_
  refine .cons (member "search_time_seconds" (by decide) (.number (hfixed3 _))) ?_
  refine .cons (member "realtime_factor" (by decide) (.number (hfixed3 _))) ?_
  exact .cons (member "matches" (by decide) (grammar_matches hfixed3 ms)) .nil

/-! ## The log -/

/-- The results that are matches, without self-matches. -/
def found (q : Query) : List Match := q.results.filter fun m => excluded q.ctx m = false ∧ m.matchCount ≠ 0

/-- The paths that a query prints are bytes. -/
structure Printable (q : Query) : Prop where
  queryPath : Bytes q.ctx.queryPath
  paths : ∀ m ∈ q.results, Bytes m.path

/-- Every match that a query reports has metadata. -/
def Described (resourceMap : UInt32 → Option ResourceMetaData) (q : Query) : Prop :=
  ∀ m ∈ q.results, m.matchCount ≠ 0 → resourceMap m.matchIdentifier ≠ none

omit hfixed3 in
/-- No line about missing metadata stands in front of the object. -/
theorem objectRecords_described {resourceMap : UInt32 → Option ResourceMetaData} {q : Query} (h : Described resourceMap q) :
    objectRecords fixed3 resourceMap q = records fixed3 .json q := by
  unfold objectRecords
  cases hraw : q.rawAudio with
  | false => rfl
  | true =>
    have hresults : q.results = q.callbacks.flatten := by rw [Query.results, if_pos hraw]
    rw [if_pos rfl, List.filter_eq_nil_iff.2, List.map_nil, List.nil_append]
    intro m hm
    have hfound := h m (hresults ▸ hm)
    simpa [Option.isNone_iff_eq_none] using hfound

/-- The bytes of a log. -/
def printed {W : Type} (log : List (W × List Char)) : List UInt8 := ascii (log.map Prod.snd).flatten

omit hfixed3 in
/-- The record of a query is the text of its object. -/
theorem ascii_records {q : Query} (hraw : q.rawAudio = true) (h : Printable q) :
    ascii (records fixed3 .json q).flatten.flatten = queryText fixed3 q.ctx q.stats (found q) ++ [10] := by
  have hfound : reported fixed3 .json q = found q := by
    rw [reported, collected_eq, List.nil_append, found]
  rw [(records_reported fixed3 q hraw).2, hfound, List.flatten_singleton]
  exact ascii_queryJson fixed3 h.queryPath q.stats fun m hm => h.paths m (List.mem_filter.1 hm).1

/-- **The objects that queries leave in a log are read as what the queries found**, in the order of the log. -/
theorem objects_read {W : Type} [DecidableEq W] {query : W → Query} (hprintable : ∀ w, (query w).rawAudio = true → Printable (query w))
    {resourceMap : UInt32 → Option ResourceMetaData} (hdescribed : ∀ w, Described resourceMap (query w))
    {log : List (W × List Char)} (hwhole : Whole (fun w => objectRecords fixed3 resourceMap (query w)) log) :
    ∃ order : List W, order.Nodup ∧ (∀ w, w ∈ order ↔ (query w).rawAudio = true) ∧
      log.map Prod.snd = order.flatMap (fun w => (records fixed3 .json (query w)).flatten) ∧
      readAll order.length (printed log) =
        some (order.map fun w => queryValue fixed3 (query w).ctx (query w).stats (found (query w))) := by
  simp only [objectRecords_described (hdescribed _)] at hwhole
  let record (w : W) : Option (List (List Char)) := (records fixed3 .json (query w)).head?
  have hrecord : ∀ w, records fixed3 .json (query w) = (record w).toList := by
    intro w
    cases hraw : (query w).rawAudio <;> simp [record, records, hraw]
  obtain ⟨order, hnodup, hmem, hlog⟩ := Whole.exists_order ((funext hrecord) ▸ hwhole : Whole (fun w => (record w).toList) log)
  have hraw : ∀ w, w ∈ order ↔ (query w).rawAudio = true := by
    intro w
    have hnil := records_eq_nil_iff fixed3 .json (query w)
    rw [hrecord, Option.toList_eq_nil_iff] at hnil
    rw [hmem, Option.isSome_iff_ne_none, ne_eq, hnil, Bool.not_eq_false]
  have hcalls : ∀ w, (record w).getD [] = (records fixed3 .json (query w)).flatten := by
    intro w
    rw [hrecord]
    cases record w with
    | none => rfl
    | some r => simp
  simp only [hcalls] at hlog
  refine ⟨order, hnodup, hraw, hlog, ?_⟩
  have htext : printed log = lines (order.map fun w => queryText fixed3 (query w).ctx (query w).stats (found (query w))) := by
    rw [printed, hlog, lines, List.flatMap_map, ascii, ← List.flatMap_id, List.flatMap_assoc, List.map_flatMap]
    refine List.flatMap_congr fun w hw => ?_
    rw [List.flatMap_id]
    exact ascii_records ((hraw w).1 hw) (hprintable w ((hraw w).1 hw))
  have hvalues : List.Forall₂ (fun v t => Grammar (.value v) t)
      (order.map fun w => queryValue fixed3 (query w).ctx (query w).stats (found (query w)))
      (order.map fun w => queryText fixed3 (query w).ctx (query w).stats (found (query w))) := by
    rw [List.forall₂_map_left_iff, List.forall₂_map_right_iff, List.forall₂_same]
    exact fun w _ => grammar_query hfixed3 _ _ _
  have hread := readAll_lines hvalues (show Blank [] by decide) (Nat.le_of_eq (List.length_map _))
  rwa [← htext] at hread

end Values

/-! ## A log of two queries -/

/-- A query whose path and whose match have bytes to escape, and one without a match. -/
def quotedQueries (w : Bool) : Query :=
  { ctx := ⟨if w then 1 else 0, 2, if w then "b.wav".toList else "say \"a\"\n.wav".toList, 0, 0⟩
    stats := ⟨10, 2, 1⟩
    rawAudio := true
    reports := []
    final := if w then [noResult] else [⟨6, 0, 1 / 2, "c:\\\"a\".wav".toList, 7, 1, 3 / 2⟩] }

/-- The database has the audio of the match. -/
def sevenKnown (id : UInt32) : Option ResourceMetaData := if id = 7 then some ⟨"c:\\\"a\".wav", 2, 10⟩ else none

/-- The second query is done first. -/
def twoLog : List (Bool × List Char) :=
  [true, false].flatMap fun w => tagged (w, (records (fixedPoint 3) .json (quotedQueries w)).flatten)

theorem objects_read_quotedQueries : ∃ order : List Bool, order.Nodup ∧ (∀ w, w ∈ order ↔ (quotedQueries w).rawAudio = true) ∧
    twoLog.map Prod.snd = order.flatMap (fun w => (records (fixedPoint 3) .json (quotedQueries w)).flatten) ∧
    readAll order.length (printed twoLog) = some (order.map fun w =>
      queryValue (fixedPoint 3) (quotedQueries w).ctx (quotedQueries w).stats (found (quotedQueries w))) := by
  have hresults : ∀ w, (quotedQueries w).results = (quotedQueries w).final := by
    intro w
    cases w <;> rfl
  have hbytes : ∀ s : List Char, (s.all fun c => c.toNat < 256) = true → Bytes s := by simp [Bytes]
  have hdescribed : ∀ w, Described sevenKnown (quotedQueries w) := by
    intro w m hm
    rw [hresults] at hm
    cases w with
    | false =>
      obtain rfl := List.mem_singleton.1 hm
      simp [sevenKnown]
    | true =>
      obtain rfl := List.mem_singleton.1 hm
      exact fun hne => absurd rfl hne
  refine objects_read (isNumber_fixedPoint 3) (fun w _ => ⟨?_, fun m hm => ?_⟩) hdescribed
    ⟨[true, false].map fun w => (w, (records (fixedPoint 3) .json (quotedQueries w)).flatten), fun w => ?_, ?_⟩
  · cases w <;> exact hbytes _ (by decide)
  · rw [hresults] at hm
    cases w <;> obtain rfl := List.mem_singleton.1 hm <;> exact hbytes _ (by decide)
  · show own w _ = objectRecords (fixedPoint 3) sevenKnown (quotedQueries w)
    rw [objectRecords_described (hdescribed w)]
    cases w <;> rfl
  · rw [List.flatMap_map]
    rfl

end Olaf.QueryObjects
