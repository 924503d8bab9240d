import Mathlib.Algebra.Order.Ring.Rat
import Olaf.JsonString
import Olaf.Library.Csv
import Olaf.Library.JsonValues
import Olaf.Library.Records
/-!
# The log of a store run (`olaf_cli_bridge.zig`)

| here | there |
| --- | --- |
| `StoreSummary` | the arguments of `writeStoreSummary` |
| `storeCsvHeader` | `store_csv_header` (`:22`), which `execute` of the store command writes before any worker starts |
| `digitWidth`, `writeCsvField` | `digitWidth` (`:218`), `writeCsvField` (`:226`) |
| `record`, `writeStoreSummary` | `writeStoreSummary` (`:139`): the text that goes to the buffer, and what is written, `none` when the buffer of 4096 bytes is too small |
| `Conversion` | what `processAudioFile` (`olaf_cli_threading.zig:61`) comes to before the record |
| `failedLine`, `unopenedLine` | `std.log.err` of `processAudioFileThreaded` (`olaf_cli_threading.zig:104`), the `fprintf` of `olaf_reader_new` (`olaf_reader_stream.c:55`) |
| `storeCalls` | all that the worker with a file writes on stderr |
| `jsonValue`, `csvRow` | what the record of a file says |

`fixed n` is what `\x7bd:.n\x7d` makes of a number; a JSON number, as the seconds are finite. A record is one call, the log of a run in
which all workers succeed is the records, each whole, in some order (`log_order`). Whatever bytes the identifiers have, a reader of JSON
(`json_log_read`) and a reader of CSV (`csv_log_read`) get them back from it. Where a worker fails its error line stands between the
records: a file with a name of its own choosing writes what it likes there.
-/

namespace Olaf.StoreLog
open JsonStrings JsonString JsonValues Records

inductive StoreFormat
  | human
  | csv
  | json

/-- What a record says. -/
structure StoreSummary where
  index : Nat
  total : Nat
  audioIdentifier : List UInt8
  internalId : UInt32
  fingerprints : Nat
  audioSeconds : ℚ
  cpuSeconds : ℚ

/-- What comes before the record: the raw audio is not made, cannot be read, or is, with what the extractors warn of on the way. -/
inductive Conversion
  | failed (processErr : List UInt8)
  | unopened (rawAudioPath : List UInt8)
  | opened (warnings : List (List UInt8))

/-- A file of the run. -/
structure StoreTask where
  path : List UInt8
  conversion : Conversion
  summary : StoreSummary

def bytes (s : String) : List UInt8 := ascii s.toList

def decimal (n : Nat) : List UInt8 := ascii (Nat.toDigits 10 n)

def storeCsvHeader : List UInt8 :=
  bytes ("action,file_index,file_total,audio_identifier,internal_id,fingerprints,audio_seconds,cpu_seconds," ++
    "fingerprints_per_second,realtime_factor\n")

def digitWidthFrom (v w : Nat) : Nat := if v = 0 then w else digitWidthFrom (v / 10) (w + 1)

/-- The decimal digits of a number. -/
def digitWidth (n : Nat) : Nat := if n = 0 then 1 else digitWidthFrom n 0

/-- Quotes only where something in the field needs them. -/
def writeCsvField (s : List UInt8) : List UInt8 :=
  let needsQuotes := s.any fun c => c = 44 || c = 34 || c = 10 || c = 13
  if needsQuotes then [34] ++ s.flatMap (fun c => (if c = 34 then [34] else []) ++ [c]) ++ [34] else s

section Record
variable (fixed : Nat → ℚ → List UInt8)

/-- Files count from 1 for the user. -/
def StoreSummary.fileIndex (s : StoreSummary) : Nat := s.index + 1

def StoreSummary.fpPerSecond (s : StoreSummary) : ℚ := if 0 < s.audioSeconds then s.fingerprints / s.audioSeconds else 0

def StoreSummary.realtimeFactor (s : StoreSummary) : ℚ := if 0 < s.cpuSeconds then s.audioSeconds / s.cpuSeconds else 0

/-- The number of the file is filled up with zeros to the width of the total: file 7 of 35 is `07/35`. -/
def humanRecord (s : StoreSummary) : List UInt8 :=
  let width := digitWidth s.total
  let idxStr := decimal s.fileIndex
  let pad := if idxStr.length < width then width - idxStr.length else 0
  List.replicate pad 48 ++ idxStr ++ bytes "/" ++ decimal s.total ++ bytes " Stored " ++ decimal s.fingerprints ++
    bytes " fp's from " ++ fixed 1 s.audioSeconds ++ bytes "s (" ++ fixed 0 s.fpPerSecond ++ bytes " fp/s) in " ++
    fixed 3 s.cpuSeconds ++ bytes "s (" ++ fixed 0 s.realtimeFactor ++ bytes " times realtime)\n"

def csvRecord (s : StoreSummary) : List UInt8 :=
  bytes "store," ++ decimal s.fileIndex ++ bytes "," ++ decimal s.total ++ bytes "," ++ writeCsvField s.audioIdentifier ++
    bytes "," ++ decimal s.internalId.toNat ++ bytes "," ++ decimal s.fingerprints ++ bytes "," ++ fixed 1 s.audioSeconds ++
    bytes "," ++ fixed 3 s.cpuSeconds ++ bytes "," ++ fixed 1 s.fpPerSecond ++ bytes "," ++ fixed 0 s.realtimeFactor ++ bytes "\n"

/-- An object on a line of its own. -/
def jsonRecord (s : StoreSummary) : List UInt8 :=
  bytes "\x7b\x22action\x22:\x22store\x22,\x22file_index\x22:" ++ decimal s.fileIndex ++ bytes ",\x22file_total\x22:" ++
    decimal s.total ++ bytes ",\x22audio_identifier\x22:" ++ writeJsonString s.audioIdentifier ++ bytes ",\x22internal_id\x22:" ++
    decimal s.internalId.toNat ++ bytes ",\x22fingerprints\x22:" ++ decimal s.fingerprints ++ bytes ",\x22audio_seconds\x22:" ++
    fixed 1 s.audioSeconds ++ bytes ",\x22cpu_seconds\x22:" ++ fixed 3 s.cpuSeconds ++
    bytes ",\x22fingerprints_per_second\x22:" ++ fixed 1 s.fpPerSecond ++ bytes ",\x22realtime_factor\x22:" ++
    fixed 0 s.realtimeFactor ++ bytes "\x7d\n"

def record (format : StoreFormat) (s : StoreSummary) : List UInt8 :=
  match format with
  | .human => humanRecord fixed s
  | .csv => csvRecord fixed s
  | .json => jsonRecord fixed s

/-- It returns `error.NoSpaceLeft` where the record is longer than its buffer. -/
def writeStoreSummary (format : StoreFormat) (s : StoreSummary) : Option (List UInt8) :=
  let written := record fixed format s
  if written.length ≤ 4096 then some written else none

def failedLine (path processErr : List UInt8) : List UInt8 :=
  bytes "error: Failed to process " ++ path ++ bytes ": " ++ processErr ++ bytes "\n"

def unopenedLine (source : List UInt8) : List UInt8 := bytes "Audio file " ++ source ++ bytes " not found or unreadable.\n"

def storeCalls (format : StoreFormat) (t : StoreTask) : List (List UInt8) :=
  match t.conversion with
  | .failed processErr => [failedLine t.path processErr]
  | .unopened rawAudioPath => [unopenedLine rawAudioPath]
  | .opened warnings => warnings ++
    match writeStoreSummary fixed format t.summary with
    | some written => [written]
    | none => [failedLine t.path (bytes "error.NoSpaceLeft")]

/-- The worker writes its record and nothing else. -/
structure Succeeds (format : StoreFormat) (t : StoreTask) : Prop where
  opened : t.conversion = .opened []
  fits : (record fixed format t.summary).length ≤ 4096

theorem storeCalls_succeeds {format : StoreFormat} {t : StoreTask} (h : Succeeds fixed format t) :
    storeCalls fixed format t = [record fixed format t.summary] := by
  rw [storeCalls, h.opened, writeStoreSummary, if_pos h.fits]
  rfl

/-! ## The records of a format -/

/-- The object of a file. -/
def jsonValue (s : StoreSummary) : Value :=
  .object [(bytes "action", .string (bytes "store")),
    (bytes "file_index", .number (decimal s.fileIndex)),
    (bytes "file_total", .number (decimal s.total)),
    (bytes "audio_identifier", .string s.audioIdentifier),
    (bytes "internal_id", .number (decimal s.internalId.toNat)),
    (bytes "fingerprints", .number (decimal s.fingerprints)),
    (bytes "audio_seconds", .number (fixed 1 s.audioSeconds)),
    (bytes "cpu_seconds", .number (fixed 3 s.cpuSeconds)),
    (bytes "fingerprints_per_second", .number (fixed 1 s.fpPerSecond)),
    (bytes "realtime_factor", .number (fixed 0 s.realtimeFactor))]

/-- The members as they stand in the record. -/
def jsonTexts (s : StoreSummary) : List (List UInt8 × List UInt8) :=
  [(bytes "action", quote :: bytes "store" ++ [quote]),
    (bytes "file_index", decimal s.fileIndex),
    (bytes "file_total", decimal s.total),
    (bytes "audio_identifier", quote :: s.audioIdentifier.flatMap writeJsonByte ++ [quote]),
    (bytes "internal_id", decimal s.internalId.toNat),
    (bytes "fingerprints", decimal s.fingerprints),
    (bytes "audio_seconds", fixed 1 s.audioSeconds),
    (bytes "cpu_seconds", fixed 3 s.cpuSeconds),
    (bytes "fingerprints_per_second", fixed 1 s.fpPerSecond),
    (bytes "realtime_factor", fixed 0 s.realtimeFactor)]

def jsonText (s : StoreSummary) : List UInt8 := 123 :: layMembers [] [] [] (jsonTexts fixed s)

/-- What stands before a number. -/
def before (key : String) : List UInt8 := 44 :: quote :: (bytes key ++ [quote, 58])

theorem jsonRecord_eq (s : StoreSummary) : jsonRecord fixed s = jsonText fixed s ++ [10] := by
  have hfirst : bytes "\x7b\x22action\x22:\x22store\x22,\x22file_index\x22:" =
    123 :: quote :: (bytes "action" ++ quote :: 58 :: quote :: (bytes "store" ++ quote :: before "file_index")) := by decide
  have htotal : bytes ",\x22file_total\x22:" = before "file_total" := by decide
  have hidentifier : bytes ",\x22audio_identifier\x22:" = before "audio_identifier" := by decide
  have hid : bytes ",\x22internal_id\x22:" = before "internal_id" := by decide
  have hfingerprints : bytes ",\x22fingerprints\x22:" = before "fingerprints" := by decide
  have haudio : bytes ",\x22audio_seconds\x22:" = before "audio_seconds" := by decide
  have hcpu : bytes ",\x22cpu_seconds\x22:" = before "cpu_seconds" := by decide
  have hrate : bytes ",\x22fingerprints_per_second\x22:" = before "fingerprints_per_second" := by decide
  have hfactor : bytes ",\x22realtime_factor\x22:" = before "realtime_factor" := by decide
  have hlast : bytes "\x7d\n" = [125, 10] := by decide
  delta jsonRecord
  simp only [jsonText, jsonTexts, layMembers, writeJsonString, hfirst, htotal, hidentifier, hid, hfingerprints,
    haudio, hcpu, hrate, hfactor, hlast, before, quote, List.append_assoc, List.cons_append, List.nil_append]

/-- The fields of a file. -/
def csvRow (s : StoreSummary) : List (List UInt8) :=
  [bytes "store", decimal s.fileIndex, decimal s.total, s.audioIdentifier, decimal s.internalId.toNat, decimal s.fingerprints,
    fixed 1 s.audioSeconds, fixed 3 s.cpuSeconds, fixed 1 s.fpPerSecond, fixed 0 s.realtimeFactor]

/-- The fields as they stand in the record. -/
def csvTexts (s : StoreSummary) : List (List UInt8) :=
  [bytes "store", decimal s.fileIndex, decimal s.total, writeCsvField s.audioIdentifier, decimal s.internalId.toNat,
    decimal s.fingerprints, fixed 1 s.audioSeconds, fixed 3 s.cpuSeconds, fixed 1 s.fpPerSecond, fixed 0 s.realtimeFactor]

theorem csvRecord_eq (s : StoreSummary) : csvRecord fixed s = Csv.line (csvTexts fixed s) := by
  have hcomma : bytes "," = [Csv.comma] := by decide
  have hfirst : bytes "store," = bytes "store" ++ [Csv.comma] := by decide
  have hnewline : bytes "\n" = [Csv.newline] := by decide
  delta csvRecord
  simp only [csvTexts, Csv.line, hcomma, hfirst, hnewline, List.append_assoc, List.cons_append, List.nil_append]

def csvHeaderRow : List (List UInt8) :=
  [bytes "action", bytes "file_index", bytes "file_total", bytes "audio_identifier", bytes "internal_id", bytes "fingerprints",
    bytes "audio_seconds", bytes "cpu_seconds", bytes "fingerprints_per_second", bytes "realtime_factor"]

theorem storeCsvHeader_eq : storeCsvHeader = Csv.line csvHeaderRow := by
  decide +kernel

/-! ## Lines for a reader -/

theorem digitWidthFrom_eq (v w : Nat) : digitWidthFrom v w = w + if v = 0 then 0 else (Nat.toDigits 10 v).length := by
  induction v, w using digitWidthFrom.induct with
  | case1 w => rw [digitWidthFrom, if_pos rfl, if_pos rfl, Nat.add_zero]
  | case2 v w hv ih =>
    rw [digitWidthFrom, if_neg hv, if_neg hv, ih]
    split
    · next h => rw [Nat.toDigits_of_lt_base (Nat.lt_of_div_eq_zero (by decide) h), List.length_singleton]
    · next h =>
      rw [Nat.toDigits_of_base_le (by decide) (Nat.le_of_not_lt fun hlt => h (Nat.div_eq_of_lt hlt)), List.length_append,
        List.length_singleton]
      omega

/-- The loop of divisions counts the digits that are printed. -/
theorem digitWidth_eq (n : Nat) : digitWidth n = (decimal n).length := by
  rw [decimal, ascii, List.length_map, digitWidth]
  split
  · next h => subst h; rfl
  · next h => rw [digitWidthFrom_eq, if_neg h, Nat.zero_add]

/-- The lines of a run have their slashes below each other. -/
theorem humanRecord_aligned {s : StoreSummary} (h : s.index < s.total) :
    ∃ pad, (List.replicate pad 48 ++ decimal s.fileIndex).length = (decimal s.total).length ∧
      List.replicate pad 48 ++ decimal s.fileIndex ++ bytes "/" ++ decimal s.total <+: humanRecord fixed s := by
  have hle : (decimal s.fileIndex).length ≤ (decimal s.total).length := by
    rw [decimal, decimal, ascii, ascii, List.length_map, List.length_map, Nat.length_toDigits_le_iff (by decide)
      Nat.length_toDigits_pos]
    exact lt_of_le_of_lt h ((Nat.length_toDigits_le_iff (by decide) Nat.length_toDigits_pos).1 le_rfl)
  refine ⟨digitWidth s.total - (decimal s.fileIndex).length, ?_, ?_⟩
  · rw [List.length_append, List.length_replicate, digitWidth_eq]
    omega
  · have hpad : (if (decimal s.fileIndex).length < digitWidth s.total then digitWidth s.total - (decimal s.fileIndex).length
        else 0) = digitWidth s.total - (decimal s.fileIndex).length := by
      split
      · rfl
      · omega
    delta humanRecord
    simp only [hpad, List.append_assoc, List.prefix_append_right_inj]
    exact List.prefix_append _ _

/-! ## What is read -/

theorem special_digit {c : UInt8} (h : numberByte c = true) : Csv.special c = false := by
  by_contra hspecial
  rw [Bool.not_eq_false, Csv.special] at hspecial
  simp only [Bool.or_eq_true, decide_eq_true_iff] at hspecial
  rcases hspecial with ((rfl | rfl) | rfl) | rfl <;> cases h

theorem encodes_number {text : List UInt8} (h : isNumber text = true) : Csv.Encodes text text :=
  .plain fun c hc => special_digit (numberByte_of_isNumber h c hc)

/-- A reader gets every identifier back from its field. -/
theorem encodes_writeCsvField (s : List UInt8) : Csv.Encodes (writeCsvField s) s := by
  unfold writeCsvField
  by_cases h : (s.any fun c => c = 44 || c = 34 || c = 10 || c = 13) = true
  · have hdouble : s.flatMap (fun c => (if c = 34 then [34] else []) ++ [c]) = Csv.double s :=
      List.flatMap_congr fun c _ => by
        rw [Csv.quote]
        split <;> rfl
    rw [if_pos h, hdouble]
    exact .quoted s
  · rw [if_neg h]
    refine .plain fun c hc => ?_
    rw [List.any_eq_true, not_exists] at h
    exact Bool.eq_false_iff.2 fun hspecial => h c ⟨hc, hspecial⟩

variable {fixed}

theorem grammar_json (hfixed : ∀ n v, isNumber (fixed n v) = true) (s : StoreSummary) :
    Grammar (.value (jsonValue fixed s)) (jsonText fixed s) := by
  refine .object (grammar_layMembers (by decide) (by decide) (by decide) ?_ (List.cons_ne_nil _ _))
  refine .cons (member "action" (by decide) (.string (encodes_plain (by decide)))) ?_
  refine .cons (member "file_index" (by decide) (.number (isNumber_toDigits _))) ?_
  refine .cons (member "file_total" (by decide) (.number (isNumber_toDigits _))) ?_
  refine .cons (member "audio_identifier" (by decide) (.string (encodes_flatMap _))) ?_
  refine .cons (member "internal_id" (by decide) (.number (isNumber_toDigits _))) ?_
  refine .cons (member "fingerprints" (by decide) (.number (isNumber_toDigits _))) ?_
  refine .cons (member "audio_seconds" (by decide) (.number (hfixed _ _))) ?_
  refine .cons (member "cpu_seconds" (by decide) (.number (hfixed _ _))) ?_
  refine .cons (member "fingerprints_per_second" (by decide) (.number (hfixed _ _))) ?_
  exact .cons (member "realtime_factor" (by decide) (.number (hfixed _ _))) .nil

theorem encodes_csv (hfixed : ∀ n v, isNumber (fixed n v) = true) (s : StoreSummary) :
    List.Forall₂ Csv.Encodes (csvTexts fixed s) (csvRow fixed s) := by
  refine .cons (.plain (by decide +kernel)) (.cons (encodes_number (isNumber_toDigits _)) ?_)
  refine .cons (encodes_number (isNumber_toDigits _)) (.cons (encodes_writeCsvField _) ?_)
  refine .cons (encodes_number (isNumber_toDigits _)) (.cons (encodes_number (isNumber_toDigits _)) ?_)
  refine .cons (encodes_number (hfixed _ _)) (.cons (encodes_number (hfixed _ _)) ?_)
  exact .cons (encodes_number (hfixed _ _)) (.cons (encodes_number (hfixed _ _)) .nil)

/-! ## The log of all workers -/

section Log
variable {W : Type} [DecidableEq W] {format : StoreFormat} {task : W → StoreTask} {schedule : List (W × Unit)}
  {s : Workers.State W (List (W × List UInt8)) (List (List UInt8))}

/-- Each call of a worker stands for itself. -/
def storeRecords (fixed : Nat → ℚ → List UInt8) (format : StoreFormat) (t : StoreTask) : List (List (List UInt8)) :=
  (storeCalls fixed format t).map ([·])

/-- What the workers have written. -/
def written (log : List (W × List UInt8)) : List UInt8 := (log.map Prod.snd).flatten

/-- Whatever the schedule, the log is the records, each whole. -/
theorem log_order (hsucceeds : ∀ w, Succeeds fixed format (task w))
    (hrun : (writers W (List UInt8)).run (start fun w => storeRecords fixed format (task w)) schedule = some s)
    (hdone : ∀ w, s.phase w = []) :
    ∃ order : List W, order.Nodup ∧ (∀ w, w ∈ order) ∧
      written s.shared = order.flatMap fun w => record fixed format (task w).summary := by
  have hrecords : ∀ w, storeRecords fixed format (task w) = [[record fixed format (task w).summary]] := by
    intro w
    rw [storeRecords, storeCalls_succeeds fixed (hsucceeds w)]
    rfl
  have hlog : ∀ w, own w s.shared = (storeRecords fixed format (task w)).flatten := by
    intro w
    rw [← own_append_phase hrun w, hdone w, List.append_nil]
  have hwhole : Whole (fun w => (some [record fixed format (task w).summary]).toList) s.shared := by
    refine whole_of_short (fun w r hr => ?_) fun w => (hlog w).trans (congrArg _ (hrecords w))
    rw [List.mem_singleton.1 hr, List.length_singleton]
  obtain ⟨order, hnodup, hmem, hcalls⟩ := hwhole.exists_order
  refine ⟨order, hnodup, fun w => (hmem w).2 rfl, ?_⟩
  rw [written, hcalls, ← List.flatMap_id, List.flatMap_assoc]
  exact List.flatMap_congr fun w _ => List.append_nil _

/-- **The JSON records of a run are read as its summaries.** -/
theorem json_log_read (hfixed : ∀ n v, isNumber (fixed n v) = true) (hsucceeds : ∀ w, Succeeds fixed .json (task w))
    (hrun : (writers W (List UInt8)).run (start fun w => storeRecords fixed .json (task w)) schedule = some s)
    (hdone : ∀ w, s.phase w = []) :
    ∃ order : List W, order.Nodup ∧ (∀ w, w ∈ order) ∧
      readAll order.length (written s.shared) = some (order.map fun w => jsonValue fixed (task w).summary) := by
  obtain ⟨order, hnodup, hmem, hlog⟩ := log_order hsucceeds hrun hdone
  refine ⟨order, hnodup, hmem, ?_⟩
  have htext : written s.shared = lines (order.map fun w => jsonText fixed (task w).summary) := by
    rw [hlog, lines, List.flatMap_map]
    exact List.flatMap_congr fun w _ => jsonRecord_eq fixed (task w).summary
  have hvalues : List.Forall₂ (fun v t => Grammar (.value v) t) (order.map fun w => jsonValue fixed (task w).summary)
      (order.map fun w => jsonText fixed (task w).summary) := by
    rw [List.forall₂_map_left_iff, List.forall₂_map_right_iff, List.forall₂_same]
    exact fun w _ => grammar_json hfixed _
  have hread := readAll_lines hvalues (show Blank [] by decide) (Nat.le_of_eq (List.length_map _))
  rwa [← htext] at hread

/-- **The header and the CSV records of a run are read as the names of the fields and its summaries.** -/
theorem csv_log_read (hfixed : ∀ n v, isNumber (fixed n v) = true) (hsucceeds : ∀ w, Succeeds fixed .csv (task w))
    (hrun : (writers W (List UInt8)).run (start fun w => storeRecords fixed .csv (task w)) schedule = some s)
    (hdone : ∀ w, s.phase w = []) :
    ∃ order : List W, order.Nodup ∧ (∀ w, w ∈ order) ∧
      Csv.readRows .start [] [] (storeCsvHeader ++ written s.shared) =
        some (csvHeaderRow :: order.map fun w => csvRow fixed (task w).summary) := by
  obtain ⟨order, hnodup, hmem, hlog⟩ := log_order hsucceeds hrun hdone
  refine ⟨order, hnodup, hmem, ?_⟩
  have htext : storeCsvHeader ++ written s.shared =
      Csv.lines (csvHeaderRow :: order.map fun w => csvTexts fixed (task w).summary) := by
    rw [storeCsvHeader_eq, hlog, Csv.lines, List.flatMap_cons, List.flatMap_map]
    exact congrArg _ (List.flatMap_congr fun w _ => csvRecord_eq fixed (task w).summary)
  have hheader : List.Forall₂ Csv.Encodes csvHeaderRow csvHeaderRow := by
    rw [List.forall₂_same]
    intro name hname
    exact .plain ((by decide +kernel : ∀ name ∈ csvHeaderRow, ∀ c ∈ name, Csv.special c = false) name hname)
  rw [htext]
  refine Csv.readRows_lines (.cons hheader ?_) ?_
  · rw [List.forall₂_map_left_iff, List.forall₂_map_right_iff, List.forall₂_same]
    exact fun w _ => encodes_csv hfixed _
  · refine List.forall_mem_cons.2 ⟨List.cons_ne_nil _ _, fun r hr => ?_⟩
    obtain ⟨w, _, rfl⟩ := List.mem_map.1 hr
    exact List.cons_ne_nil _ _

end Log

end Record

/-! ## Two files -/

def fixedBytes (n : Nat) (v : ℚ) : List UInt8 := ascii (fixedPoint n v)

/-- The name of the second file has what is special in a record. -/
def twoFiles (w : Bool) : StoreTask :=
  { path := if w then bytes "b.wav" else bytes "a.wav"
    conversion := .opened []
    summary :=
      { index := if w then 1 else 0
        total := 2
        audioIdentifier := if w then bytes "a,\x22b\x22\n.wav" else bytes "a.wav"
        internalId := if w then 8 else 7
        fingerprints := 3
        audioSeconds := 2
        cpuSeconds := 1 } }

theorem twoFiles_succeed (format : StoreFormat) (w : Bool) : Succeeds fixedBytes format (twoFiles w) :=
  ⟨rfl, by cases format <;> cases w <;> decide +kernel⟩

/-- The workers write in turn, the second one first. -/
theorem twoFiles_run (format : StoreFormat) :
    ∃ schedule s, (writers Bool (List UInt8)).run (start fun w => storeRecords fixedBytes format (twoFiles w)) schedule = some s ∧
      ∀ w, s.phase w = [] := by
  have hlog : ∀ w, own w (tagged (true, (storeRecords fixedBytes format (twoFiles true)).flatten) ++
      tagged (false, (storeRecords fixedBytes format (twoFiles false)).flatten)) =
        (storeRecords fixedBytes format (twoFiles w)).flatten := by
    intro w
    rw [own_append]
    cases w
    · rw [own_tagged_of_ne (by decide), own_tagged_self, List.nil_append]
    · rw [own_tagged_self, own_tagged_of_ne (by decide), List.append_nil]
  obtain ⟨schedule, hrun⟩ := logs_iff.2 hlog
  exact ⟨schedule, _, hrun, fun _ => rfl⟩

theorem json_log_read_twoFiles : ∃ schedule s,
    (writers Bool (List UInt8)).run (start fun w => storeRecords fixedBytes .json (twoFiles w)) schedule = some s ∧
      ∃ order : List Bool, order.Nodup ∧ (∀ w, w ∈ order) ∧
        readAll order.length (written s.shared) = some (order.map fun w => jsonValue fixedBytes (twoFiles w).summary) := by
  obtain ⟨schedule, s, hrun, hdone⟩ := twoFiles_run .json
  exact ⟨schedule, s, hrun, json_log_read isNumber_fixedPoint (twoFiles_succeed .json) hrun hdone⟩

theorem csv_log_read_twoFiles : ∃ schedule s,
    (writers Bool (List UInt8)).run (start fun w => storeRecords fixedBytes .csv (twoFiles w)) schedule = some s ∧
      ∃ order : List Bool, order.Nodup ∧ (∀ w, w ∈ order) ∧
        Csv.readRows .start [] [] (storeCsvHeader ++ written s.shared) =
          some (csvHeaderRow :: order.map fun w => csvRow fixedBytes (twoFiles w).summary) := by
  obtain ⟨schedule, s, hrun, hdone⟩ := twoFiles_run .csv
  exact ⟨schedule, s, hrun, csv_log_read isNumber_fixedPoint (twoFiles_succeed .csv) hrun hdone⟩

end Olaf.StoreLog
