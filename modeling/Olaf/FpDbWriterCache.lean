import Mathlib.Data.Rat.Floor
import Olaf.Config
import Olaf.FpFileWriter
/-!
# Fingerprints read back from text (`olaf_fp_db_writer_cache.c`)

| here | there |
| --- | --- |
| `Cache`        | `struct Olaf_FP_DB_Writer_Cache` (`:25`): the arrays, their index, the counter, the last time and the identifier |
| `parseColumns`, `parseCsvLine` | `olaf_fp_db_writer_cache_parse_csv_line` (`:59`) |
| `readLines`, `readCsvFile` | `olaf_fp_db_writer_cache_read_csv_file` (`:92`); `store` stands for `olaf_db_store` |

Every line of a file becomes a pair, the first one as well: the header that the writer puts there has no numbers
in its first two columns, which `strtoull` reads as zeros. `read_written` says what a file that was written
is read as; `never_reads_back` that this is never what was written.
-/

namespace Olaf.FpDbWriterCache
open CText

variable {V σ : Type}

/-- `FP_ARRAY_SIZE`. -/
def fpArraySize : Nat := 10000

/-- `MAX_LINE_LEN`. -/
def maxLineLen : Nat := 2048

/-- `struct Olaf_FP_DB_Writer_Cache`. -/
structure Cache where
  fpHashes : List Nat
  fpValues : List Nat
  fpIndex : Nat
  fpCounter : Nat
  lastFpT1 : Nat
  audioFileIdentifier : UInt64

/-- `olaf_fp_db_writer_cache_new` and `olaf_fp_db_writer_cache_set_audio_file_info`. -/
def new (id : UInt64) : Cache := ⟨List.replicate fpArraySize 0, List.replicate fpArraySize 0, 0, 0, 0, id⟩

/-- `(fingerprint_t<<32) + fingerprint_id`. -/
def value (id : UInt64) (fingerprintT : Nat) : Nat := ((fingerprintT <<< 32) % 2 ^ 64 + id.toNat) % 2 ^ 64

/-- What is done with the first two tokens. -/
def setColumn (c : Cache) (columnCounter : Nat) (token : List Char) : Cache :=
  if columnCounter = 0 then { c with fpHashes := c.fpHashes.set c.fpIndex (strtoull token) }
  else
    { c with
      lastFpT1 := strtoull token
      fpValues := c.fpValues.set c.fpIndex (value c.audioFileIdentifier (strtoull token)) }

/-- `while (token != NULL && column_counter < 2)`, for `rem` more columns. -/
def parseColumns : (rem columnCounter : Nat) → Option (List Char × List Char) → Cache → Cache × Nat
  | 0, columnCounter, _, c => (c, columnCounter)
  | _ + 1, columnCounter, none, c => (c, columnCounter)
  | rem + 1, columnCounter, some (token, rest), c =>
    parseColumns rem (columnCounter + 1) (strtok ',' rest) (setColumn c columnCounter token)

def parseCsvLine (c : Cache) (line : List Char) : Cache × Nat :=
  let (c, columnCounter) := parseColumns 2 0 (strtok ',' line) c
  ({ c with fpIndex := c.fpIndex + 1, fpCounter := c.fpCounter + 1 }, columnCounter)

/-- The pairs below the index. -/
def Cache.pending (c : Cache) : List (Nat × Nat) := (c.fpHashes.zip c.fpValues).take c.fpIndex

/-- The loop over the lines; `none` when `fuel` lines are not enough. -/
def readLines (store : σ → List (Nat × Nat) → σ) : (fuel : Nat) → (file : List Char) → σ × Cache → Option (σ × Cache)
  | 0, _, _ => none
  | fuel + 1, file, (sink, c) =>
    match fgets maxLineLen file with
    | none => some (sink, c)
    | some (line, file) =>
      let c := (parseCsvLine c line).1
      if c.fpIndex = fpArraySize then readLines store fuel file (store sink c.pending, { c with fpIndex := 0 })
      else readLines store fuel file (sink, c)

/-- A file has no more lines than characters. -/
def readCsvFile (store : σ → List (Nat × Nat) → σ) (sink : σ) (c : Cache) (file : List Char) : Option (σ × Cache) :=
  (readLines store (file.length + 1) file (sink, c)).map fun (sink, c) =>
    (store sink c.pending, { c with fpIndex := 0 })

/-! ## One line -/

/-- A short line whose first two columns are read as the pair `p`. -/
structure IsLine (id : UInt64) (line : List Char) (p : Nat × Nat) : Prop where
  short : line.length + 1 < maxLineLen
  plain : ∀ c ∈ line, c ≠ '\n'
  columns : ∃ token rest token' rest', strtok ',' (line ++ ['\n']) = some (token, rest) ∧
    strtok ',' rest = some (token', rest') ∧ p = (strtoull token, value id (strtoull token'))

/-- The arrays have their size and there is room for a line. -/
structure Shaped (c : Cache) : Prop where
  hashes : c.fpHashes.length = fpArraySize
  values : c.fpValues.length = fpArraySize
  index : c.fpIndex < fpArraySize

theorem shaped_new (id : UInt64) : Shaped (new id) :=
  ⟨List.length_replicate, List.length_replicate, by show 0 < fpArraySize; decide⟩

/-- `c'` is `c` with one more pair. -/
structure Parsed (c c' : Cache) (p : Nat × Nat) : Prop where
  hashes : c'.fpHashes.length = c.fpHashes.length
  values : c'.fpValues.length = c.fpValues.length
  index : c'.fpIndex = c.fpIndex + 1
  counter : c'.fpCounter = c.fpCounter + 1
  id : c'.audioFileIdentifier = c.audioFileIdentifier
  pending : c'.pending = c.pending ++ [p]

theorem zip_set {α β : Type} (a : α) (b : β) : ∀ (l : List α) (l' : List β) (i : Nat),
    (l.set i a).zip (l'.set i b) = (l.zip l').set i (a, b)
  | [], _, _ => by simp
  | _ :: _, [], _ => by simp
  | _ :: _, _ :: _, 0 => rfl
  | _ :: l, _ :: l', i + 1 => by simp [zip_set a b l l' i]

theorem parse_line {c : Cache} {line : List Char} {p : Nat × Nat} (hs : Shaped c)
    (hl : IsLine c.audioFileIdentifier line p) : Parsed c (parseCsvLine c (line ++ ['\n'])).1 p := by
  obtain ⟨token, rest, token', rest', h1, h2, rfl⟩ := hl.columns
  have hparse : (parseCsvLine c (line ++ ['\n'])).1 = { c with
      fpHashes := c.fpHashes.set c.fpIndex (strtoull token)
      fpValues := c.fpValues.set c.fpIndex (value c.audioFileIdentifier (strtoull token'))
      fpIndex := c.fpIndex + 1
      fpCounter := c.fpCounter + 1
      lastFpT1 := strtoull token' } := by
    simp only [parseCsvLine, h1, parseColumns, h2, setColumn, ↓reduceIte, Nat.zero_add, Nat.one_ne_zero]
  rw [hparse]
  refine ⟨List.length_set, List.length_set, rfl, rfl, rfl, ?_⟩
  have hi := hs.index
  rw [Cache.pending, zip_set, List.take_add_one, List.getElem?_set_self, List.take_set_of_le (Nat.le_refl _)]
  · rfl
  · rw [List.length_zip, hs.hashes, hs.values]; omega

/-! ## A file of lines -/

/-- A list of calls as a sink. -/
def calls (cs : List (List (Nat × Nat))) (ps : List (Nat × Nat)) : List (List (Nat × Nat)) := cs ++ [ps]

/-- What the loop does with the lines of a file. -/
theorem readLines_spec {id : UInt64} : ∀ (ls : List (List Char × (Nat × Nat))) (fuel : Nat) (cs : List (List (Nat × Nat)))
    (c : Cache), ls.length < fuel → Shaped c → c.audioFileIdentifier = id → (∀ l ∈ ls, IsLine id l.1 l.2) →
    ∃ cs' c', readLines calls fuel (ls.flatMap fun l => l.1 ++ ['\n']) (cs, c) = some (cs', c') ∧ Shaped c' ∧
      cs'.flatten ++ c'.pending = cs.flatten ++ c.pending ++ ls.map Prod.snd ∧ c'.fpCounter = c.fpCounter + ls.length
  | [], fuel + 1, cs, c, _, hs, _, _ => ⟨cs, c, rfl, hs, by simp, rfl⟩
  | l :: ls, fuel + 1, cs, c, hfuel, hs, hid, hl => by
    have hline := hl l List.mem_cons_self
    have hparsed := parse_line hs (hid ▸ hline)
    rw [List.length_cons] at hfuel
    rw [List.flatMap_cons, List.append_assoc, List.singleton_append, readLines, fgets_line hline.short hline.plain]
    simp only
    generalize (parseCsvLine c (l.1 ++ ['\n'])).1 = c1 at hparsed
    have hindex := hparsed.index
    have hroom := hs.index
    by_cases hfull : c1.fpIndex = fpArraySize
    · -- the arrays are full: they are handed over and refilled from the start
      have hs1 : Shaped { c1 with fpIndex := 0 } :=
        ⟨hparsed.hashes.trans hs.hashes, hparsed.values.trans hs.values, by show 0 < fpArraySize; decide⟩
      obtain ⟨cs', c', hr, hs', hp, hc⟩ := readLines_spec ls fuel (calls cs c1.pending) { c1 with fpIndex := 0 } (by omega)
        hs1 (hparsed.id.trans hid) fun x hx => hl x (List.mem_cons_of_mem _ hx)
      rw [if_pos hfull]
      refine ⟨cs', c', hr, hs', hp.trans ?_, hc.trans ?_⟩
      · simp only [calls, Cache.pending, List.take_zero, List.flatten_append, List.flatten_cons, List.flatten_nil,
          List.append_nil, List.map_cons]
        have := hparsed.pending
        simp only [Cache.pending] at this
        rw [this]; simp
      · simp only [hparsed.counter, List.length_cons]; omega
    · obtain ⟨cs', c', hr, hs', hp, hc⟩ := readLines_spec ls fuel cs c1 (by omega)
        ⟨hparsed.hashes.trans hs.hashes, hparsed.values.trans hs.values, by omega⟩ (hparsed.id.trans hid)
        fun x hx => hl x (List.mem_cons_of_mem _ hx)
      rw [if_neg hfull]
      refine ⟨cs', c', hr, hs', hp.trans ?_, hc.trans ?_⟩
      · rw [hparsed.pending, List.map_cons]; simp
      · rw [hparsed.counter, List.length_cons]; omega

theorem lines_length : ∀ ls : List (List Char × (Nat × Nat)), ls.length ≤ (ls.flatMap fun l => l.1 ++ ['\n']).length
  | [] => Nat.zero_le _
  | l :: ls => by
    have := lines_length ls
    simp only [List.flatMap_cons, List.length_append, List.length_cons, List.length_nil]
    omega

/-- A file of lines is read as their pairs. -/
theorem readCsvFile_spec (id : UInt64) (ls : List (List Char × (Nat × Nat))) (hl : ∀ l ∈ ls, IsLine id l.1 l.2) :
    ∃ cs c, readCsvFile calls [] (new id) (ls.flatMap fun l => l.1 ++ ['\n']) = some (cs, c) ∧
      cs.flatten = ls.map Prod.snd ∧ c.fpCounter = ls.length := by
  obtain ⟨cs, c, hr, _, hp, hc⟩ := readLines_spec ls _ [] (new id) (Nat.lt_succ_of_le (lines_length ls))
    (shaped_new id) rfl hl
  refine ⟨_, _, by rw [readCsvFile, hr]; rfl, ?_, ?_⟩
  · simpa [calls, new, Cache.pending] using hp
  · simpa [new] using hc

/-! ## What was written -/

/-- The pair of a fingerprint. -/
def pair (id : UInt64) (f : Fingerprint V) : Nat × Nat :=
  (f.hash, ((f.timeIndex1 * 2 ^ 32 + id.toNat) % 2 ^ 64).toNat)

/-- The header without its line end. -/
def headerLine : List Char := FpFileWriter.header.dropLast

theorem header_isLine (id : UInt64) : IsLine id headerLine (0, id.toNat) := by
  have hplain : headerLine.all (fun c => decide (c ≠ '\n')) = true := by decide
  refine ⟨by decide, fun c hc => of_decide_eq_true (List.all_eq_true.1 hplain c hc), _, _, _, _, rfl, rfl, ?_⟩
  have hid := id.toNat_lt
  have h1 : strtoull "fp_hash".toList = 0 := by decide
  have h2 : strtoull " t1".toList = 0 := by decide
  refine Prod.ext h1.symm ?_
  show id.toNat = value id (strtoull " t1".toList)
  rw [h2, value, Nat.zero_shiftLeft]
  omega

theorem row_isLine (id : UInt64) (fmt : MagnitudeFormat V) {f : Fingerprint V} (h : f.Ints) :
    IsLine id (FpFileWriter.line fmt f) (pair id f) := by
  refine ⟨?_, FpFileWriter.line_plain fmt f, ?_⟩
  · have := FpFileWriter.line_short fmt h
    simp only [maxLineLen]; omega
  · have hcomma : ∀ c ∈ Nat.toDigits 10 f.hash, c ≠ ',' := fun c hc => (digit_plain (isDigit_of_mem hc)).2.2.2.1
    have hcomma' : ∀ c ∈ ' ' :: formatInt f.timeIndex1, c ≠ ',' := by
      intro c hc
      rcases List.mem_cons.1 hc with rfl | hc
      · decide
      · exact (formatInt_plain hc).1
    have h1 := strtok_token (' ' :: formatInt f.timeIndex1 ++ ',' :: (FpFileWriter.tail fmt f ++ ['\n']))
      Nat.toDigits_ne_nil hcomma
    have h2 := strtok_token (FpFileWriter.tail fmt f ++ ['\n']) (List.cons_ne_nil _ _) hcomma'
    refine ⟨_, _, _, _, by simpa [FpFileWriter.line] using h1, by simpa using h2, ?_⟩
    have hhash := f.hash_lt
    have ht := h.t1
    have hread : strtoull (Nat.toDigits 10 f.hash) = f.hash := by
      have := strtoull_format [] (by simp) (n := f.hash) (by omega)
      rw [List.nil_append, formatInt, if_neg (by omega), Int.natAbs_natCast] at this
      rw [this]; omega
    have hread' : strtoull (' ' :: formatInt f.timeIndex1) = (f.timeIndex1 % 2 ^ 64).toNat :=
      strtoull_format [' '] (by simp [isSpace]) (by omega)
    have hid := id.toNat_lt
    rw [hread, hread', value, pair, Nat.shiftLeft_eq]
    refine Prod.ext rfl ?_
    simp only
    omega

/-- The text of a file that was written in any number of calls. -/
def written (fmt : MagnitudeFormat V) (batches : List (List (Fingerprint V))) : List Char :=
  batches.foldl (FpFileWriter.write fmt) FpFileWriter.header

/-- Its lines with what they are read as. -/
def writtenLines (fmt : MagnitudeFormat V) (id : UInt64) (fingerprints : List (Fingerprint V)) :
    List (List Char × (Nat × Nat)) :=
  (headerLine, (0, id.toNat)) :: fingerprints.map fun f => (FpFileWriter.line fmt f, pair id f)

theorem written_lines (fmt : MagnitudeFormat V) (id : UInt64) (batches : List (List (Fingerprint V))) :
    written fmt batches = (writtenLines fmt id batches.flatten).flatMap fun l => l.1 ++ ['\n'] := by
  have hheader : FpFileWriter.header = headerLine ++ ['\n'] := by decide
  rw [written, FpFileWriter.write_all, writtenLines, hheader, List.flatMap_cons, List.flatMap_map]
  congr 1
  exact List.flatMap_congr fun f _ => FpFileWriter.row_line fmt f

/-- **What a written file is read as**: the pairs of its fingerprints behind a pair for the header. -/
theorem read_written (fmt : MagnitudeFormat V) (id : UInt64) {batches : List (List (Fingerprint V))}
    (h : ∀ f ∈ batches.flatten, f.Ints) :
    ∃ cs c, readCsvFile calls [] (new id) (written fmt batches) = some (cs, c) ∧
      cs.flatten = (0, id.toNat) :: batches.flatten.map (pair id) ∧ c.fpCounter = batches.flatten.length + 1 := by
  have hlines : ∀ l ∈ writtenLines fmt id batches.flatten, IsLine id l.1 l.2 := by
    intro l hl
    rcases List.mem_cons.1 hl with rfl | hl
    · exact header_isLine id
    · obtain ⟨f, hf, rfl⟩ := List.mem_map.1 hl
      exact row_isLine id fmt (h f hf)
  obtain ⟨cs, c, hr, hcs, hc⟩ := readCsvFile_spec id _ hlines
  refine ⟨cs, c, (written_lines fmt id batches) ▸ hr, hcs.trans ?_, hc.trans ?_⟩
  · rw [writtenLines, List.map_cons, List.map_map]; rfl
  · rw [writtenLines, List.length_cons, List.length_map]

/-- Reading passes on exactly the pairs of the fingerprints and counts them. -/
def ReadsBack (fmt : MagnitudeFormat V) (id : UInt64) (batches : List (List (Fingerprint V))) : Prop :=
  ∃ cs c, readCsvFile calls [] (new id) (written fmt batches) = some (cs, c) ∧
    cs.flatten = batches.flatten.map (pair id) ∧ c.fpCounter = batches.flatten.length

theorem not_readsBack (fmt : MagnitudeFormat V) (id : UInt64) {batches : List (List (Fingerprint V))}
    (h : ∀ f ∈ batches.flatten, f.Ints) : ¬ ReadsBack fmt id batches := by
  obtain ⟨cs, c, hr, _, hc⟩ := read_written fmt id h
  rintro ⟨cs', c', hr', _, hc'⟩
  rw [hr, Option.some.injEq, Prod.mk.injEq] at hr'
  rw [← hr'.2, hc] at hc'
  omega

/-- Fingerprints whose integers are values of type `int`, cut into calls of the writer. -/
structure Rows (V : Type) where
  batches : List (List (Fingerprint V))
  ints : ∀ f ∈ batches.flatten, f.Ints

/-- **A file is never read back as it was written**: the header always comes as one pair more. -/
theorem never_reads_back (fmt : MagnitudeFormat V) (id : UInt64) (rows : Rows V) :
    ¬ ReadsBack fmt id rows.batches ∧
      ∃ cs c, readCsvFile calls [] (new id) (written fmt rows.batches) = some (cs, c) ∧
        cs.flatten = (0, id.toNat) :: rows.batches.flatten.map (pair id) ∧
        c.fpCounter = rows.batches.flatten.length + 1 :=
  ⟨not_readsBack fmt id rows.ints, read_written fmt id rows.ints⟩

/-- `%.6f` for the magnitudes that a `float` can hold. -/
def sixDecimals : MagnitudeFormat ℚ where
  text q :=
    let n := (|q| * 10 ^ 6 + 1 / 2).floor.natAbs % 10 ^ 46
    (if q < 0 then ['-'] else []) ++ Nat.toDigits 10 (n / 10 ^ 6) ++ '.' ::
      (Nat.toDigits 10 (10 ^ 6 + n % 10 ^ 6)).drop 1
  short q := by
    have hwhole : ∀ n, n < 10 ^ 46 → (Nat.toDigits 10 (n / 10 ^ 6)).length ≤ 40 := fun n hn =>
      (Nat.length_toDigits_le_iff (by omega) (by omega)).2 (by omega)
    have hpart : ∀ n, (Nat.toDigits 10 (10 ^ 6 + n % 10 ^ 6)).length ≤ 7 := fun n =>
      (Nat.length_toDigits_le_iff (by omega) (by omega)).2 (by omega)
    have hn := Nat.mod_lt (|q| * 10 ^ 6 + 1 / 2).floor.natAbs (show 0 < 10 ^ 46 by decide)
    simp only [List.length_append, List.length_cons, List.length_drop]
    generalize (|q| * 10 ^ 6 + 1 / 2).floor.natAbs % 10 ^ 46 = n at hn ⊢
    have := hwhole n hn
    have := hpart n
    split <;> simp only [List.length_cons, List.length_nil] <;> omega
  plain q := by
    have hdigits : ∀ n, '\n' ∉ Nat.toDigits 10 n := fun n hc => (digit_plain (isDigit_of_mem hc)).2.2.2.2 rfl
    rintro c hc rfl
    simp only [List.mem_append, List.mem_cons] at hc
    rcases hc with (hc | hc) | hc | hc
    · split at hc
      · simp at hc
      · cases hc
    · exact hdigits _ hc
    · simp at hc
    · exact hdigits _ (List.mem_of_mem_drop hc)

/-- One row: its pair comes second. -/
theorem one_row_not_read_back :
    ¬ ReadsBack sixDecimals 7 [[⟨10, 11, 1, 20, 13, 1, 30, 15, 1⟩]] := by
  refine not_readsBack _ _ fun f hf => ?_
  obtain rfl : f = ⟨10, 11, 1, 20, 13, 1, 30, 15, 1⟩ := by simpa using hf
  constructor <;> decide

end Olaf.FpDbWriterCache
