import Olaf.Library.Tokens
import Olaf.Report
/-!
# Reading a result line (`olaf_cli_result_line.zig`)

| here | there |
| --- | --- |
| `Decimals` | `printf` with `%.3f`, and `std.fmt.parseFloat` |
| `parseInt` | `std.fmt.parseInt` for a `u32` in base ten: a sign, digits, underscores between them |
| `OlafResultLine.parse` | `OlafResultLine.parse` (`:18`): `none` for an error |

The printer puts a comma and blanks between its fields and nothing around them. The parser cuts at every comma, drops what is
empty and takes the blanks off, so a path comes back when it has no comma, no blank at its ends and, for a query, a character
(`readsBack_iff`).
-/

namespace Olaf.ResultLine
open CText FpMatcher QueryPrint Tokens

def isBlank (c : Char) : Bool := c = ' ' || c = '\t' || c = '\n' || c = '\r'

/-- A number with fixed decimals is a text without commas and blanks that is read as a number. -/
structure Decimals where
  fixed3 : ℚ → List Char
  parseFloat : List Char → Option ℚ
  nonempty : ∀ v, fixed3 v ≠ []
  plain : ∀ v, ∀ c ∈ fixed3 v, c ≠ ',' ∧ isBlank c = false
  reads : ∀ v, ∃ x, parseFloat (fixed3 v) = some x

def parseInt (s : List Char) : Option Nat :=
  let (negative, digits) := sign s
  if digits = [] ∨ digits.head? = some '_' ∨ digits.getLast? = some '_' then none
  else
    let digits := digits.filter (· ≠ '_')
    if digits.all Char.isDigit then
      let n := Nat.ofDigitChars 10 digits 0
      if 2 ^ 32 ≤ n ∨ (negative ∧ n ≠ 0) then none else some n
    else none

structure OlafResultLine where
  valid : Bool
  emptyMatch : Bool
  index : Nat
  total : Nat
  query : List Char
  queryOffset : ℚ
  matchCount : Nat
  queryStart : ℚ
  queryStop : ℚ
  refPath : List Char
  refId : List Char
  refStart : ℚ
  refStop : ℚ

/-- What is returned for a line that has not eleven fields. -/
def OlafResultLine.invalid : OlafResultLine := ⟨false, true, 0, 0, [], 0, 0, 0, 0, [], [], 0, 0⟩

def OlafResultLine.parse (fmt : Decimals) (line : List Char) : Option OlafResultLine :=
  match (tokenizeAny (· == ',') line).map (trim isBlank) with
  | [index, total, query, queryOffset, matchCount, queryStart, queryStop, refPath, refId, refStart, refStop] => do
    let matchCount ← parseInt matchCount
    let index ← parseInt index
    let total ← parseInt total
    let queryOffset ← fmt.parseFloat queryOffset
    let queryStart ← fmt.parseFloat queryStart
    let queryStop ← fmt.parseFloat queryStop
    let refStart ← fmt.parseFloat refStart
    let refStop ← fmt.parseFloat refStop
    return { valid := true, emptyMatch := matchCount = 0, index, total, query, queryOffset, matchCount, queryStart, queryStop,
             refPath, refId, refStart, refStop }
  | _ => some OlafResultLine.invalid

/-- The line that is printed for a match is valid, with the match in it. -/
def ReadsBack (fmt : Decimals) (ctx : Context) (m : Match) : Prop :=
  ∃ r, OlafResultLine.parse fmt (printMatch fmt.fixed3 ctx m).flatten = some r ∧ r.valid = true ∧ r.query = ctx.queryPath ∧
    (r.matchCount : Int) = m.matchCount ∧ r.refPath = m.path ∧ r.refId = Nat.toDigits 10 m.matchIdentifier.toNat

/-- A text that is a field as it is. -/
structure Plain (s : List Char) : Prop where
  comma : ',' ∉ s
  trimmed : Trimmed isBlank s

/-- The index and the total are printed with `%d`, and the count is read as a `u32`. -/
structure Readable (ctx : Context) (m : Match) : Prop where
  index : (ctx.qIndex + 1) % 2 ^ 32 < 2 ^ 31
  total : ctx.qTotal % 2 ^ 32 < 2 ^ 31
  count : 0 ≤ m.matchCount ∧ m.matchCount < 2 ^ 32
  nonempty : ctx.queryPath ≠ []
  query : Plain ctx.queryPath
  path : Plain m.path

/-! ## Numbers -/

theorem digit_clean {c : Char} (h : c.isDigit = true) : c ≠ ',' ∧ c ≠ '_' ∧ isBlank c = false := by
  refine ⟨(digit_plain h).2.2.2.1, ?_, ?_⟩
  · rintro rfl
    revert h
    decide
  · rw [isBlank, Bool.or_eq_false_iff, Bool.or_eq_false_iff, Bool.or_eq_false_iff]
    refine ⟨⟨⟨?_, ?_⟩, ?_⟩, ?_⟩ <;> rw [decide_eq_false_iff_not] <;> rintro rfl <;> revert h <;> decide

/-- A printed number is a field as it is. -/
theorem formatInt_clean {n : Int} {c : Char} (h : c ∈ formatInt n) : c ≠ ',' ∧ isBlank c = false := by
  unfold formatInt at h
  split at h
  · rcases List.mem_cons.1 h with rfl | h
    · decide
    · exact ⟨(digit_clean (isDigit_of_mem h)).1, (digit_clean (isDigit_of_mem h)).2.2⟩
  · exact ⟨(digit_clean (isDigit_of_mem h)).1, (digit_clean (isDigit_of_mem h)).2.2⟩

theorem trimmed_of_clean {s : List Char} (h : ∀ c ∈ s, isBlank c = false) : Trimmed isBlank s :=
  ⟨fun c hc => h c (List.mem_of_mem_head? hc), fun c hc => h c (List.mem_of_mem_getLast? hc)⟩

theorem trimmed_of_all {s : List Char} (h : (s.all fun c => !isBlank c) = true) : Trimmed isBlank s :=
  trimmed_of_clean fun c hc => Bool.not_eq_true' _ ▸ List.all_eq_true.1 h c hc

/-- **A printed number is read as a `u32` iff it is one.** -/
theorem parseInt_formatInt (n : Int) : parseInt (formatInt n) = if 0 ≤ n ∧ n < 2 ^ 32 then some n.toNat else none := by
  have hdigits : ∀ c ∈ Nat.toDigits 10 n.natAbs, c.isDigit = true := fun c hc => isDigit_of_mem hc
  have hends : ¬ (Nat.toDigits 10 n.natAbs = [] ∨ (Nat.toDigits 10 n.natAbs).head? = some '_' ∨
      (Nat.toDigits 10 n.natAbs).getLast? = some '_') := by
    rintro (h | h | h)
    · exact Nat.toDigits_ne_nil h
    · exact (digit_clean (hdigits _ (List.mem_of_mem_head? h))).2.1 rfl
    · exact (digit_clean (hdigits _ (List.mem_of_mem_getLast? h))).2.1 rfl
  have hfilter : (Nat.toDigits 10 n.natAbs).filter (fun c => decide (c ≠ '_')) = Nat.toDigits 10 n.natAbs :=
    List.filter_eq_self.2 fun c hc => decide_eq_true (digit_clean (hdigits c hc)).2.1
  rw [parseInt, sign_formatInt]
  dsimp only
  rw [if_neg hends, hfilter, if_pos (List.all_eq_true.2 hdigits), Nat.ofDigitChars_ten_toDigits]
  by_cases h : 0 ≤ n ∧ n < 2 ^ 32
  · rw [if_pos h, if_neg (by rw [decide_eq_true_iff]; omega)]
    congr 1
    omega
  · rw [if_neg h, if_pos (by rw [decide_eq_true_iff]; omega)]

/-- A `uint32_t` that is printed with `%d` is read again when it is an `int`. -/
theorem parseInt_i32 (n : Nat) :
    parseInt (formatInt (i32 (n % 2 ^ 32))) = if n % 2 ^ 32 < 2 ^ 31 then some (n % 2 ^ 32) else none := by
  have hn : n % 2 ^ 32 < 2 ^ 32 := Nat.mod_lt _ (by decide)
  rw [parseInt_formatInt, i32]
  by_cases h : n % 2 ^ 32 < 2 ^ 31
  · rw [if_pos h, if_pos h, if_pos (by omega), Int.toNat_natCast]
  · rw [if_neg h, if_neg h, if_neg (by omega)]

/-! ## The line -/

section Line
variable {fmt : Decimals} {ctx : Context} {m : Match}

/-- What is between the commas of a line. -/
def fields (fixed3 : ℚ → List Char) (ctx : Context) (m : Match) : List (List Char) :=
  [formatInt (i32 ((ctx.qIndex + 1) % 2 ^ 32)) ++ [' '], formatInt (i32 (ctx.qTotal % 2 ^ 32)) ++ [' '], ctx.queryPath,
    ' ' :: fixed3 ctx.qOffset, ' ' :: formatInt m.matchCount ++ [' '], fixed3 m.queryStart ++ [' '], fixed3 m.queryStop,
    ' ' :: m.path, ' ' :: Nat.toDigits 10 m.matchIdentifier.toNat, ' ' :: fixed3 m.referenceStart,
    ' ' :: fixed3 m.referenceStop ++ ['\n']]

theorem line_eq (h : excluded ctx m = false) :
    (printMatch fmt.fixed3 ctx m).flatten = [','].intercalate (fields fmt.fixed3 ctx m) := by
  rw [printMatch, if_neg (by rw [h]; decide)]
  simp [fields, List.intercalate, List.intersperse]

/-- Only the paths can bring a comma into their field. -/
theorem comma_fields (hq : ',' ∉ ctx.queryPath) (hp : ',' ∉ m.path) : ∀ field ∈ fields fmt.fixed3 ctx m, ',' ∉ field := by
  have hint : ∀ n : Int, ',' ∉ formatInt n := fun n hc => (formatInt_clean hc).1 rfl
  have hnat : ∀ n : Nat, ',' ∉ Nat.toDigits 10 n := fun n hc => (digit_clean (isDigit_of_mem hc)).1 rfl
  have hfixed : ∀ v, ',' ∉ fmt.fixed3 v := fun v hc => (fmt.plain v _ hc).1 rfl
  simp [fields, hint, hnat, hfixed, hq, hp]

/-- A query without a name is no token. -/
theorem tokenize_line (h : excluded ctx m = false) (hq : ',' ∉ ctx.queryPath) (hp : ',' ∉ m.path) :
    tokenizeAny (· == ',') (printMatch fmt.fixed3 ctx m).flatten =
      if ctx.queryPath = [] then (fields fmt.fixed3 ctx m).eraseIdx 2 else fields fmt.fixed3 ctx m := by
  rw [line_eq h, tokenizeAny_intercalate (comma_fields hq hp)]
  have hne : ∀ v, (fmt.fixed3 v).isEmpty = false := fun v => by simpa using fmt.nonempty v
  split
  · rename_i hnil
    simp [fields, hnil, fmt.nonempty]
  · rename_i hnil
    simp [fields, hnil, fmt.nonempty]

/-- What is around a field is taken off. -/
theorem trim_fields (hq : Trimmed isBlank ctx.queryPath) (hp : Trimmed isBlank m.path) :
    (fields fmt.fixed3 ctx m).map (trim isBlank) =
      [formatInt (i32 ((ctx.qIndex + 1) % 2 ^ 32)), formatInt (i32 (ctx.qTotal % 2 ^ 32)), ctx.queryPath,
        fmt.fixed3 ctx.qOffset, formatInt m.matchCount, fmt.fixed3 m.queryStart, fmt.fixed3 m.queryStop, m.path,
        Nat.toDigits 10 m.matchIdentifier.toNat, fmt.fixed3 m.referenceStart, fmt.fixed3 m.referenceStop] := by
  have hcons : ∀ s, trim isBlank (' ' :: s) = trim isBlank s := fun s => trim_cons s rfl
  have hblank : ∀ s, trim isBlank (s ++ [' ']) = trim isBlank s := fun s => trim_concat s rfl
  have hend : ∀ s, trim isBlank (s ++ ['\n']) = trim isBlank s := fun s => trim_concat s rfl
  have hint : ∀ n : Int, trim isBlank (formatInt n) = formatInt n :=
    fun n => trim_self (trimmed_of_clean fun c hc => (formatInt_clean hc).2)
  have hnat : ∀ n : Nat, trim isBlank (Nat.toDigits 10 n) = Nat.toDigits 10 n :=
    fun n => trim_self (trimmed_of_clean fun c hc => (digit_clean (isDigit_of_mem hc)).2.2)
  have hfixed : ∀ v, trim isBlank (fmt.fixed3 v) = fmt.fixed3 v :=
    fun v => trim_self (trimmed_of_clean fun c hc => (fmt.plain v c hc).2)
  simp only [fields, List.map_cons, List.map_nil, List.cons_append, hcons, hblank, hend, hint, hnat, hfixed, trim_self hq,
    trim_self hp]

/-- A field of a valid line was between commas, and is without blanks at its ends. -/
theorem parse_plain {line : List Char} {r : OlafResultLine} (h : OlafResultLine.parse fmt line = some r)
    (hvalid : r.valid = true) : Plain r.query ∧ Plain r.refPath := by
  have hplain : ∀ part ∈ (tokenizeAny (· == ',') line).map (trim isBlank), Plain part := by
    intro part hpart
    obtain ⟨token, htoken, rfl⟩ := List.mem_map.1 hpart
    refine ⟨fun hc => ?_, trim_trimmed isBlank token⟩
    exact absurd (plain_of_mem htoken _ (mem_of_mem_trim hc)) (by decide)
  rw [OlafResultLine.parse] at h
  split at h
  · rename_i index total query queryOffset matchCount queryStart queryStop refPath refId refStart refStop hparts
    rw [hparts] at hplain
    simp only [Option.bind_eq_bind, Option.bind_eq_some_iff, Option.pure_def, Option.some.injEq] at h
    obtain ⟨_, _, _, _, _, _, _, _, _, _, _, _, _, _, _, _, rfl⟩ := h
    exact ⟨hplain query (by simp), hplain refPath (by simp)⟩
  · rw [← Option.some.inj h] at hvalid
    cases hvalid

variable (fmt) in
/-- A line with plain paths is read up to its three numbers of type `u32`. -/
theorem parse_line (h : excluded ctx m = false) (hne : ctx.queryPath ≠ []) (hq : Plain ctx.queryPath) (hp : Plain m.path) :
    ∃ queryOffset queryStart queryStop refStart refStop,
      OlafResultLine.parse fmt (printMatch fmt.fixed3 ctx m).flatten = (do
        let matchCount ← parseInt (formatInt m.matchCount)
        let index ← parseInt (formatInt (i32 ((ctx.qIndex + 1) % 2 ^ 32)))
        let total ← parseInt (formatInt (i32 (ctx.qTotal % 2 ^ 32)))
        return { valid := true, emptyMatch := matchCount = 0, index, total, query := ctx.queryPath, queryOffset, matchCount,
                 queryStart, queryStop, refPath := m.path, refId := Nat.toDigits 10 m.matchIdentifier.toNat, refStart,
                 refStop }) := by
  obtain ⟨queryOffset, hoffset⟩ := fmt.reads ctx.qOffset
  obtain ⟨queryStart, hstart⟩ := fmt.reads m.queryStart
  obtain ⟨queryStop, hstop⟩ := fmt.reads m.queryStop
  obtain ⟨refStart, hrefStart⟩ := fmt.reads m.referenceStart
  obtain ⟨refStop, hrefStop⟩ := fmt.reads m.referenceStop
  refine ⟨queryOffset, queryStart, queryStop, refStart, refStop, ?_⟩
  rw [OlafResultLine.parse, tokenize_line h hq.comma hp.comma, if_neg hne, trim_fields hq.trimmed hp.trimmed]
  simp only [hoffset, hstart, hstop, hrefStart, hrefStop, Option.bind_eq_bind, Option.bind_some]

/-- A line without a query has ten fields. -/
theorem parse_nameless (h : excluded ctx m = false) (hnil : ctx.queryPath = []) (hp : ',' ∉ m.path) :
    OlafResultLine.parse fmt (printMatch fmt.fixed3 ctx m).flatten = some OlafResultLine.invalid := by
  rw [OlafResultLine.parse, tokenize_line h (by rw [hnil]; exact List.not_mem_nil) hp, if_pos hnil]
  rfl

theorem readable_of_readsBack (h : excluded ctx m = false) (hread : ReadsBack fmt ctx m) : Readable ctx m := by
  obtain ⟨r, hr, hvalid, hquery, hcount, hpath, _⟩ := hread
  obtain ⟨hq, hp⟩ := parse_plain hr hvalid
  rw [hquery] at hq
  rw [hpath] at hp
  have hne : ctx.queryPath ≠ [] := by
    intro hnil
    rw [parse_nameless h hnil hp.comma] at hr
    rw [← Option.some.inj hr] at hvalid
    cases hvalid
  obtain ⟨_, _, _, _, _, hline⟩ := parse_line fmt h hne hq hp
  rw [hline, parseInt_formatInt, parseInt_i32, parseInt_i32] at hr
  -- every number was read
  by_cases hc : 0 ≤ m.matchCount ∧ m.matchCount < 2 ^ 32
  · by_cases hi : (ctx.qIndex + 1) % 2 ^ 32 < 2 ^ 31
    · by_cases ht : ctx.qTotal % 2 ^ 32 < 2 ^ 31
      · exact ⟨hi, ht, hc, hne, hq, hp⟩
      · rw [if_pos hc, if_pos hi, if_neg ht] at hr
        cases hr
    · rw [if_pos hc, if_neg hi] at hr
      cases hr
  · rw [if_neg hc] at hr
    cases hr

/-- **The line of a match is read back iff its paths are fields as they are, the query has a name, and its numbers are of type
`u32`.** -/
theorem readsBack_iff (fmt : Decimals) (ctx : Context) (m : Match) (h : excluded ctx m = false) :
    ReadsBack fmt ctx m ↔ Readable ctx m := by
  refine ⟨readable_of_readsBack h, fun hread => ?_⟩
  obtain ⟨_, _, _, _, _, hline⟩ := parse_line fmt h hread.nonempty hread.query hread.path
  rw [ReadsBack, hline, parseInt_formatInt, parseInt_i32, parseInt_i32, if_pos hread.count, if_pos hread.index,
    if_pos hread.total]
  exact ⟨_, rfl, rfl, rfl, Int.toNat_of_nonneg hread.count.1, rfl, rfl⟩

end Line

/-- Thousandths, with a tie rounded up. -/
def thousandths : Decimals where
  fixed3 v :=
    let n := (v * 1000 + 1 / 2).floor
    (if n < 0 then ['-'] else []) ++ Nat.toDigits 10 (n.natAbs / 1000) ++ '.' :: (Nat.toDigits 10 (1000 + n.natAbs % 1000)).drop 1
  parseFloat s :=
    let n : ℚ := Nat.ofDigitChars 10 (s.filter Char.isDigit) 0
    if s.all (fun c => c.isDigit || c = '.' || c = '-') then some (if s.head? = some '-' then -n / 1000 else n / 1000) else none
  nonempty v := by simp
  plain v c hc := by
    rcases List.mem_append.1 hc with hc | hc
    · rcases List.mem_append.1 hc with hc | hc
      · split at hc
        · obtain rfl := List.mem_singleton.1 hc
          decide
        · cases hc
      · exact ⟨(digit_clean (isDigit_of_mem hc)).1, (digit_clean (isDigit_of_mem hc)).2.2⟩
    · rcases List.mem_cons.1 hc with rfl | hc
      · decide
      · have hdigit := isDigit_of_mem (List.mem_of_mem_drop hc)
        exact ⟨(digit_clean hdigit).1, (digit_clean hdigit).2.2⟩
  reads v := by
    refine ⟨_, if_pos (List.all_eq_true.2 fun c hc => ?_)⟩
    rw [Bool.or_eq_true, Bool.or_eq_true, decide_eq_true_iff, decide_eq_true_iff]
    rcases List.mem_append.1 hc with hc | hc
    · rcases List.mem_append.1 hc with hc | hc
      · split at hc
        · exact Or.inr (List.mem_singleton.1 hc)
        · cases hc
      · exact Or.inl (Or.inl (isDigit_of_mem hc))
    · rcases List.mem_cons.1 hc with rfl | hc
      · exact Or.inl (Or.inr rfl)
      · exact Or.inl (Or.inl (isDigit_of_mem (List.mem_of_mem_drop hc)))

/-- Six hits in the file stored under 7. -/
def sixHits : Match := ⟨6, 1 / 2, 3 / 2, "music/b.mp3".toList, 7, 10, 11⟩

theorem readsBack_iff_sixHits : ReadsBack thousandths ⟨0, 1, "a.mp3".toList, 0, 0⟩ sixHits :=
  (readsBack_iff thousandths ⟨0, 1, "a.mp3".toList, 0, 0⟩ sixHits rfl).2
    { index := by decide
      total := by decide
      count := by decide
      nonempty := by decide
      query := ⟨by decide, trimmed_of_all (by decide)⟩
      path := ⟨by decide, trimmed_of_all (by decide)⟩ }

/-- A comma in a file name is taken for the end of the field. -/
theorem commaInName_not_readsBack : ¬ ∀ (fmt : Decimals) (ctx : Context) (m : Match), excluded ctx m = false →
    ReadsBack fmt ctx m := by
  intro h
  have hread := h thousandths ⟨0, 1, "a,b.mp3".toList, 0, 0⟩ emptyResult rfl
  exact (readable_of_readsBack rfl hread).query.comma (by decide)

end Olaf.ResultLine
