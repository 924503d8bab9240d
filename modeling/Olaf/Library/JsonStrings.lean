import Mathlib.Data.List.Basic
/-!
# The strings of JSON

| here | there |
| --- | --- |
| `shortEscape` | the escapes of one letter |
| `hexDigit`, `hex4` | the four digits behind `\u`, in either case |
| `utf8`     | the bytes of a character; none for half of a surrogate pair |
| `Encodes`  | what may stand between two quotes, and what it stands for |
| `readFrom`, `readString` | a reader, byte after byte, up to the first quote that is not escaped |

Over bytes. What the grammar allows is read as what it stands for, up to the quote behind it and whatever follows that
(`Encodes.readString`).
-/

namespace JsonStrings

def quote : UInt8 := 34

def backslash : UInt8 := 92

def shortEscape (letter : UInt8) : Option UInt8 :=
  if letter = 34 then some 34
  else if letter = 92 then some 92
  else if letter = 47 then some 47
  else if letter = 98 then some 8
  else if letter = 102 then some 12
  else if letter = 110 then some 10
  else if letter = 114 then some 13
  else if letter = 116 then some 9
  else none

def hexDigit (c : UInt8) : Option Nat :=
  if 48 ≤ c ∧ c ≤ 57 then some (c.toNat - 48)
  else if 97 ≤ c ∧ c ≤ 102 then some (c.toNat - 87)
  else if 65 ≤ c ∧ c ≤ 70 then some (c.toNat - 55)
  else none

def hex4 (a b c d : UInt8) : Option Nat := do
  let a ← hexDigit a
  let b ← hexDigit b
  let c ← hexDigit c
  let d ← hexDigit d
  return ((a * 16 + b) * 16 + c) * 16 + d

def utf8 (code : Nat) : Option (List UInt8) :=
  if code.isValidChar then some (String.utf8EncodeChar (Char.ofNat code)) else none

/-- The first list is between quotes and stands for the second one. -/
inductive Encodes : List UInt8 → List UInt8 → Prop
  | nil : Encodes [] []
  | raw {c : UInt8} {body s : List UInt8} : 32 ≤ c → c ≠ quote → c ≠ backslash → Encodes body s →
      Encodes (c :: body) (c :: s)
  | short {letter c : UInt8} {body s : List UInt8} : shortEscape letter = some c → Encodes body s →
      Encodes (backslash :: letter :: body) (c :: s)
  | unicode {a b c d : UInt8} {code : Nat} {char body s : List UInt8} : hex4 a b c d = some code → utf8 code = some char →
      Encodes body s → Encodes (backslash :: 117 :: a :: b :: c :: d :: body) (char ++ s)

/-- Where a reader is: in the text, behind a backslash, or between the digits of a code. -/
inductive State
  | text
  | escape
  | code (missing value : Nat)

/-- What was read before the rest. -/
def behind (char : List UInt8) : Option (List UInt8 × List UInt8) → Option (List UInt8 × List UInt8) :=
  Option.map fun r => (char ++ r.1, r.2)

/-- What is read, and what follows the quote at its end. -/
def readFrom : State → List UInt8 → Option (List UInt8 × List UInt8)
  | _, [] => none
  | .text, c :: rest =>
    if c = quote then some ([], rest)
    else if c = backslash then readFrom .escape rest
    else if c < 32 then none
    else behind [c] (readFrom .text rest)
  | .escape, letter :: rest =>
    if letter = 117 then readFrom (.code 4 0) rest
    else (shortEscape letter).bind fun c => behind [c] (readFrom .text rest)
  | .code missing value, digit :: rest =>
    (hexDigit digit).bind fun n =>
      if missing ≤ 1 then (utf8 (value * 16 + n)).bind fun char => behind char (readFrom .text rest)
      else readFrom (.code (missing - 1) (value * 16 + n)) rest

/-- A string with its quotes. -/
def readString : List UInt8 → Option (List UInt8 × List UInt8)
  | [] => none
  | c :: rest => if c = quote then readFrom .text rest else none

theorem shortEscape_ne {letter c : UInt8} (h : shortEscape letter = some c) : letter ≠ 117 := by
  rintro rfl
  cases h

theorem readFrom_code {a b c d : UInt8} {code : Nat} (h : hex4 a b c d = some code) (rest : List UInt8) :
    readFrom (.code 4 0) (a :: b :: c :: d :: rest) = (utf8 code).bind fun char => behind char (readFrom .text rest) := by
  simp only [hex4, Option.bind_eq_bind, Option.bind_eq_some_iff, Option.pure_def, Option.some.injEq] at h
  obtain ⟨na, ha, nb, hb, nc, hc, nd, hd, rfl⟩ := h
  simp only [readFrom, ha, hb, hc, hd, Option.bind_some, Nat.zero_mul, Nat.zero_add]
  rfl

/-- **What the grammar allows is read as what it stands for.** -/
theorem Encodes.readFrom {body s : List UInt8} (h : Encodes body s) (rest : List UInt8) :
    readFrom .text (body ++ quote :: rest) = some (s, rest) := by
  induction h with
  | nil => rw [List.nil_append, JsonStrings.readFrom, if_pos rfl]
  | raw hc hquote hbackslash _ ih =>
    rw [List.cons_append, JsonStrings.readFrom, if_neg hquote, if_neg hbackslash, if_neg (UInt8.not_lt.2 hc), ih]
    rfl
  | short hletter _ ih =>
    rw [List.cons_append, List.cons_append, JsonStrings.readFrom, if_neg (by decide), if_pos rfl, JsonStrings.readFrom,
      if_neg (shortEscape_ne hletter), hletter, Option.bind_some, ih]
    rfl
  | unicode hcode hchar _ ih =>
    simp only [List.cons_append]
    rw [JsonStrings.readFrom, if_neg (by decide), if_pos rfl, JsonStrings.readFrom, if_pos rfl, readFrom_code hcode, hchar,
      Option.bind_some, ih]
    rfl

theorem Encodes.readString {body s : List UInt8} (h : Encodes body s) (rest : List UInt8) :
    readString (quote :: body ++ quote :: rest) = some (s, rest) := by
  rw [List.cons_append, JsonStrings.readString, if_pos rfl, h.readFrom]

theorem shortEscape_ge {letter c : UInt8} (h : shortEscape letter = some c) : 32 ≤ letter := by
  by_contra hlow
  rw [UInt8.not_le] at hlow
  unfold shortEscape at h
  grind

theorem hexDigit_ge {c : UInt8} {n : Nat} (h : hexDigit c = some n) : 32 ≤ c := by
  unfold hexDigit at h
  grind

/-- No byte between the quotes is a control character. -/
theorem Encodes.printable {body s : List UInt8} (h : Encodes body s) : ∀ c ∈ body, 32 ≤ c := by
  induction h with
  | nil => nofun
  | raw hc _ _ _ ih => exact List.forall_mem_cons.2 ⟨hc, ih⟩
  | short hletter _ ih =>
    exact List.forall_mem_cons.2 ⟨by decide, List.forall_mem_cons.2 ⟨shortEscape_ge hletter, ih⟩⟩
  | unicode hcode _ _ ih =>
    simp only [hex4, Option.bind_eq_bind, Option.bind_eq_some_iff] at hcode
    obtain ⟨_, ha, _, hb, _, hc, _, hd, _⟩ := hcode
    simp only [List.forall_mem_cons]
    exact ⟨by decide, by decide, hexDigit_ge ha, hexDigit_ge hb, hexDigit_ge hc, hexDigit_ge hd, ih⟩

end JsonStrings
