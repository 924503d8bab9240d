import Mathlib.Algebra.Group.Int.Defs
import Mathlib.Algebra.Group.Nat.Defs
import Mathlib.Data.List.TakeWhile
/-!
# Text functions of the C library

| here | there |
| --- | --- |
| `formatInt` | `printf` with `%d`; `Nat.toDigits 10` is `%u` |
| `strtoull`  | `strtoull` in base ten: white space, a sign, digits; what does not fit is the largest value, a minus sign negates the result in the unsigned type |
| `strtok`    | `strtok` with one delimiter: the token and what the next call continues with |
| `fgets`     | `fgets`: up to `size - 1` characters, not beyond a newline |

A text is its list of characters; none of them is zero. `strtoull_format`: reading a printed number after
blanks gives the number. `strtok_token` and `fgets_line` say what is read from a text put together of tokens and lines.
-/

namespace CText

/-- `isspace`. -/
def isSpace (c : Char) : Bool := c = ' ' ∨ c = '\t' ∨ c = '\n' ∨ c = '\x0b' ∨ c = '\x0c' ∨ c = '\r'

def formatInt (n : Int) : List Char := if n < 0 then '-' :: Nat.toDigits 10 n.natAbs else Nat.toDigits 10 n.natAbs

/-- The digits at the front of a text as a number. -/
def leadingNumber (s : List Char) : Nat := Nat.ofDigitChars 10 (s.takeWhile Char.isDigit) 0

/-- The sign, and what follows. -/
def sign : List Char → Bool × List Char
  | '-' :: s => (true, s)
  | '+' :: s => (false, s)
  | s => (false, s)

def strtoull (s : List Char) : Nat :=
  let (negative, s) := sign (s.dropWhile isSpace)
  let n := leadingNumber s
  if 2 ^ 64 ≤ n then 2 ^ 64 - 1 else if negative then (2 ^ 64 - n) % 2 ^ 64 else n

def strtok (delim : Char) (s : List Char) : Option (List Char × List Char) :=
  match s.dropWhile (· = delim) with
  | [] => none
  | c :: s => some ((c :: s).takeWhile (· ≠ delim), ((c :: s).dropWhile (· ≠ delim)).drop 1)

/-- Up to `n` characters, not beyond a newline. -/
def splitLine : Nat → List Char → List Char × List Char
  | 0, s => ([], s)
  | _ + 1, [] => ([], [])
  | n + 1, c :: s => if c = '\n' then ([c], s) else (c :: (splitLine n s).1, (splitLine n s).2)

def fgets (size : Nat) (s : List Char) : Option (List Char × List Char) :=
  if s = [] then none else some (splitLine (size - 1) s)

/-! ## Reading what was printed -/

theorem digit_plain {c : Char} (h : c.isDigit = true) : isSpace c = false ∧ c ≠ '-' ∧ c ≠ '+' ∧ c ≠ ',' ∧ c ≠ '\n' := by
  refine ⟨?_, ?_, ?_, ?_, ?_⟩
  · rw [isSpace, decide_eq_false_iff_not]
    rintro (rfl | rfl | rfl | rfl | rfl | rfl) <;> revert h <;> decide
  all_goals rintro rfl; revert h; decide

theorem isDigit_of_mem {n : Nat} {c : Char} (h : c ∈ Nat.toDigits 10 n) : c.isDigit = true :=
  Nat.isDigit_of_mem_toDigits (by omega) (by omega) h

theorem leadingNumber_toDigits (n : Nat) : leadingNumber (Nat.toDigits 10 n) = n := by
  have hall : (Nat.toDigits 10 n).takeWhile Char.isDigit = Nat.toDigits 10 n :=
    List.takeWhile_eq_self_iff.2 fun _ hc => isDigit_of_mem hc
  rw [leadingNumber, hall, Nat.ofDigitChars_ten_toDigits]

/-- The first character of a printed number is a sign or a digit. -/
theorem formatInt_cons (n : Int) : ∃ c s, formatInt n = c :: s ∧ (c = '-' ∨ c.isDigit = true) := by
  unfold formatInt
  split
  · exact ⟨_, _, rfl, Or.inl rfl⟩
  · cases h : Nat.toDigits 10 n.natAbs with
    | nil => exact absurd h Nat.toDigits_ne_nil
    | cons c s => exact ⟨c, s, rfl, Or.inr (isDigit_of_mem (h ▸ List.mem_cons_self))⟩

/-- A printed number has no comma and no line end. -/
theorem formatInt_plain {n : Int} {c : Char} (h : c ∈ formatInt n) : c ≠ ',' ∧ c ≠ '\n' := by
  have hd : ∀ c ∈ Nat.toDigits 10 n.natAbs, c ≠ ',' ∧ c ≠ '\n' := fun c hc => (digit_plain (isDigit_of_mem hc)).2.2.2
  unfold formatInt at h
  split at h
  · rcases List.mem_cons.1 h with rfl | h
    · decide
    · exact hd c h
  · exact hd c h

theorem formatInt_length_le {n : Int} {k : Nat} (hk : 0 < k) (h : n.natAbs < 10 ^ k) : (formatInt n).length ≤ k + 1 := by
  have hd := (Nat.length_toDigits_le_iff (b := 10) (by omega) hk).2 h
  unfold formatInt
  split
  · exact Nat.succ_le_succ hd
  · exact Nat.le_succ_of_le hd

theorem sign_formatInt (n : Int) : sign (formatInt n) = (decide (n < 0), Nat.toDigits 10 n.natAbs) := by
  unfold formatInt
  split
  · rename_i h
    rw [sign, decide_eq_true h]
  · rename_i h
    cases hd : Nat.toDigits 10 n.natAbs with
    | nil => exact absurd hd Nat.toDigits_ne_nil
    | cons c s =>
      obtain ⟨_, h1, h2, _⟩ := digit_plain (isDigit_of_mem (hd ▸ List.mem_cons_self : c ∈ Nat.toDigits 10 n.natAbs))
      rw [decide_eq_false h]
      unfold sign
      split
      · rename_i heq; exact absurd (List.cons.inj heq).1 h1
      · rename_i heq; exact absurd (List.cons.inj heq).1 h2
      · rfl

/-- Numbers that are printed the same are the same. -/
theorem formatInt_inj {n m : Int} : formatInt n = formatInt m ↔ n = m := by
  refine ⟨fun h => ?_, congrArg formatInt⟩
  have hs := congrArg sign h
  rw [sign_formatInt, sign_formatInt, Prod.mk.injEq, decide_eq_decide] at hs
  have habs := congrArg leadingNumber hs.2
  rw [leadingNumber_toDigits, leadingNumber_toDigits] at habs
  have hsign := hs.1
  omega

/-- **Reading a printed number after blanks gives the number**, as the unsigned type has it. -/
theorem strtoull_format (blanks : List Char) (hb : ∀ c ∈ blanks, isSpace c = true) {n : Int} (hn : n.natAbs < 2 ^ 64) :
    strtoull (blanks ++ formatInt n) = (n % 2 ^ 64).toNat := by
  obtain ⟨c, s, hcs, hc⟩ := formatInt_cons n
  have hspace : isSpace c = false := by
    rcases hc with rfl | hc
    · decide
    · exact (digit_plain hc).1
  have hdrop : (blanks ++ formatInt n).dropWhile isSpace = formatInt n := by
    rw [List.dropWhile_append_of_pos hb, hcs, List.dropWhile_cons_of_neg (by rw [hspace]; decide)]
  rw [strtoull, hdrop, sign_formatInt]
  simp only
  rw [leadingNumber_toDigits, if_neg (by omega)]
  by_cases hneg : n < 0
  · rw [if_pos (decide_eq_true hneg)]; omega
  · rw [if_neg (by simpa using hneg)]; omega

theorem strtok_token {delim : Char} {token : List Char} (rest : List Char) (hne : token ≠ []) (ht : ∀ c ∈ token, c ≠ delim) :
    strtok delim (token ++ delim :: rest) = some (token, rest) := by
  have hpos : ∀ c ∈ token, (decide (c ≠ delim)) = true := fun c hc => decide_eq_true (ht c hc)
  have htake : (token ++ delim :: rest).takeWhile (fun c => decide (c ≠ delim)) = token := by
    rw [List.takeWhile_append_of_pos hpos, List.takeWhile_cons_of_neg (by simp), List.append_nil]
  have hdrop : (token ++ delim :: rest).dropWhile (fun c => decide (c ≠ delim)) = delim :: rest := by
    rw [List.dropWhile_append_of_pos hpos, List.dropWhile_cons_of_neg (by simp)]
  obtain ⟨c, s, rfl⟩ := List.exists_cons_of_ne_nil hne
  have hkeep : (c :: s ++ delim :: rest).dropWhile (fun c => decide (c = delim)) = c :: (s ++ delim :: rest) :=
    List.dropWhile_cons_of_neg (by simpa using ht c List.mem_cons_self)
  rw [strtok, hkeep]
  simp only
  rw [← List.cons_append, htake, hdrop]
  rfl

theorem splitLine_line : ∀ {n : Nat} {line : List Char} (rest : List Char), line.length < n → (∀ c ∈ line, c ≠ '\n') →
    splitLine n (line ++ '\n' :: rest) = (line ++ ['\n'], rest)
  | 0, _, _, h, _ => by omega
  | n + 1, [], rest, _, _ => by rw [List.nil_append, splitLine, if_pos rfl]; rfl
  | n + 1, c :: line, rest, h, hl => by
    rw [List.length_cons] at h
    rw [List.cons_append, splitLine, if_neg (hl c List.mem_cons_self),
      splitLine_line rest (by omega) fun c hc => hl c (List.mem_cons_of_mem _ hc)]
    rfl

theorem splitLine_append (n : Nat) (s : List Char) : (splitLine n s).1 ++ (splitLine n s).2 = s := by
  induction n generalizing s with
  | zero => rfl
  | succ n ih =>
    cases s with
    | nil => rfl
    | cons c s =>
      rw [splitLine]
      split
      · rfl
      · exact congrArg (c :: ·) (ih s)

theorem fgets_line {size : Nat} {line rest : List Char} (h : line.length + 1 < size) (hl : ∀ c ∈ line, c ≠ '\n') :
    fgets size (line ++ '\n' :: rest) = some (line ++ ['\n'], rest) := by
  rw [fgets, if_neg (by simp), splitLine_line rest (by omega) hl]

end CText
