import Mathlib.Data.List.Forall2
/-!
# Records with commas

| here | there |
| --- | --- |
| `Encodes`  | what may stand for a field: its bytes when none of them is special, else the field between quotes, each quote in it twice |
| `readRows` | a reader, byte after byte |
| `lines`    | records with a newline behind each |

Over bytes, after RFC 4180; a record ends at a newline, with a carriage return before it or without. What the encoding allows
is read as what it stands for (`readRows_lines`).
-/

namespace Csv

def quote : UInt8 := 34

def comma : UInt8 := 44

def newline : UInt8 := 10

def carriageReturn : UInt8 := 13

def special (c : UInt8) : Bool := c = comma || c = quote || c = newline || c = carriageReturn

/-- Each quote twice. -/
def double (s : List UInt8) : List UInt8 := s.flatMap fun c => if c = quote then [quote, c] else [c]

inductive Encodes : List UInt8 → List UInt8 → Prop
  | plain {s : List UInt8} : (∀ c ∈ s, special c = false) → Encodes s s
  | quoted (s : List UInt8) : Encodes (quote :: double s ++ [quote]) s

/-- Where a reader is: before a field, in one, between quotes, behind a quote of these, or behind a carriage return. -/
inductive State
  | start
  | plain
  | quoted
  | closed
  | ending
deriving DecidableEq

/-- What a reader does with a byte. -/
inductive Action
  | skip (target : State)
  | push (target : State)
  | endField
  | endRecord

def State.next (state : State) (c : UInt8) : Option Action :=
  match state with
  | .quoted => some (if c = quote then .skip .closed else .push .quoted)
  | .ending => if c = newline then some .endRecord else none
  | .start | .plain | .closed =>
    if c = comma then some .endField
    else if c = newline then some .endRecord
    else if c = carriageReturn then some (.skip .ending)
    else if c = quote then
      if state = .start then some (.skip .quoted) else if state = .closed then some (.push .quoted) else none
    else if state = .closed then none
    else some (.push .plain)

/-- The rows of a text; `field` and `row` are what was read of the field and of the record. -/
def readRows (state : State) (field : List UInt8) (row : List (List UInt8)) : List UInt8 → Option (List (List (List UInt8)))
  | [] => if state = .start ∧ row = [] then some [] else none
  | c :: s =>
    match state.next c with
    | none => none
    | some (.skip target) => readRows target field row s
    | some (.push target) => readRows target (field ++ [c]) row s
    | some .endField => readRows .start [] (row ++ [field]) s
    | some .endRecord => (readRows .start [] [] s).map ((row ++ [field]) :: ·)

/-- The end of a field. -/
def ended (field : List UInt8) (row : List (List UInt8)) (c : UInt8) (rest : List UInt8) : Option (List (List (List UInt8))) :=
  if c = comma then readRows .start [] (row ++ [field]) rest
  else (readRows .start [] [] rest).map ((row ++ [field]) :: ·)

/-- A comma or a newline. -/
abbrev Ends (c : UInt8) : Prop := c = comma ∨ c = newline

variable {c : UInt8} {row : List (List UInt8)}

theorem readRows_skip {state target : State} {d : UInt8} (h : state.next d = some (.skip target)) (field rest : List UInt8) :
    readRows state field row (d :: rest) = readRows target field row rest := by
  rw [readRows, h]

theorem readRows_push {state target : State} {d : UInt8} (h : state.next d = some (.push target)) (field rest : List UInt8) :
    readRows state field row (d :: rest) = readRows target (field ++ [d]) row rest := by
  rw [readRows, h]

theorem readRows_end (hc : Ends c) {state : State} (hstate : state ≠ .quoted) (hopen : state ≠ .ending) (field rest : List UInt8) :
    readRows state field row (c :: rest) = ended field row c rest := by
  rcases hc with rfl | rfl <;> cases state <;> first | rfl | contradiction

theorem next_plain {d : UInt8} (hd : special d = false) {state : State} (hstate : state = .start ∨ state = .plain) :
    state.next d = some (.push .plain) := by
  simp only [special, Bool.or_eq_false_iff, decide_eq_false_iff_not] at hd
  obtain ⟨⟨⟨hcomma, hquote⟩, hnewline⟩, hreturn⟩ := hd
  rcases hstate with rfl | rfl <;>
    rw [State.next, if_neg hcomma, if_neg hnewline, if_neg hreturn, if_neg hquote, if_neg (by decide)]

theorem readRows_plain (hc : Ends c) {s : List UInt8} (hs : ∀ d ∈ s, special d = false) {state : State}
    (hstate : state = .start ∨ state = .plain) (field rest : List UInt8) :
    readRows state field row (s ++ c :: rest) = ended (field ++ s) row c rest := by
  induction s generalizing state field with
  | nil =>
    rw [List.nil_append, List.append_nil]
    refine readRows_end hc ?_ ?_ field rest <;> rcases hstate with rfl | rfl <;> decide
  | cons d s ih =>
    obtain ⟨hd, hs⟩ := List.forall_mem_cons.1 hs
    rw [List.cons_append, readRows_push (next_plain hd hstate), ih hs (Or.inr rfl), List.append_assoc, List.singleton_append]

/-- Between quotes everything stands for itself, but a quote is there twice. -/
theorem readRows_double (s field rest : List UInt8) :
    readRows .quoted field row (double s ++ quote :: rest) = readRows .closed (field ++ s) row rest := by
  induction s generalizing field with
  | nil =>
    rw [List.append_nil]
    exact readRows_skip rfl field rest
  | cons d s ih =>
    have hfield : field ++ d :: s = field ++ [d] ++ s := by simp
    rw [double, List.flatMap_cons, ← double, hfield, ← ih]
    split
    · next h =>
      subst h
      exact (readRows_skip rfl field _).trans (readRows_push rfl field _)
    · next h =>
      have hnext : State.quoted.next d = some (.push .quoted) := congrArg some (if_neg h)
      exact readRows_push hnext field _

/-- A field is read up to the byte behind it. -/
theorem Encodes.readRows {text s : List UInt8} (h : Encodes text s) (hc : Ends c) (rest : List UInt8) :
    readRows .start [] row (text ++ c :: rest) = ended s row c rest := by
  cases h with
  | plain hs => exact readRows_plain hc hs (Or.inl rfl) [] rest
  | quoted =>
    have htext : quote :: double s ++ [quote] ++ c :: rest = quote :: (double s ++ quote :: (c :: rest)) := by simp
    rw [htext, readRows_skip rfl, readRows_double]
    exact readRows_end hc (by decide) (by decide) s rest

/-! ## Records -/

/-- The fields of a record, and the newline behind them. -/
def line : List (List UInt8) → List UInt8
  | [] => []
  | [text] => text ++ [newline]
  | text :: texts => text ++ comma :: line texts

def lines (records : List (List (List UInt8))) : List UInt8 := records.flatMap line

theorem readRows_line {texts fields : List (List UInt8)} (h : List.Forall₂ Encodes texts fields) (hne : texts ≠ [])
    (row : List (List UInt8)) (rest : List UInt8) :
    readRows .start [] row (line texts ++ rest) = (readRows .start [] [] rest).map ((row ++ fields) :: ·) := by
  induction h generalizing row with
  | nil => exact absurd rfl hne
  | @cons text field texts fields hfield hfields ih =>
    cases texts with
    | nil =>
      cases hfields
      rw [line, List.append_assoc]
      exact hfield.readRows (Or.inr rfl) rest
    | cons text' texts =>
      have hcomma : line (text :: text' :: texts) ++ rest = text ++ comma :: (line (text' :: texts) ++ rest) := by
        rw [line, List.append_assoc]
        · rfl
        · exact fun h => nomatch h
      rw [hcomma, hfield.readRows (Or.inl rfl)]
      exact (ih (List.cons_ne_nil _ _) _).trans (by rw [List.append_assoc]; rfl)

/-- **Records are read as the fields that they were written for.** -/
theorem readRows_lines {records rows : List (List (List UInt8))} (h : List.Forall₂ (List.Forall₂ Encodes) records rows)
    (hne : ∀ r ∈ records, r ≠ []) : readRows .start [] [] (lines records) = some rows := by
  induction h with
  | nil => rfl
  | @cons texts fields records rows hrow _ ih =>
    obtain ⟨hfirst, hrest⟩ := List.forall_mem_cons.1 hne
    rw [lines, List.flatMap_cons, readRows_line hrow hfirst]
    exact congrArg (Option.map _) (ih hrest)

end Csv
