import Mathlib.Algebra.Order.Ring.Rat
import Mathlib.Data.List.Forall2
import Olaf.Library.JsonStrings
/-!
# The values of JSON

| here | there |
| --- | --- |
| `Value` | a value without `true`, `false` and `null`; a number is the text for it |
| `NumberState`, `isNumber` | the numbers: a sign, digits without a leading zero, a fraction, an exponent |
| `Form`, `Grammar` | what may stand for a value, for the members of an object up to its `\x7d` and for the items of an array up to its `]` |
| `readValue`, `readAll` | a reader with fuel, and one for values that stand one behind the other |
| `ascii`    | the bytes of a text |
| `fixedPoint` | a number with a fixed number of decimals, a tie rounded up |
| `layMembers`, `layItems` | members and items with the same blanks around each |

What the grammar allows is read as what it stands for (`Grammar.read`), whatever blanks it is laid out with, and so is a stream of
such texts (`readAll_lines`).
-/

namespace JsonValues
open JsonStrings

inductive Value
  | number (text : List UInt8)
  | string (s : List UInt8)
  | array (items : List Value)
  | object (members : List (List UInt8 × Value))

/-! ## Bytes -/

def isBlank (c : UInt8) : Bool := c = 32 || c = 9 || c = 10 || c = 13

abbrev Blank (ws : List UInt8) : Prop := ws.all isBlank = true

def skip (s : List UInt8) : List UInt8 := s.dropWhile isBlank

theorem skip_blank {ws : List UInt8} (h : Blank ws) (s : List UInt8) : skip (ws ++ s) = skip s := by
  induction ws with
  | nil => rfl
  | cons c ws ih =>
    obtain ⟨hc, hws⟩ := Bool.and_eq_true_iff.1 (List.all_cons.symm.trans h)
    rw [List.cons_append, skip, List.dropWhile_cons_of_pos hc]
    exact ih hws

theorem skip_cons {c : UInt8} (h : isBlank c = false) (s : List UInt8) : skip (c :: s) = c :: s := by
  rw [skip, List.dropWhile_cons_of_neg (by simp [h])]

/-! ## Numbers -/

def isDigit (c : UInt8) : Bool := 48 ≤ c && c ≤ 57

inductive NumberState
  | start
  | minus
  | zero
  | digits
  | point
  | fraction
  | e
  | sign
  | exponent
deriving DecidableEq

def NumberState.step (state : NumberState) (c : UInt8) : Option NumberState :=
  match state with
  | .start => if c = 45 then some .minus else if c = 48 then some .zero else if isDigit c then some .digits else none
  | .minus => if c = 48 then some .zero else if isDigit c then some .digits else none
  | .zero => if c = 46 then some .point else if c = 101 ∨ c = 69 then some .e else none
  | .digits =>
    if isDigit c then some .digits else if c = 46 then some .point else if c = 101 ∨ c = 69 then some .e else none
  | .point => if isDigit c then some .fraction else none
  | .fraction => if isDigit c then some .fraction else if c = 101 ∨ c = 69 then some .e else none
  | .e => if c = 43 ∨ c = 45 then some .sign else if isDigit c then some .exponent else none
  | .sign | .exponent => if isDigit c then some .exponent else none

def NumberState.accepts : NumberState → Bool
  | .zero | .digits | .fraction | .exponent => true
  | .start | .minus | .point | .e | .sign => false

/-- A minus or none, digits without a leading zero, a fraction or none and an exponent or none. -/
def isNumber (text : List UInt8) : Bool := (text.foldlM NumberState.step .start).any NumberState.accepts

/-- The bytes of a number. -/
def numberByte (c : UInt8) : Bool := isDigit c || c = 45 || c = 43 || c = 46 || c = 101 || c = 69

theorem numberByte_of_step {state state' : NumberState} {c : UInt8} (h : state.step c = some state') : numberByte c = true := by
  by_contra hno
  simp only [numberByte, Bool.or_eq_true, decide_eq_true_eq, not_or, Bool.not_eq_true] at hno
  obtain ⟨⟨⟨⟨⟨hdigit, hminus⟩, hplus⟩, hpoint⟩, he⟩, hE⟩ := hno
  have hzero : c ≠ 48 := by
    rintro rfl
    cases hdigit
  cases state <;> simp [NumberState.step, *] at h

/-- A number has no other bytes. -/
theorem numberByte_of_isNumber {text : List UInt8} (h : isNumber text = true) : ∀ c ∈ text, numberByte c = true := by
  have hall : ∀ (text : List UInt8) (state : NumberState), (text.foldlM NumberState.step state).any NumberState.accepts = true →
      ∀ c ∈ text, numberByte c = true := by
    intro text
    induction text with
    | nil => simp
    | cons c text ih =>
      intro state h
      rw [List.foldlM_cons] at h
      cases hstep : state.step c with
      | none =>
        rw [hstep] at h
        cases h
      | some state' =>
        rw [hstep] at h
        exact List.forall_mem_cons.2 ⟨numberByte_of_step hstep, ih state' h⟩
  exact hall text .start h

theorem ne_nil_of_isNumber {text : List UInt8} (h : isNumber text = true) : text ≠ [] := by
  rintro rfl
  cases h

theorem numberByte_ne {c : UInt8} (h : numberByte c = true) :
    isBlank c = false ∧ c ≠ quote ∧ c ≠ 123 ∧ c ≠ 91 ∧ c ≠ 125 ∧ c ≠ 93 := by
  have hne : ∀ d, numberByte d = false → c ≠ d := by
    rintro d hd rfl
    rw [h] at hd
    cases hd
  refine ⟨?_, hne _ rfl, hne _ rfl, hne _ rfl, hne _ rfl, hne _ rfl⟩
  simp [isBlank, hne 32 rfl, hne 9 rfl, hne 10 rfl, hne 13 rfl]

/-! ### Printed numbers -/

/-- A byte for each character. -/
def ascii (cs : List Char) : List UInt8 := cs.map fun c => UInt8.ofNat c.toNat

@[simp] theorem ascii_append (cs ds : List Char) : ascii (cs ++ ds) = ascii cs ++ ascii ds := List.map_append

@[simp] theorem ascii_cons (c : Char) (cs : List Char) : ascii (c :: cs) = UInt8.ofNat c.toNat :: ascii cs := rfl

theorem digitChar_digit : ∀ d < 10, isDigit (UInt8.ofNat (Nat.digitChar d).toNat) = true := by
  decide

theorem step_digitChar : ∀ d < 10, ∀ state ∈ [NumberState.start, .minus],
    state.step (UInt8.ofNat (Nat.digitChar d).toNat) = some (if d = 0 then .zero else .digits) := by
  decide

/-- Digits without a leading zero, behind a sign or not. -/
theorem foldlM_toDigits {state : NumberState} (hstate : state ∈ [NumberState.start, .minus]) (n : Nat) :
    (ascii (Nat.toDigits 10 n)).foldlM NumberState.step state = some (if n = 0 then .zero else .digits) := by
  induction n using Nat.strongRecOn with
  | ind n ih =>
    by_cases hn : n < 10
    · rw [Nat.toDigits_of_lt_base hn, ascii_cons, List.foldlM_cons, step_digitChar n hn state hstate]
      rfl
    · have hdigit := digitChar_digit (n % 10) (Nat.mod_lt n (by decide))
      have hstep : NumberState.digits.step (UInt8.ofNat (Nat.digitChar (n % 10)).toNat) = some .digits := if_pos hdigit
      rw [Nat.toDigits_of_base_le (by decide) (Nat.le_of_not_lt hn), ascii_append, List.foldlM_append, ih (n / 10) (by omega),
        if_neg (by omega), if_neg (by omega)]
      exact (congrArg (fun r => r >>= fun state => some state) hstep)

theorem isDigit_ofNat : ∀ n < 58, 48 ≤ n → isDigit (UInt8.ofNat n) = true := by
  decide

theorem isDigit_ascii {c : Char} (h : c.isDigit = true) : isDigit (UInt8.ofNat c.toNat) = true := by
  have hrange : 48 ≤ c.toNat ∧ c.toNat ≤ 57 := by
    simpa [Char.isDigit, UInt32.le_iff_toNat_le] using h
  exact isDigit_ofNat c.toNat (by omega) hrange.1

theorem foldlM_fraction {ds : List Char} (h : ∀ c ∈ ds, c.isDigit = true) :
    (ascii ds).foldlM NumberState.step .fraction = some .fraction := by
  induction ds with
  | nil => rfl
  | cons c ds ih =>
    obtain ⟨hc, hds⟩ := List.forall_mem_cons.1 h
    have hstep : NumberState.fraction.step (UInt8.ofNat c.toNat) = some .fraction := if_pos (isDigit_ascii hc)
    rw [ascii_cons, List.foldlM_cons, hstep]
    exact ih hds

/-- A point and digits. -/
def Fraction (s : List Char) : Prop := ∃ c ds, s = '.' :: c :: ds ∧ ∀ d ∈ c :: ds, d.isDigit = true

/-- What is printed for a number: a minus or none, its digits, and a fraction or none. -/
theorem isNumber_printed {sign : List Char} (hsign : sign = [] ∨ sign = ['-']) (n : Nat) {fraction : List Char}
    (hfraction : fraction = [] ∨ Fraction fraction) : isNumber (ascii (sign ++ Nat.toDigits 10 n ++ fraction)) = true := by
  have hint : (ascii (sign ++ Nat.toDigits 10 n)).foldlM NumberState.step .start = some (if n = 0 then .zero else .digits) := by
    rcases hsign with rfl | rfl
    · exact foldlM_toDigits (by decide) n
    · exact (show _ = (ascii (Nat.toDigits 10 n)).foldlM NumberState.step .minus from rfl).trans (foldlM_toDigits (by decide) n)
  rw [isNumber, ascii_append, List.foldlM_append, hint]
  rcases hfraction with rfl | ⟨c, ds, rfl, hds⟩
  · split <;> rfl
  · obtain ⟨hc, hds⟩ := List.forall_mem_cons.1 hds
    have hdigit : NumberState.point.step (UInt8.ofNat c.toNat) = some .fraction := if_pos (isDigit_ascii hc)
    have hrest : (ascii (c :: ds)).foldlM NumberState.step .point = some .fraction := by
      rw [ascii_cons, List.foldlM_cons, hdigit]
      exact foldlM_fraction hds
    split <;> exact congrArg (Option.any NumberState.accepts) hrest

/-- A natural number as it is printed. -/
theorem isNumber_toDigits (n : Nat) : isNumber (ascii (Nat.toDigits 10 n)) = true := by
  simpa using isNumber_printed (Or.inl rfl) n (Or.inl rfl)

def fixedPoint (n : Nat) (v : ℚ) : List Char :=
  let k := (v * 10 ^ n + 1 / 2).floor
  (if k < 0 then ['-'] else []) ++ Nat.toDigits 10 (k.natAbs / 10 ^ n) ++
    if n = 0 then [] else '.' :: (Nat.toDigits 10 (10 ^ n + k.natAbs % 10 ^ n)).drop 1

theorem isNumber_fixedPoint (n : Nat) (v : ℚ) : isNumber (ascii (fixedPoint n v)) = true := by
  refine isNumber_printed ?_ _ ?_
  · split
    · exact Or.inr rfl
    · exact Or.inl rfl
  · split
    · exact Or.inl rfl
    · next hn =>
      -- a digit more than there are decimals, of which the first one is not printed
      refine Or.inr ?_
      generalize (v * 10 ^ n + 1 / 2).floor.natAbs % 10 ^ n = k
      have hdigits : ∀ c ∈ Nat.toDigits 10 (10 ^ n + k), c.isDigit = true := fun c hc =>
        Nat.isDigit_of_mem_toDigits (by decide) (by decide) hc
      have hlen : 1 < (Nat.toDigits 10 (10 ^ n + k)).length := by
        by_contra hle
        have hlt := (Nat.length_toDigits_le_iff (by decide) (by decide)).1 (Nat.le_of_not_lt hle)
        have hpow : 10 ^ 1 ≤ 10 ^ n := Nat.pow_le_pow_right (by decide) (Nat.one_le_iff_ne_zero.2 hn)
        omega
      match htext : Nat.toDigits 10 (10 ^ n + k) with
      | [] => simp [htext] at hlen
      | [_] => simp [htext] at hlen
      | c :: d :: ds =>
        rw [htext] at hdigits
        exact ⟨d, ds, rfl, fun e he => hdigits e (List.mem_cons_of_mem _ he)⟩

/-! ## The reader -/

def expect (c : UInt8) : List UInt8 → Option (List UInt8)
  | [] => none
  | d :: s => if d = c then some s else none

mutual

/-- A value and what follows it. -/
def readValue : Nat → List UInt8 → Option (Value × List UInt8)
  | 0, _ => none
  | fuel + 1, s =>
    match skip s with
    | [] => none
    | c :: rest =>
      if c = quote then (readFrom .text rest).map fun r => (.string r.1, r.2)
      else if c = 123 then
        match skip rest with
        | [] => none
        | d :: s => if d = 125 then some (.object [], s) else (readMembers fuel rest).map fun r => (.object r.1, r.2)
      else if c = 91 then
        match skip rest with
        | [] => none
        | d :: s => if d = 93 then some (.array [], s) else (readItems fuel rest).map fun r => (.array r.1, r.2)
      else
        let text := (c :: rest).takeWhile numberByte
        if isNumber text then some (.number text, (c :: rest).dropWhile numberByte) else none

def readMembers : Nat → List UInt8 → Option (List (List UInt8 × Value) × List UInt8)
  | 0, _ => none
  | fuel + 1, s => do
    let (key, s) ← readString (skip s)
    let s ← expect 58 (skip s)
    let (v, s) ← readValue fuel s
    match skip s with
    | [] => none
    | c :: s =>
      if c = 125 then some ([(key, v)], s)
      else if c = 44 then do
        let (members, s) ← readMembers fuel s
        return ((key, v) :: members, s)
      else none

def readItems : Nat → List UInt8 → Option (List Value × List UInt8)
  | 0, _ => none
  | fuel + 1, s => do
    let (v, s) ← readValue fuel s
    match skip s with
    | [] => none
    | c :: s =>
      if c = 93 then some ([v], s)
      else if c = 44 then do
        let (items, s) ← readItems fuel s
        return (v :: items, s)
      else none

end

/-- The values of a stream. -/
def readAll : Nat → List UInt8 → Option (List Value)
  | 0, s => if skip s = [] then some [] else none
  | fuel + 1, s =>
    if skip s = [] then some []
    else do
      let (v, s) ← readValue (s.length + 1) s
      let vs ← readAll fuel s
      return v :: vs

/-! ## The grammar -/

/-- What a text may be: a value, or the inside of an object or an array. -/
inductive Form
  | value (v : Value)
  | members (members : List (List UInt8 × Value))
  | items (items : List Value)

inductive Grammar : Form → List UInt8 → Prop
  | number {text : List UInt8} : isNumber text = true → Grammar (.value (.number text)) text
  | string {body s : List UInt8} : Encodes body s → Grammar (.value (.string s)) (quote :: body ++ [quote])
  | emptyObject {ws : List UInt8} : Blank ws → Grammar (.value (.object [])) (123 :: ws ++ [125])
  | object {ms : List (List UInt8 × Value)} {t : List UInt8} : Grammar (.members ms) t → Grammar (.value (.object ms)) (123 :: t)
  | emptyArray {ws : List UInt8} : Blank ws → Grammar (.value (.array [])) (91 :: ws ++ [93])
  | array {vs : List Value} {t : List UInt8} : Grammar (.items vs) t → Grammar (.value (.array vs)) (91 :: t)
  | blank {form : Form} {ws t : List UInt8} : Blank ws → Grammar form t → Grammar form (ws ++ t)
  | lastMember {body key ws ws' t : List UInt8} {v : Value} : Encodes body key → Blank ws → Blank ws' → Grammar (.value v) t →
      Grammar (.members [(key, v)]) (quote :: body ++ quote :: (ws ++ 58 :: (t ++ (ws' ++ [125]))))
  | member {body key ws ws' t u : List UInt8} {v : Value} {ms : List (List UInt8 × Value)} : Encodes body key → Blank ws →
      Blank ws' → Grammar (.value v) t → Grammar (.members ms) u →
      Grammar (.members ((key, v) :: ms)) (quote :: body ++ quote :: (ws ++ 58 :: (t ++ (ws' ++ 44 :: u))))
  | lastItem {ws t : List UInt8} {v : Value} : Blank ws → Grammar (.value v) t → Grammar (.items [v]) (t ++ (ws ++ [93]))
  | item {ws t u : List UInt8} {v : Value} {vs : List Value} : Blank ws → Grammar (.value v) t → Grammar (.items vs) u →
      Grammar (.items (v :: vs)) (t ++ (ws ++ 44 :: u))

/-- After some blanks there is a byte that closes nothing. -/
def Opens (t : List UInt8) : Prop := ∃ c u, (∀ rest, skip (t ++ rest) = c :: (u ++ rest)) ∧ c ≠ 125 ∧ c ≠ 93

theorem opens_cons {c : UInt8} (hblank : isBlank c = false) (hobject : c ≠ 125) (harray : c ≠ 93) (u : List UInt8) :
    Opens (c :: u) := ⟨c, u, fun rest => skip_cons hblank (u ++ rest), hobject, harray⟩

theorem Opens.append {t : List UInt8} (h : Opens t) (u : List UInt8) : Opens (t ++ u) := by
  obtain ⟨c, v, hskip, hobject, harray⟩ := h
  refine ⟨c, v ++ u, fun rest => ?_, hobject, harray⟩
  rw [List.append_assoc, hskip, List.append_assoc]

/-- No text begins with the end of its object or array. -/
theorem Grammar.opens {form : Form} {t : List UInt8} (h : Grammar form t) : Opens t := by
  induction h with
  | @number text hnumber =>
    obtain ⟨c, u, rfl⟩ := List.exists_cons_of_ne_nil (ne_nil_of_isNumber hnumber)
    obtain ⟨hblank, _, _, _, hobject, harray⟩ := numberByte_ne (numberByte_of_isNumber hnumber c List.mem_cons_self)
    exact opens_cons hblank hobject harray u
  | string => exact opens_cons rfl (by decide) (by decide) _
  | emptyObject | object | emptyArray | array => exact opens_cons rfl (by decide) (by decide) _
  | blank hws _ ih =>
    obtain ⟨c, u, hskip, hclose⟩ := ih
    refine ⟨c, u, fun rest => ?_, hclose⟩
    rw [List.append_assoc, skip_blank hws, hskip]
  | lastMember | member => exact opens_cons rfl (by decide) (by decide) _
  | lastItem _ _ ih => exact ih.append _
  | item _ _ _ ih _ => exact ih.append _

/-! ## What is read -/

/-- A number ends here. -/
abbrev Delimited (rest : List UInt8) : Prop := ∀ c ∈ rest.head?, numberByte c = false

theorem delimited_cons {c : UInt8} (h : numberByte c = false) (rest : List UInt8) : Delimited (c :: rest) := by
  intro d hd
  obtain rfl : c = d := by simpa using hd
  exact h

theorem delimited_blank {ws : List UInt8} (hws : Blank ws) {c : UInt8} (h : numberByte c = false) (rest : List UInt8) :
    Delimited (ws ++ c :: rest) := by
  cases ws with
  | nil => exact delimited_cons h rest
  | cons d ws =>
    refine delimited_cons ?_ _
    by_contra hnumber
    have hblank := (numberByte_ne (Bool.not_eq_false _ ▸ hnumber)).1
    rw [List.all_eq_true.1 hws d List.mem_cons_self] at hblank
    cases hblank

/-- With fuel for its length the text is read, whatever follows. -/
def Form.ReadAs (t : List UInt8) : Form → Prop
  | .value v => ∀ fuel, t.length ≤ fuel → ∀ rest, Delimited rest → readValue fuel (t ++ rest) = some (v, rest)
  | .members ms => ∀ fuel, t.length ≤ fuel → ∀ rest, readMembers fuel (t ++ rest) = some (ms, rest)
  | .items vs => ∀ fuel, t.length ≤ fuel → ∀ rest, readItems fuel (t ++ rest) = some (vs, rest)

theorem readValue_skip {s s' : List UInt8} (h : skip s = skip s') (fuel : Nat) : readValue fuel s = readValue fuel s' := by
  cases fuel with
  | zero => rw [readValue, readValue]
  | succ fuel => rw [readValue, readValue, h]

theorem readMembers_skip {s s' : List UInt8} (h : skip s = skip s') (fuel : Nat) : readMembers fuel s = readMembers fuel s' := by
  cases fuel with
  | zero => rw [readMembers, readMembers]
  | succ fuel => rw [readMembers, readMembers, h]

theorem readItems_skip {s s' : List UInt8} (h : skip s = skip s') (fuel : Nat) : readItems fuel s = readItems fuel s' := by
  cases fuel with
  | zero => rw [readItems, readItems]
  | succ fuel => rw [readItems, readItems, readValue_skip h]

/-- A number is read up to what ends it. -/
theorem takeWhile_number {text rest : List UInt8} (h : ∀ c ∈ text, numberByte c = true) (hrest : Delimited rest) :
    (text ++ rest).takeWhile numberByte = text ∧ (text ++ rest).dropWhile numberByte = rest := by
  induction text with
  | nil =>
    cases rest with
    | nil => exact ⟨rfl, rfl⟩
    | cons c rest =>
      have hc := hrest c rfl
      exact ⟨List.takeWhile_cons_of_neg (by simp [hc]), List.dropWhile_cons_of_neg (by simp [hc])⟩
  | cons c text ih =>
    have hc := h c List.mem_cons_self
    obtain ⟨htake, hdrop⟩ := ih fun d hd => h d (List.mem_cons_of_mem _ hd)
    rw [List.cons_append, List.takeWhile_cons_of_pos hc, List.dropWhile_cons_of_pos hc, htake, hdrop]
    exact ⟨rfl, rfl⟩

/-- A member up to the byte behind its value. -/
theorem readMembers_member {body key ws ws' t : List UInt8} {v : Value} (hkey : Encodes body key) (hws : Blank ws)
    (hws' : Blank ws') {fuel : Nat} (hv : ∀ rest, Delimited rest → readValue fuel (t ++ rest) = some (v, rest)) {c : UInt8}
    (hc : numberByte c = false) (hblank : isBlank c = false) (rest : List UInt8) :
    readMembers (fuel + 1) (quote :: body ++ quote :: (ws ++ 58 :: (t ++ (ws' ++ c :: rest)))) =
      if c = 125 then some ([(key, v)], rest)
      else if c = 44 then (readMembers fuel rest).map fun r => ((key, v) :: r.1, r.2)
      else none := by
  have hquote : skip (quote :: body ++ quote :: (ws ++ 58 :: (t ++ (ws' ++ c :: rest)))) =
      quote :: body ++ quote :: (ws ++ 58 :: (t ++ (ws' ++ c :: rest))) := skip_cons rfl _
  rw [readMembers, hquote, hkey.readString]
  dsimp only [Option.bind_eq_bind, Option.bind_some]
  rw [skip_blank hws, skip_cons rfl, expect, if_pos rfl]
  dsimp only [Option.bind_some]
  rw [hv _ (delimited_blank hws' hc rest)]
  dsimp only [Option.bind_some]
  rw [skip_blank hws', skip_cons hblank]
  dsimp only
  split
  · rfl
  · split
    · cases readMembers fuel rest <;> rfl
    · rfl

theorem readItems_item {ws t : List UInt8} {v : Value} (hws : Blank ws) {fuel : Nat}
    (hv : ∀ rest, Delimited rest → readValue fuel (t ++ rest) = some (v, rest)) {c : UInt8}
    (hc : numberByte c = false) (hblank : isBlank c = false) (rest : List UInt8) :
    readItems (fuel + 1) (t ++ (ws ++ c :: rest)) =
      if c = 93 then some ([v], rest)
      else if c = 44 then (readItems fuel rest).map fun r => (v :: r.1, r.2)
      else none := by
  rw [readItems, hv _ (delimited_blank hws hc rest)]
  dsimp only [Option.bind_eq_bind, Option.bind_some]
  rw [skip_blank hws, skip_cons hblank]
  dsimp only
  split
  · rfl
  · split
    · cases readItems fuel rest <;> rfl
    · rfl

/-- **What the grammar allows is read as what it stands for.** -/
theorem Grammar.read {form : Form} {t : List UInt8} (h : Grammar form t) : form.ReadAs t := by
  induction h with
  | @number text hnumber =>
    intro fuel hfuel rest hrest
    obtain ⟨c, u, rfl⟩ := List.exists_cons_of_ne_nil (ne_nil_of_isNumber hnumber)
    obtain ⟨fuel, rfl⟩ := Nat.exists_eq_add_one_of_ne_zero (show fuel ≠ 0 by rw [List.length_cons] at hfuel; omega)
    have hall := numberByte_of_isNumber hnumber
    obtain ⟨hblank, hquote, hobject, harray, _⟩ := numberByte_ne (hall c List.mem_cons_self)
    obtain ⟨htake, hdrop⟩ := takeWhile_number hall hrest
    rw [List.cons_append] at htake hdrop ⊢
    rw [readValue, skip_cons hblank]
    dsimp only
    rw [if_neg hquote, if_neg hobject, if_neg harray, htake, hdrop, if_pos hnumber]
  | string hs =>
    intro fuel hfuel rest _
    obtain ⟨fuel, rfl⟩ := Nat.exists_eq_add_one_of_ne_zero (show fuel ≠ 0 by simp at hfuel; omega)
    rw [List.append_assoc, List.cons_append, readValue, skip_cons rfl]
    dsimp only
    rw [if_pos rfl, List.singleton_append, hs.readFrom]
    rfl
  | emptyObject hws =>
    intro fuel hfuel rest _
    obtain ⟨fuel, rfl⟩ := Nat.exists_eq_add_one_of_ne_zero (show fuel ≠ 0 by simp at hfuel; omega)
    rw [List.append_assoc, List.cons_append, readValue, skip_cons rfl]
    dsimp only
    rw [if_neg (by decide), if_pos rfl, skip_blank hws, List.singleton_append, skip_cons rfl]
    rfl
  | @object ms t ht ih =>
    intro fuel hfuel rest _
    obtain ⟨fuel, rfl⟩ := Nat.exists_eq_add_one_of_ne_zero (show fuel ≠ 0 by rw [List.length_cons] at hfuel; omega)
    obtain ⟨c, u, hskip, hclose, _⟩ := ht.opens
    rw [List.cons_append, readValue, skip_cons rfl]
    dsimp only
    rw [if_neg (by decide), if_pos rfl, hskip rest]
    dsimp only
    rw [if_neg hclose, ih fuel (by rw [List.length_cons] at hfuel; omega) rest]
    rfl
  | emptyArray hws =>
    intro fuel hfuel rest _
    obtain ⟨fuel, rfl⟩ := Nat.exists_eq_add_one_of_ne_zero (show fuel ≠ 0 by simp at hfuel; omega)
    rw [List.append_assoc, List.cons_append, readValue, skip_cons rfl]
    dsimp only
    rw [if_neg (by decide), if_neg (by decide), if_pos rfl, skip_blank hws, List.singleton_append, skip_cons rfl]
    rfl
  | @array vs t ht ih =>
    intro fuel hfuel rest _
    obtain ⟨fuel, rfl⟩ := Nat.exists_eq_add_one_of_ne_zero (show fuel ≠ 0 by rw [List.length_cons] at hfuel; omega)
    obtain ⟨c, u, hskip, _, hclose⟩ := ht.opens
    rw [List.cons_append, readValue, skip_cons rfl]
    dsimp only
    rw [if_neg (by decide), if_neg (by decide), if_pos rfl, hskip rest]
    dsimp only
    rw [if_neg hclose, ih fuel (by rw [List.length_cons] at hfuel; omega) rest]
    rfl
  | @blank form ws t hws _ ih =>
    have hskip : ∀ rest, skip (ws ++ t ++ rest) = skip (t ++ rest) := fun rest => by rw [List.append_assoc, skip_blank hws]
    have hlen : ∀ {fuel}, (ws ++ t).length ≤ fuel → t.length ≤ fuel := fun h => by
      rw [List.length_append] at h
      omega
    cases form with
    | value v => exact fun fuel hfuel rest hrest => (readValue_skip (hskip rest) fuel).trans (ih fuel (hlen hfuel) rest hrest)
    | members ms => exact fun fuel hfuel rest => (readMembers_skip (hskip rest) fuel).trans (ih fuel (hlen hfuel) rest)
    | items vs => exact fun fuel hfuel rest => (readItems_skip (hskip rest) fuel).trans (ih fuel (hlen hfuel) rest)
  | lastMember hkey hws hws' _ ih =>
    intro fuel hfuel rest
    simp only [List.length_append, List.length_cons] at hfuel
    obtain ⟨fuel, rfl⟩ := Nat.exists_eq_add_one_of_ne_zero (show fuel ≠ 0 by omega)
    have hmember := readMembers_member hkey hws hws' (ih fuel (by omega)) (show numberByte 125 = false from rfl) rfl rest
    rw [if_pos rfl] at hmember
    simpa only [List.cons_append, List.append_assoc, List.nil_append] using hmember
  | @member body key ws ws' t u v ms hkey hws hws' _ _ ih ihrest =>
    intro fuel hfuel rest
    simp only [List.length_append, List.length_cons] at hfuel
    obtain ⟨fuel, rfl⟩ := Nat.exists_eq_add_one_of_ne_zero (show fuel ≠ 0 by omega)
    have hmember := readMembers_member hkey hws hws' (ih fuel (by omega)) (show numberByte 44 = false from rfl) rfl (u ++ rest)
    rw [if_neg (by decide), if_pos rfl, ihrest fuel (by omega) rest, Option.map_some] at hmember
    simpa only [List.cons_append, List.append_assoc, List.nil_append] using hmember
  | lastItem hws _ ih =>
    intro fuel hfuel rest
    simp only [List.length_append, List.length_cons] at hfuel
    obtain ⟨fuel, rfl⟩ := Nat.exists_eq_add_one_of_ne_zero (show fuel ≠ 0 by omega)
    have hitem := readItems_item hws (ih fuel (by omega)) (show numberByte 93 = false from rfl) rfl rest
    rw [if_pos rfl] at hitem
    simpa only [List.cons_append, List.append_assoc, List.nil_append] using hitem
  | @item ws t u v vs hws _ _ ih ihrest =>
    intro fuel hfuel rest
    simp only [List.length_append, List.length_cons] at hfuel
    obtain ⟨fuel, rfl⟩ := Nat.exists_eq_add_one_of_ne_zero (show fuel ≠ 0 by omega)
    have hitem := readItems_item hws (ih fuel (by omega)) (show numberByte 44 = false from rfl) rfl (u ++ rest)
    rw [if_neg (by decide), if_pos rfl, ihrest fuel (by omega) rest, Option.map_some] at hitem
    simpa only [List.cons_append, List.append_assoc, List.nil_append] using hitem

/-! ## Layouts -/

/-- Members as they are laid out, up to the end of their object: each with the body of its key and the text for its value. -/
def layMembers (before colon after : List UInt8) : List (List UInt8 × List UInt8) → List UInt8
  | [] => []
  | [m] => before ++ (quote :: m.1 ++ quote :: 58 :: (colon ++ (m.2 ++ (after ++ [125]))))
  | m :: ms => before ++ (quote :: m.1 ++ quote :: 58 :: (colon ++ (m.2 ++ 44 :: layMembers before colon after ms)))

/-- Items as they are laid out, up to the end of their array. -/
def layItems (before after : List UInt8) : List (List UInt8) → List UInt8
  | [] => []
  | [t] => before ++ (t ++ (after ++ [93]))
  | t :: ts => before ++ (t ++ 44 :: layItems before after ts)

variable {before colon after : List UInt8}

/-- A laid out object is one for the grammar. -/
theorem grammar_layMembers (hbefore : Blank before) (hcolon : Blank colon) (hafter : Blank after)
    {ms : List (List UInt8 × Value)} {texts : List (List UInt8 × List UInt8)}
    (h : List.Forall₂ (fun m t => Encodes t.1 m.1 ∧ Grammar (.value m.2) t.2) ms texts) (hne : ms ≠ []) :
    Grammar (.members ms) (layMembers before colon after texts) := by
  induction h with
  | nil => exact absurd rfl hne
  | @cons m t ms texts hm hms ih =>
    obtain ⟨hkey, hvalue⟩ := hm
    have hcolon := Grammar.blank hcolon hvalue
    have hnil : Blank [] := by simp [Blank]
    cases hms with
    | nil =>
      have hlast := Grammar.blank hbefore (Grammar.lastMember hkey hnil hafter hcolon)
      simpa only [layMembers, List.nil_append, List.append_assoc] using hlast
    | cons hm' hms' =>
      have hmember := Grammar.blank hbefore (Grammar.member hkey hnil hnil hcolon (ih (List.cons_ne_nil _ _)))
      simpa only [layMembers, List.nil_append, List.append_assoc] using hmember

/-- Neither a control character nor a quote or a backslash. -/
def plainByte (c : UInt8) : Bool := 32 ≤ c && c ≠ quote && c ≠ backslash

/-- A text of such bytes stands for itself. -/
theorem encodes_plain {s : List UInt8} (h : s.all plainByte = true) : Encodes s s := by
  induction s with
  | nil => exact Encodes.nil
  | cons c s ih =>
    obtain ⟨hc, hs⟩ := Bool.and_eq_true_iff.1 (List.all_cons.symm.trans h)
    simp only [plainByte, Bool.and_eq_true, decide_eq_true_iff] at hc
    exact Encodes.raw hc.1.1 hc.1.2 hc.2 (ih hs)

/-- A member with a key that stands for itself. -/
theorem member {v : Value} {t : List UInt8} (k : String)
    (hk : (ascii k.toList).all plainByte = true) (ht : Grammar (.value v) t) :
    Encodes (ascii k.toList) (ascii k.toList) ∧ Grammar (.value v) t :=
  ⟨encodes_plain hk, ht⟩

/-- A laid out array is one for the grammar. -/
theorem grammar_layItems (hbefore : Blank before) (hafter : Blank after) {vs : List Value} {texts : List (List UInt8)}
    (h : List.Forall₂ (fun v t => Grammar (.value v) t) vs texts) (hne : vs ≠ []) :
    Grammar (.items vs) (layItems before after texts) := by
  induction h with
  | nil => exact absurd rfl hne
  | @cons v t vs texts hv hvs ih =>
    have hnil : Blank [] := by simp [Blank]
    cases hvs with
    | nil =>
      have hlast := Grammar.blank hbefore (Grammar.lastItem hafter hv)
      simpa only [layItems, List.append_assoc] using hlast
    | cons hv' hvs' =>
      have hitem := Grammar.blank hbefore (Grammar.item hnil hv (ih (List.cons_ne_nil _ _)))
      simpa only [layItems, List.nil_append, List.append_assoc] using hitem

/-- Items are the first one, a comma before each of the others, and the end. -/
theorem layItems_cons (t : List UInt8) (ts : List (List UInt8)) :
    layItems before after (t :: ts) = before ++ t ++ ts.flatMap (fun t => 44 :: (before ++ t)) ++ (after ++ [93]) := by
  induction ts generalizing t with
  | nil => simp [layItems]
  | cons u ts ih =>
    rw [layItems, ih u]
    · simp
    · exact List.cons_ne_nil u ts

/-! ## Streams -/

/-- Texts with a newline behind each. -/
def lines (ts : List (List UInt8)) : List UInt8 := ts.flatMap fun t => t ++ [10]

/-- **A stream of values, each on lines of its own.** -/
theorem readAll_lines {vs : List Value} {ts : List (List UInt8)} (h : List.Forall₂ (fun v t => Grammar (.value v) t) vs ts)
    {ws : List UInt8} (hws : Blank ws) {fuel : Nat} (hfuel : vs.length ≤ fuel) : readAll fuel (ws ++ lines ts) = some vs := by
  induction h generalizing fuel ws with
  | nil =>
    have hnil : skip (ws ++ []) = [] := skip_blank hws []
    cases fuel with
    | zero => exact if_pos hnil
    | succ fuel => exact if_pos hnil
  | @cons v t vs ts hvalue _ ih =>
    obtain ⟨fuel, rfl⟩ := Nat.exists_eq_add_one_of_ne_zero (show fuel ≠ 0 by rw [List.length_cons] at hfuel; omega)
    have hstream : ws ++ lines (t :: ts) = (ws ++ t) ++ 10 :: lines ts := by
      simp [lines]
    have hnewline : Blank [10] := by simp [Blank, isBlank]
    have hrest := ih hnewline (show vs.length ≤ fuel by simpa using hfuel)
    have hgrammar := Grammar.blank hws hvalue
    obtain ⟨c, u, hskip, _⟩ := hgrammar.opens
    have hlen : (ws ++ t).length ≤ ((ws ++ t) ++ 10 :: lines ts).length + 1 := by
      simp only [List.length_append]
      omega
    rw [hstream, readAll, hskip, if_neg (List.cons_ne_nil _ _), hgrammar.read _ hlen _ (delimited_cons rfl _)]
    dsimp only [Option.bind_eq_bind, Option.bind_some]
    rw [show 10 :: lines ts = [10] ++ lines ts from rfl, hrest]
    rfl

end JsonValues
