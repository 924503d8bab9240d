import Olaf.IdentityFilter
import Olaf.Library.Checked
import Olaf.Library.Mixing
/-!
# The number of an identifier (`olaf_db_identifier_id`, `olaf_db_string_hash`)

| here | there |
| --- | --- |
| `decimal`  | the decimal text of a number, in bytes |
| `digitsValue` | what the loop of `olaf_db_identifier_id` (`olaf_db.c:150-155`) adds up |
| `oneAtATime` | the Jenkins one-at-a-time hash, of octets and modulo `2^32` |
| `charValue` | a `char` in the arithmetic of the hash, with a sign or without |
| `stringHashRun` | `olaf_db_string_hash` (`olaf_db.c:122`) with its 32-bit loop counter |

`identifierId` and `stringHash` are those of `Olaf.IdentityFilter`. A text with no leading zero is the decimal text of the
value of its digits (`decimal_of_digits`), so what is not rejected is a canonical numeral; and a value that stays in range to
the end was in range all along, so no canonical numeral is rejected.

The hash adds a plain `char`. On a target where that has a sign, a byte from 128 on is added as 256 less, and since no step
of the hash lets two states meet, what differs once differs to the end, unless a later byte of that kind happens to make up
for it: `portable_of_ascii` and `made_up_for`.
-/

namespace Olaf.ParallelQuery

/-- The decimal text of a number. -/
def decimal (n : Nat) : List UInt8 := (Nat.toDigits 10 n).map fun c => UInt8.ofNat c.toNat

def IsDigit (c : UInt8) : Prop := 48 ≤ c.toNat ∧ c.toNat ≤ 57

instance (c : UInt8) : Decidable (IsDigit c) := inferInstanceAs (Decidable (_ ∧ _))

def digitsValue (s : List UInt8) (value : Nat) : Nat := s.foldl (fun value c => value * 10 + (c.toNat - 48)) value

/-! ## The loop over the digits -/

theorem digitsValue_le (s : List UInt8) (value : Nat) : value ≤ digitsValue s value := by
  induction s generalizing value with
  | nil => exact Nat.le_refl value
  | cons c s ih =>
    refine Nat.le_trans ?_ (ih (value * 10 + (c.toNat - 48)))
    omega

/-- The value never falls, so testing it on the way is testing it at the end. -/
theorem decimalValue_iff (s : List UInt8) {value n : Nat} (h : value ≤ 0xFFFFFFFF) :
    decimalValue s value = some n ↔ (∀ c ∈ s, IsDigit c) ∧ digitsValue s value = n ∧ n ≤ 0xFFFFFFFF := by
  induction s generalizing value with
  | nil =>
    rw [decimalValue, Option.some_inj]
    refine ⟨?_, fun h' => h'.2.1⟩
    rintro rfl
    exact ⟨by simp, rfl, h⟩
  | cons c s ih =>
    have hdigit : (c < 48 ∨ c > 57) ↔ ¬ IsDigit c := by
      rw [UInt8.lt_iff_toNat_lt, gt_iff_lt, UInt8.lt_iff_toNat_lt, IsDigit]
      simp only [UInt8.toNat_ofNat]
      omega
    have hgrow := digitsValue_le s (value * 10 + (c.toNat - 48))
    rw [decimalValue]
    by_cases hc : IsDigit c
    · rw [if_neg (fun h' => hdigit.1 h' hc)]
      by_cases hbig : value * 10 + (c.toNat - 48) > 0xFFFFFFFF
      · rw [if_pos hbig]
        refine ⟨nofun, ?_⟩
        rintro ⟨_, rfl, hle⟩
        exact absurd (hgrow.trans hle) (by omega)
      · rw [if_neg hbig, ih (by omega)]
        simp only [List.forall_mem_cons, hc, true_and]
        rfl
    · rw [if_pos (hdigit.2 hc)]
      exact ⟨nofun, fun h' => absurd (h'.1 c List.mem_cons_self) hc⟩

theorem digitsValue_concat (s : List UInt8) (c : UInt8) (value : Nat) :
    digitsValue (s ++ [c]) value = digitsValue s value * 10 + (c.toNat - 48) := by
  rw [digitsValue, List.foldl_append]
  rfl

/-! ## Canonical numerals -/

theorem decimal_small {n : Nat} (h : n < 10) : decimal n = [UInt8.ofNat (48 + n)] := by
  have hdigit : ∀ n, n < 10 → (Nat.digitChar n).toNat = 48 + n := by decide
  rw [decimal, Nat.toDigits_of_lt_base h, List.map_singleton, hdigit n h]

theorem decimal_step {n : Nat} (h : 10 ≤ n) : decimal n = decimal (n / 10) ++ [UInt8.ofNat (48 + n % 10)] := by
  have hlast := decimal_small (Nat.mod_lt n (show 0 < 10 by omega))
  rw [← hlast, decimal, Nat.toDigits_of_base_le (by omega) h, List.map_append, decimal, decimal,
    Nat.toDigits_of_lt_base (Nat.mod_lt n (by omega))]

theorem decimal_ne_nil (n : Nat) : decimal n ≠ [] := by
  simp [decimal, Nat.toDigits_ne_nil]

/-- Its digits, and their value. -/
theorem decimal_digits (n : Nat) : (∀ c ∈ decimal n, IsDigit c) ∧ digitsValue (decimal n) 0 = n := by
  induction n using Nat.strong_induction_on with
  | _ n ih =>
    have hdigit : (UInt8.ofNat (48 + n % 10)).toNat = 48 + n % 10 := by
      rw [UInt8.toNat_ofNat']
      omega
    by_cases h : n < 10
    · rw [decimal_small h, ← Nat.mod_eq_of_lt h]
      simp only [List.forall_mem_singleton, IsDigit, digitsValue, List.foldl_cons, List.foldl_nil, hdigit]
      omega
    · obtain ⟨hall, hvalue⟩ := ih (n / 10) (by omega)
      rw [decimal_step (by omega), digitsValue_concat, hvalue, hdigit]
      refine ⟨fun c hc => ?_, by omega⟩
      rcases List.mem_append.1 hc with hc | hc
      · exact hall c hc
      · rw [List.mem_singleton.1 hc, IsDigit, hdigit]
        omega

/-- Only one numeral begins with a zero. -/
theorem decimal_head {n : Nat} (h : 1 ≤ n) : (decimal n)[0]? ≠ some 48 := by
  induction n using Nat.strong_induction_on with
  | _ n ih =>
    by_cases hn : n < 10
    · have hall : ∀ n, n < 10 → 1 ≤ n → [UInt8.ofNat (48 + n)][0]? ≠ some 48 := by decide
      rw [decimal_small hn]
      exact hall n hn h
    · have hlong : 0 < (decimal (n / 10)).length := List.length_pos_iff.2 (decimal_ne_nil _)
      rw [decimal_step (by omega), List.getElem?_append_left hlong]
      exact ih (n / 10) (by omega) (by omega)

/-- A text of digits with no superfluous zero is the numeral of its value. -/
theorem decimal_of_digits {s : List UInt8} (hne : s ≠ []) (hzero : ¬ (s.length > 1 ∧ s[0]? = some 48))
    (hdigits : ∀ c ∈ s, IsDigit c) : s = decimal (digitsValue s 0) := by
  induction s using List.reverseRecOn with
  | nil => exact absurd rfl hne
  | append_singleton s c ih =>
    have hc : 48 ≤ c.toNat ∧ c.toNat ≤ 57 := hdigits c (by simp)
    have hofNat : UInt8.ofNat (48 + (c.toNat - 48)) = c := by
      rw [show 48 + (c.toNat - 48) = c.toNat by omega, UInt8.ofNat_toNat]
    rw [digitsValue_concat]
    by_cases hnil : s = []
    · subst hnil
      rw [digitsValue, List.foldl_nil, decimal_small (by omega), Nat.zero_mul, Nat.zero_add, hofNat, List.nil_append]
    · have hpos : 0 < s.length := List.length_pos_iff.2 hnil
      have hhead : s[0]? ≠ some 48 := by
        intro h0
        refine hzero ⟨by rw [List.length_append, List.length_singleton]; omega, ?_⟩
        rw [List.getElem?_append_left hpos, h0]
      have hs := ih hnil (fun h => hhead h.2) fun d hd => hdigits d (List.mem_append_left _ hd)
      have hvalue : 1 ≤ digitsValue s 0 := by
        rw [Nat.one_le_iff_ne_zero]
        intro h0
        rw [h0] at hs
        exact hhead (by rw [hs]; decide)
      rw [decimal_step (by omega), show (digitsValue s 0 * 10 + (c.toNat - 48)) / 10 = digitsValue s 0 by omega,
        show (digitsValue s 0 * 10 + (c.toNat - 48)) % 10 = c.toNat - 48 by omega, hofNat, ← hs]

section Number
variable (char : UInt8 → UInt32)

theorem identifierId_decimal {n : Nat} (h : n < 2 ^ 32) : identifierId char (decimal n) = UInt32.ofNat n := by
  obtain ⟨hdigits, hvalue⟩ := decimal_digits n
  have hne : (decimal n).length ≠ 0 := fun h0 => decimal_ne_nil n (List.eq_nil_of_length_eq_zero h0)
  have hzero : ¬ ((decimal n).length > 1 ∧ (decimal n)[0]? = some 48) := by
    rintro ⟨hlong, h0⟩
    by_cases hn : 1 ≤ n
    · exact decimal_head hn h0
    · obtain rfl : n = 0 := by omega
      exact absurd hlong (by decide)
  have hlong : ¬ (decimal n).length > 10 := by
    rw [decimal, List.length_map, not_lt]
    exact (Nat.length_toDigits_le_iff (by omega) (by omega)).2 (by omega)
  have hdecimal := (decimalValue_iff (decimal n) (Nat.zero_le _)).2 ⟨hdigits, hvalue, by omega⟩
  rw [identifierId, if_neg hne, if_neg hzero, if_neg hlong, hdecimal]

theorem identifierId_other {s : List UInt8} (h : ∀ n, n < 2 ^ 32 → s ≠ decimal n) :
    identifierId char s = stringHash char s := by
  rw [identifierId]
  by_cases hempty : s.length = 0
  · exact if_pos hempty
  rw [if_neg hempty]
  by_cases hzero : s.length > 1 ∧ s[0]? = some 48
  · exact if_pos hzero
  rw [if_neg hzero]
  by_cases hlong : s.length > 10
  · exact if_pos hlong
  rw [if_neg hlong]
  cases hdecimal : decimalValue s 0 with
  | none => rfl
  | some n =>
    obtain ⟨hdigits, hvalue, hle⟩ := (decimalValue_iff s (Nat.zero_le _)).1 hdecimal
    refine absurd ?_ (h n (by omega))
    rw [← hvalue]
    exact decimal_of_digits (fun h0 => hempty (by rw [h0]; rfl)) hzero hdigits

/-- **Numeric identifiers are parsed exactly.** -/
theorem identifierId_exact (s : List UInt8) :
    (∀ n, n < 2 ^ 32 → s = decimal n → (identifierId char s).toNat = n) ∧
      ((∀ n, n < 2 ^ 32 → s ≠ decimal n) → identifierId char s = stringHash char s) ∧
      ∀ n m, n < 2 ^ 32 → m < 2 ^ 32 → identifierId char (decimal n) = identifierId char (decimal m) → n = m := by
  have htoNat : ∀ n, n < 2 ^ 32 → (UInt32.ofNat n).toNat = n := fun n hn => UInt32.toNat_ofNat_of_lt' hn
  refine ⟨?_, identifierId_other char, ?_⟩
  · rintro n hn rfl
    rw [identifierId_decimal char hn, htoNat n hn]
  · intro n m hn hm heq
    rw [identifierId_decimal char hn, identifierId_decimal char hm] at heq
    rw [← htoNat n hn, heq, htoNat m hm]

end Number

/-! ## The hash of a path -/

def oneAtATimeStep (hash octet : Nat) : Nat :=
  let hash := (hash + octet) % 2 ^ 32
  let hash := (hash + hash <<< 10) % 2 ^ 32
  hash ^^^ (hash >>> 6)

def oneAtATimeEnd (hash : Nat) : Nat :=
  let hash := (hash + hash <<< 3) % 2 ^ 32
  let hash := hash ^^^ (hash >>> 11)
  (hash + hash <<< 15) % 2 ^ 32

def oneAtATime (octets : List Nat) : Nat := oneAtATimeEnd (octets.foldl oneAtATimeStep 0)

/-- A `char` converted to `uint32_t`. -/
def charValue (signed : Bool) (c : UInt8) : UInt32 := if signed ∧ 128 ≤ c.toNat then c.toUInt32 - 256 else c.toUInt32

def stringHashEnd (hash : UInt32) : UInt32 :=
  let hash := hash + (hash <<< 3)
  let hash := hash ^^^ (hash >>> 11)
  hash + (hash <<< 15)

def stringHashRun (char : UInt8 → UInt32) (key : List UInt8) (fuel : Nat) : Option UInt32 := do
  let s ← Checked.whileLoop (fun s : UInt32 × UInt32 => s.1.toNat < key.length)
    (fun s => do return (s.1 + 1, stringHashByte char s.2 (← key[s.1.toNat]?))) fuel (0, 0)
  return stringHashEnd s.2

/-- In whatever way a target reads a `char`, the hash ends with that of the octets. -/
def Portable (key : List UInt8) : Prop :=
  ∀ signed, ∃ fuel, Checked.Returns (stringHashRun (charValue signed) key fuel) fun hash =>
    hash.toNat = oneAtATime (key.map UInt8.toNat)

section Hash
variable (char : UInt8 → UInt32)

theorem stringHashByte_toNat (hash : UInt32) (c : UInt8) :
    (stringHashByte char hash c).toNat = oneAtATimeStep hash.toNat (char c).toNat := by
  simp only [stringHashByte, oneAtATimeStep, UInt32.toNat_xor, UInt32.toNat_add, UInt32.toNat_shiftLeft,
    UInt32.toNat_shiftRight, UInt32.reduceToNat, Nat.reduceMod, Nat.add_mod_mod]

theorem stringHashEnd_toNat (hash : UInt32) : (stringHashEnd hash).toNat = oneAtATimeEnd hash.toNat := by
  simp only [stringHashEnd, oneAtATimeEnd, UInt32.toNat_xor, UInt32.toNat_add, UInt32.toNat_shiftLeft,
    UInt32.toNat_shiftRight, UInt32.reduceToNat, Nat.reduceMod, Nat.add_mod_mod]

/-- The code computes the one-at-a-time hash of what it takes the bytes for. -/
theorem stringHash_toNat (key : List UInt8) :
    (stringHash char key).toNat = oneAtATime (key.map fun c => (char c).toNat) := by
  have hfold : ∀ (key : List UInt8) (hash : UInt32), (key.foldl (stringHashByte char) hash).toNat =
      (key.map fun c => (char c).toNat).foldl oneAtATimeStep hash.toNat := by
    intro key
    induction key with
    | nil => exact fun _ => rfl
    | cons c key ih => exact fun hash => by rw [List.foldl_cons, ih, stringHashByte_toNat]; rfl
  exact (stringHashEnd_toNat _).trans (congrArg oneAtATimeEnd (hfold key 0))

/-- The counter reaches the length of a key of less than `2^32` bytes. -/
theorem stringHashRun_short {key : List UInt8} (h : key.length < 2 ^ 32) :
    stringHashRun char key (key.length + 1) = some (stringHash char key) := by
  have hrun : Checked.Returns (stringHashRun char key (key.length + 1)) (· = stringHash char key) := by
    refine Checked.Returns.bind (Checked.whileLoop_returns
      (fun s => s.1.toNat ≤ key.length ∧ s.2 = (key.take s.1.toNat).foldl (stringHashByte char) 0)
      (fun s => key.length - s.1.toNat) ?_ (Nat.lt_succ_of_le (Nat.sub_le _ _)) ⟨Nat.zero_le _, rfl⟩) ?_
    · rintro ⟨i, hash⟩ ⟨_, hhash⟩ hcond
      rw [decide_eq_true_eq] at hcond
      dsimp only at hhash hcond ⊢
      have hnext : (i + 1).toNat = i.toNat + 1 := by
        rw [UInt32.toNat_add]
        exact Nat.mod_eq_of_lt (show i.toNat + 1 < 2 ^ 32 by omega)
      rw [List.getElem?_eq_getElem hcond]
      refine Checked.Returns.pure ⟨⟨?_, ?_⟩, ?_⟩
      · rw [hnext]; exact hcond
      · rw [hnext, List.take_succ_eq_append_getElem hcond, List.foldl_append, ← hhash]; rfl
      · rw [hnext]; omega
    · rintro ⟨i, hash⟩ ⟨⟨hle, hhash⟩, hcond⟩
      rw [decide_eq_false_iff_not] at hcond
      dsimp only at hhash hcond ⊢
      rw [List.take_of_length_le (by omega)] at hhash
      exact Checked.Returns.pure (congrArg stringHashEnd hhash)
  obtain ⟨hash, hsome, rfl⟩ := hrun
  exact hsome

theorem stringHashRun_mono {key : List UInt8} {fuel fuel' : Nat} (hle : fuel ≤ fuel') {hash : UInt32}
    (h : stringHashRun char key fuel = some hash) : stringHashRun char key fuel' = some hash := by
  obtain ⟨s, hloop, hend⟩ := Option.bind_eq_some_iff.1 h
  exact Option.bind_eq_some_iff.2 ⟨s, Checked.whileLoop_mono hle hloop, hend⟩

/-- It never reaches a greater length. -/
theorem stringHashRun_long {key : List UInt8} (h : 2 ^ 32 ≤ key.length) (fuel : Nat) : stringHashRun char key fuel = none := by
  rw [stringHashRun, Checked.whileLoop_forever]
  · rfl
  · intro s
    have := s.1.toNat_lt
    exact decide_eq_true (by omega)

end Hash

/-! ## Bytes with a sign -/

theorem step_lt (hash octet : Nat) : oneAtATimeStep hash octet < 2 ^ 32 := by
  have hlt : (((hash + octet) % 2 ^ 32) + ((hash + octet) % 2 ^ 32) <<< 10) % 2 ^ 32 < 2 ^ 32 := Nat.mod_lt _ (by decide)
  exact Nat.xor_lt_two_pow hlt ((Nat.shiftRight_le _ 6).trans_lt hlt)

theorem step_inj {hash hash' octet octet' : Nat} (h : oneAtATimeStep hash octet = oneAtATimeStep hash' octet') :
    (hash + octet) % 2 ^ 32 = (hash' + octet') % 2 ^ 32 :=
  Mixing.addShift_inj (show 0 < 10 by decide) (Nat.mod_lt _ (by decide)) (Nat.mod_lt _ (by decide))
    (Mixing.xorShift_inj (show 0 < 6 by decide) h)

theorem end_inj {hash hash' : Nat} (hlt : hash < 2 ^ 32) (hlt' : hash' < 2 ^ 32) (h : oneAtATimeEnd hash = oneAtATimeEnd hash') :
    hash = hash' := by
  have hxor : ∀ hash, (hash + hash <<< 3) % 2 ^ 32 ^^^ ((hash + hash <<< 3) % 2 ^ 32) >>> 11 < 2 ^ 32 := fun hash =>
    have hmod : (hash + hash <<< 3) % 2 ^ 32 < 2 ^ 32 := Nat.mod_lt _ (by decide)
    Nat.xor_lt_two_pow hmod ((Nat.shiftRight_le _ 11).trans_lt hmod)
  exact Mixing.addShift_inj (show 0 < 3 by decide) hlt hlt' <| Mixing.xorShift_inj (show 0 < 11 by decide) <|
    Mixing.addShift_inj (show 0 < 15 by decide) (hxor hash) (hxor hash') h

/-- States that differ go on to differ over the same octets. -/
theorem foldl_step_ne (octets : List Nat) {hash hash' : Nat} (hlt : hash < 2 ^ 32) (hlt' : hash' < 2 ^ 32)
    (hne : hash ≠ hash') : oneAtATimeEnd (octets.foldl oneAtATimeStep hash) ≠ oneAtATimeEnd (octets.foldl oneAtATimeStep hash') := by
  induction octets generalizing hash hash' with
  | nil => exact fun h => hne (end_inj hlt hlt' h)
  | cons octet octets ih =>
    refine ih (step_lt _ _) (step_lt _ _) fun h => hne ?_
    have := step_inj h
    omega

/-- The low byte after a mixing step depends on the low byte before and on the one above its shift. -/
theorem mix_low_ne {x y : Nat} (hlow : x % 256 = y % 256) (hhigh : x / 64 % 256 ≠ y / 64 % 256) :
    (x ^^^ x >>> 6) % 256 ≠ (y ^^^ y >>> 6) % 256 := by
  intro heq
  rw [show 256 = 2 ^ 8 by decide, Nat.xor_mod_two_pow, Nat.xor_mod_two_pow, Nat.shiftRight_eq_div_pow,
    Nat.shiftRight_eq_div_pow, show y % 2 ^ 8 = x % 2 ^ 8 from hlow.symm] at heq
  exact hhigh (Nat.xor_right_inj.1 heq)

/-- A byte taken for 256 less changes the low byte of the state. -/
theorem step_low_ne (hash : Nat) {octet : Nat} (h : 128 ≤ octet) :
    oneAtATimeStep hash (octet + 2 ^ 32 - 256) % 256 ≠ oneAtATimeStep hash octet % 256 := by
  have hadd : ∀ x, (x + x <<< 10) % 2 ^ 32 = x * 1025 % 2 ^ 32 := fun x => by
    rw [Nat.shiftLeft_eq]
    omega
  have hless : (hash + (octet + 2 ^ 32 - 256)) % 2 ^ 32 = ((hash + octet) % 2 ^ 32 + 2 ^ 32 - 256) % 2 ^ 32 := by omega
  have hlt := Nat.mod_lt (hash + octet) (show 0 < 2 ^ 32 by decide)
  simp only [oneAtATimeStep, hadd, hless]
  generalize (hash + octet) % 2 ^ 32 = x at hlt
  have hmul : (x + 2 ^ 32 - 256) % 2 ^ 32 * 1025 % 2 ^ 32 = (x * 1025 % 2 ^ 32 + 2 ^ 32 - 262400) % 2 ^ 32 := by omega
  have hlt' := Nat.mod_lt (x * 1025) (show 0 < 2 ^ 32 by decide)
  rw [hmul]
  generalize x * 1025 % 2 ^ 32 = y at hlt'
  apply mix_low_ne <;> omega

/-- The second such byte adds a multiple of 256 to the difference. -/
theorem second_ne {hash hash' octet : Nat} (hlow : hash % 256 ≠ hash' % 256) (h : 128 ≤ octet) :
    oneAtATimeStep hash (octet + 2 ^ 32 - 256) ≠ oneAtATimeStep hash' octet := by
  intro heq
  have := step_inj heq
  omega

theorem charValue_small (signed : Bool) {c : UInt8} (h : c.toNat < 128) : (charValue signed c).toNat = c.toNat := by
  rw [charValue, if_neg (by omega), UInt8.toNat_toUInt32]

theorem charValue_large {c : UInt8} (h : 128 ≤ c.toNat) : (charValue true c).toNat = c.toNat + 2 ^ 32 - 256 := by
  have hlt := c.toNat_lt
  rw [charValue, if_pos ⟨rfl, h⟩, UInt32.toNat_sub, UInt8.toNat_toUInt32]
  show (2 ^ 32 - 256 + c.toNat) % 2 ^ 32 = c.toNat + 2 ^ 32 - 256
  omega

/-- What matters is the target where a `char` has a sign. -/
theorem portable_iff {key : List UInt8} : Portable key ↔ key.length < 2 ^ 32 ∧
    oneAtATime (key.map fun c => (charValue true c).toNat) = oneAtATime (key.map UInt8.toNat) := by
  constructor
  · intro h
    obtain ⟨fuel, hash, hrun, hhash⟩ := h true
    by_cases hlen : key.length < 2 ^ 32
    · refine ⟨hlen, ?_⟩
      have hshort := stringHashRun_mono _ (Nat.le_max_right fuel _) (stringHashRun_short (charValue true) hlen)
      rw [stringHashRun_mono _ (Nat.le_max_left _ _) hrun, Option.some_inj] at hshort
      rw [← stringHash_toNat, ← hshort, hhash]
    · rw [stringHashRun_long _ (by omega)] at hrun
      cases hrun
  · rintro ⟨hlen, heq⟩ signed
    refine ⟨_, _, stringHashRun_short _ hlen, (stringHash_toNat _ key).trans ?_⟩
    cases signed with
    | true => exact heq
    | false => simp [charValue]

def Ascii (key : List UInt8) : Prop := ∀ c ∈ key, c.toNat < 128

theorem ascii_octets {key : List UInt8} (h : Ascii key) : (key.map fun c => (charValue true c).toNat) = key.map UInt8.toNat :=
  List.map_congr_left fun c hc => charValue_small true (h c hc)

theorem portable_of_short_ascii {key : List UInt8} (hlen : key.length < 2 ^ 32) (h : Ascii key) : Portable key :=
  portable_iff.2 ⟨hlen, congrArg oneAtATime (ascii_octets h)⟩

/-- One or two bytes that are not ASCII, and the states differ. -/
theorem large_bytes_ne (hash : Nat) {mid : List UInt8} (hne : mid ≠ []) (hlen : mid.length ≤ 2) (hmid : ∀ c ∈ mid, 128 ≤ c.toNat) :
    (mid.map fun c => (charValue true c).toNat).foldl oneAtATimeStep hash ≠ (mid.map UInt8.toNat).foldl oneAtATimeStep hash := by
  match mid, hne, hlen with
  | [c], _, _ =>
    have hc := hmid c (by simp)
    intro heq
    rw [List.map_singleton, List.map_singleton, charValue_large hc] at heq
    have hlow := step_low_ne hash hc
    rw [List.foldl_cons, List.foldl_nil, List.foldl_cons, List.foldl_nil] at heq
    rw [heq] at hlow
    exact hlow rfl
  | [c, d], _, _ =>
    have hc := hmid c (by simp)
    have hd := hmid d (by simp)
    intro heq
    rw [List.map_cons, List.map_singleton, charValue_large hc, charValue_large hd, List.foldl_cons, List.foldl_cons,
      List.foldl_nil, List.map_cons, List.map_singleton, List.foldl_cons, List.foldl_cons, List.foldl_nil] at heq
    exact second_ne (step_low_ne hash hc) hd heq

theorem not_portable {pre mid post : List UInt8} (hpre : Ascii pre) (hne : mid ≠ []) (hlen : mid.length ≤ 2)
    (hmid : ∀ c ∈ mid, 128 ≤ c.toNat) (hpost : Ascii post) : ¬ Portable (pre ++ mid ++ post) := by
  intro h
  obtain ⟨_, heq⟩ := portable_iff.1 h
  simp only [oneAtATime, List.map_append, List.foldl_append, ascii_octets hpre, ascii_octets hpost] at heq
  have hlt : ∀ (mid : List Nat) hash, mid ≠ [] → mid.foldl oneAtATimeStep hash < 2 ^ 32 := by
    intro mid hash hne
    rw [← List.dropLast_append_getLast hne, List.foldl_append]
    exact step_lt _ _
  exact foldl_step_ne _ (hlt _ _ (by simp [hne])) (hlt _ _ (by simp [hne])) (large_bytes_ne _ hne hlen hmid) heq

/-- **Which identifiers are portable.** Those in ASCII; no others that all their beginnings are too, and none where the
bytes beyond ASCII are one or two in a row. -/
theorem portable_of_ascii (key : List UInt8) :
    (Ascii key ∧ key.length < 2 ^ 32 → Portable key) ∧
      ((∀ t, t <+: key → Portable t) ↔ Ascii key ∧ key.length < 2 ^ 32) ∧
      ∀ pre mid post, key = pre ++ mid ++ post → Ascii pre → Ascii post → mid ≠ [] → mid.length ≤ 2 →
        (∀ c ∈ mid, 128 ≤ c.toNat) → ¬ Portable key := by
  refine ⟨fun h => portable_of_short_ascii h.2 h.1, ⟨fun h => ⟨?_, (portable_iff.1 (h key List.prefix_rfl)).1⟩, ?_⟩, ?_⟩
  · induction key using List.reverseRecOn with
    | nil => simp [Ascii]
    | append_singleton key c ih =>
      have hkey := ih fun t ht => h t (ht.trans (List.prefix_append key [c]))
      by_cases hc : c.toNat < 128
      · intro d hd
        rcases List.mem_append.1 hd with hd | hd
        · exact hkey d hd
        · rw [List.mem_singleton.1 hd]; exact hc
      · refine absurd (h (key ++ [c] ++ []) (by simp)) (not_portable hkey (by simp) (by simp) ?_ (by simp [Ascii]))
        simpa using hc
  · rintro ⟨hascii, hlen⟩ t ht
    exact portable_of_short_ascii (ht.length_le.trans_lt hlen) fun c hc => hascii c (ht.subset hc)
  · rintro pre mid post rfl hpre hpost hne hlen hmid
    exact not_portable hpre hne hlen hmid hpost

/-- The two bytes of a letter with an accent. -/
theorem accented_not_portable : ¬ ∀ key, Portable key := by
  intro h
  obtain ⟨_, heq⟩ := portable_iff.1 (h [0xC3, 0xA9])
  have hc : (charValue true 0xC3).toNat = 2 ^ 32 - 61 := by decide
  have hd : (charValue true 0xA9).toNat = 2 ^ 32 - 87 := by decide
  rw [List.map_cons, List.map_singleton, hc, hd] at heq
  revert heq
  decide

/-- It can happen that later bytes make up for it. -/
theorem made_up_for : Portable [0xC3, 0xA9, 0x66, 0x7A, 0x69, 0x66, 0x65, 0x71, 0x67, 0xC3, 0xA9] := by
  refine portable_iff.2 ⟨by decide, ?_⟩
  have hc : (charValue true 0xC3).toNat = 2 ^ 32 - 61 := by decide
  have hd : (charValue true 0xA9).toNat = 2 ^ 32 - 87 := by decide
  simp only [List.map_cons, List.map_nil]
  rw [hc, hd]
  decide

end Olaf.ParallelQuery
