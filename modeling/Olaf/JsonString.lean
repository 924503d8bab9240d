import Olaf.Library.CStrings
import Olaf.Library.JsonStrings
import Olaf.QueryPrint
/-!
# The two encoders of JSON strings

| here | there |
| --- | --- |
| `jsonPrintEscaped` | `json_print_escaped` (`olaf_cli_bridge.c:249`), which writes the paths of a query |
| `writeJsonString`  | `writeJsonString` (`olaf_cli_bridge.zig:247`), which writes the identifier of a stored audio |

The first one is about characters, of which each is the byte with its number (`Char.ofUInt8`). Both go over the bytes one by
one, so they agree when they do on a byte (`escape_byte`), and what they write for a byte is one that stays as it is or an
escape for it (`encodes_byte`).
-/

namespace Olaf.JsonString
open JsonStrings QueryPrint

/-- `{x:0>4}`. -/
def hexFill (n : Nat) : List UInt8 :=
  let digits := (Nat.toDigits 16 n).map fun c => UInt8.ofNat c.toNat
  List.replicate (4 - digits.length) 48 ++ digits

def writeJsonByte (c : UInt8) : List UInt8 :=
  if c = 34 then [92, 34]
  else if c = 92 then [92, 92]
  else if c = 10 then [92, 110]
  else if c = 13 then [92, 114]
  else if c = 9 then [92, 116]
  else if c = 0x08 then [92, 98]
  else if c = 0x0C then [92, 102]
  else if c < 0x20 then [92, 117] ++ hexFill c.toNat
  else [c]

def writeJsonString (s : List UInt8) : List UInt8 := [34] ++ s.flatMap writeJsonByte ++ [34]

theorem toNat_ofUInt8 (c : UInt8) : (Char.ofUInt8 c).toNat = c.toNat := rfl

theorem ofUInt8_inj {c d : UInt8} : Char.ofUInt8 c = Char.ofUInt8 d ↔ c = d := by
  refine ⟨fun h => ?_, congrArg _⟩
  have hnat := congrArg Char.toNat h
  rw [toNat_ofUInt8, toNat_ofUInt8] at hnat
  exact UInt8.toNat_inj.1 hnat

/-- The control characters without an escape of one letter. -/
theorem hex4_eq : ∀ n < 32, QueryPrint.hex4 n = (hexFill n).map Char.ofUInt8 := by
  decide

/-- The encoders write the same for a byte, although they look at the cases in another order. -/
theorem escape_byte (c : UInt8) : escape (Char.ofUInt8 c) = (writeJsonByte c).map Char.ofUInt8 := by
  by_cases hquote : c = 34
  · subst hquote; rfl
  by_cases hbackslash : c = 92
  · subst hbackslash; rfl
  by_cases hb : c = 8
  · subst hb; rfl
  by_cases hf : c = 12
  · subst hf; rfl
  by_cases hn : c = 10
  · subst hn; rfl
  by_cases hr : c = 13
  · subst hr; rfl
  by_cases ht : c = 9
  · subst ht; rfl
  have hne : ∀ {d : UInt8} (x : Char), c ≠ d → Char.ofUInt8 d = x → Char.ofUInt8 c ≠ x := by
    rintro d x h rfl heq
    exact h (ofUInt8_inj.1 heq)
  rw [escape, if_neg (hne '\x22' hquote rfl), if_neg (hne '\\' hbackslash rfl), if_neg (hne '\x08' hb rfl),
    if_neg (hne '\x0c' hf rfl), if_neg (hne '\n' hn rfl), if_neg (hne '\r' hr rfl), if_neg (hne '\t' ht rfl), writeJsonByte,
    if_neg hquote, if_neg hbackslash, if_neg hn, if_neg hr, if_neg ht, if_neg hb, if_neg hf, toNat_ofUInt8]
  have hlow : c < 32 ↔ c.toNat < 32 := UInt8.lt_iff_toNat_lt
  by_cases h : c.toNat < 32
  · rw [if_pos h, if_pos (hlow.2 h), hex4_eq _ h, List.map_append]
    rfl
  · rw [if_neg h, if_neg fun h' => h (hlow.1 h')]
    rfl

def hexChar (n : Nat) : UInt8 := UInt8.ofNat (if n < 10 then 48 + n else 87 + n)

/-- A control character is written with two zeros and the two digits of its number. -/
theorem hexFill_eq : ∀ n < 32, hexFill n = [48, 48, hexChar (n / 16), hexChar (n % 16)] := by
  decide

theorem hexFill_code : ∀ n < 32, JsonStrings.hex4 48 48 (hexChar (n / 16)) (hexChar (n % 16)) = some n ∧
    utf8 n = some [UInt8.ofNat n] := by
  decide

/-- What is written for a byte stands for it, whatever follows. -/
theorem encodes_byte (c : UInt8) {body s : List UInt8} (h : Encodes body s) : Encodes (writeJsonByte c ++ body) (c :: s) := by
  unfold writeJsonByte
  split_ifs with hquote hbackslash hn hr ht hb hf hlow
  · subst hquote; exact Encodes.short rfl h
  · subst hbackslash; exact Encodes.short rfl h
  · subst hn; exact Encodes.short rfl h
  · subst hr; exact Encodes.short rfl h
  · subst ht; exact Encodes.short rfl h
  · subst hb; exact Encodes.short rfl h
  · subst hf; exact Encodes.short rfl h
  · have hlow := UInt8.lt_iff_toNat_lt.1 hlow
    obtain ⟨hcode, hchar⟩ := hexFill_code c.toNat hlow
    rw [UInt8.ofNat_toNat] at hchar
    rw [hexFill_eq c.toNat hlow]
    exact Encodes.unicode hcode hchar h
  · exact Encodes.raw (UInt8.not_lt.1 hlow) hquote hbackslash h

theorem encodes_flatMap (s : List UInt8) : Encodes (s.flatMap writeJsonByte) s := by
  induction s with
  | nil => exact Encodes.nil
  | cons c s ih =>
    rw [List.flatMap_cons]
    exact encodes_byte c ih

theorem jsonPrintEscaped_eq (s : List UInt8) :
    (jsonPrintEscaped (some (s.map Char.ofUInt8))).flatten = (writeJsonString s).map Char.ofUInt8 := by
  have hbody : ((s.map Char.ofUInt8).map escape).flatten = (s.flatMap writeJsonByte).map Char.ofUInt8 := by
    rw [List.map_map, List.map_flatMap, List.flatMap_def]
    congr 1
    exact List.map_congr_left fun c _ => escape_byte c
  rw [jsonPrintEscaped, writeJsonString, List.flatten_append, List.flatten_append, hbody, List.map_append, List.map_append]
  rfl

/-- **The encoders write the same bytes, and these are a JSON string for the text**: nothing between its quotes is a control
character or a quote or a backslash of its own, and it is read as the text, whatever follows. -/
theorem encoders_agree (s : CStr) :
    (jsonPrintEscaped (some (s.bytes.map Char.ofUInt8))).flatten = (writeJsonString s.bytes).map Char.ofUInt8 ∧
      ∃ body, writeJsonString s.bytes = quote :: body ++ [quote] ∧ Encodes body s.bytes ∧ (∀ c ∈ body, 32 ≤ c) ∧
        ∀ rest, readString (writeJsonString s.bytes ++ rest) = some (s.bytes, rest) := by
  have hencodes := encodes_flatMap s.bytes
  refine ⟨jsonPrintEscaped_eq s.bytes, s.bytes.flatMap writeJsonByte, rfl, hencodes, hencodes.printable, fun rest => ?_⟩
  have hread := hencodes.readString rest
  rw [← hread, writeJsonString, List.append_assoc, List.append_assoc]
  rfl

end Olaf.JsonString
