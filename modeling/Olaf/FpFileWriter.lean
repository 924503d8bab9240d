import Olaf.Fingerprint
import Olaf.Library.CText
/-!
# Fingerprints as text (`olaf_fp_file_writer.c`)

| here | there |
| --- | --- |
| `header` | `olaf_fp_file_writer_write_header` (`:35`) |
| `row`    | the four `fprintf` calls for one fingerprint (`:45-48`) |
| `write`  | `olaf_fp_file_writer_write` (`:42`), on the text of the file so far |

A row is one line (`row_line`, `line_plain`) and short (`line_short`).
-/

namespace Olaf

variable {V : Type}

/-- What `printf` makes of a `float` with `%.6f`: no more than 40 digits before the point and never a line
end, whatever the value. -/
structure MagnitudeFormat (V : Type) where
  text : V → List Char
  short : ∀ v, (text v).length ≤ 48
  plain : ∀ v, ∀ c ∈ text v, c ≠ '\n'

/-- The integer fields are values of type `int`. -/
structure Fingerprint.Ints (f : Fingerprint V) : Prop where
  t1 : -2 ^ 31 ≤ f.timeIndex1 ∧ f.timeIndex1 < 2 ^ 31
  f1 : -2 ^ 31 ≤ f.frequencyBin1 ∧ f.frequencyBin1 < 2 ^ 31
  t2 : -2 ^ 31 ≤ f.timeIndex2 ∧ f.timeIndex2 < 2 ^ 31
  f2 : -2 ^ 31 ≤ f.frequencyBin2 ∧ f.frequencyBin2 < 2 ^ 31
  t3 : -2 ^ 31 ≤ f.timeIndex3 ∧ f.timeIndex3 < 2 ^ 31
  f3 : -2 ^ 31 ≤ f.frequencyBin3 ∧ f.frequencyBin3 < 2 ^ 31

namespace FpFileWriter
open CText

def header : List Char :=
  "fp_hash, ".toList ++ "t1, f1, m1, ".toList ++ "t2, f2, m2, ".toList ++ "t3, f3, m3\n".toList

/-- `%d, %d, %.6f`. -/
def columns (fmt : MagnitudeFormat V) (t f : Int) (m : V) : List Char :=
  formatInt t ++ ", ".toList ++ formatInt f ++ ", ".toList ++ fmt.text m

def row (fmt : MagnitudeFormat V) (f : Fingerprint V) : List Char :=
  Nat.toDigits 10 f.hash ++ ", ".toList ++
  columns fmt f.timeIndex1 f.frequencyBin1 f.magnitude1 ++ ", ".toList ++
  columns fmt f.timeIndex2 f.frequencyBin2 f.magnitude2 ++ ", ".toList ++
  columns fmt f.timeIndex3 f.frequencyBin3 f.magnitude3 ++ "\n".toList

def write (fmt : MagnitudeFormat V) (file : List Char) (fingerprints : List (Fingerprint V)) : List Char :=
  fingerprints.foldl (fun file f => file ++ row fmt f) file

theorem write_eq (fmt : MagnitudeFormat V) : ∀ (fps : List (Fingerprint V)) (file : List Char),
    write fmt file fps = file ++ fps.flatMap (row fmt)
  | [], file => (List.append_nil file).symm
  | f :: fps, file => by
    rw [List.flatMap_cons, ← List.append_assoc]
    exact write_eq fmt fps (file ++ row fmt f)

theorem write_all (fmt : MagnitudeFormat V) : ∀ (batches : List (List (Fingerprint V))) (file : List Char),
    batches.foldl (write fmt) file = file ++ batches.flatten.flatMap (row fmt)
  | [], file => (List.append_nil file).symm
  | fps :: batches, file => by
    rw [List.foldl_cons, write_all fmt batches, write_eq, List.flatten_cons, List.flatMap_append, List.append_assoc]

/-! ## A row is a line -/

theorem formatInt_length {n : Int} (h : -2 ^ 31 ≤ n ∧ n < 2 ^ 31) : (formatInt n).length ≤ 11 :=
  formatInt_length_le (by omega) (by omega)

/-- The row behind the first two columns, without the line end. -/
def tail (fmt : MagnitudeFormat V) (f : Fingerprint V) : List Char :=
  " ".toList ++ formatInt f.frequencyBin1 ++ ", ".toList ++ fmt.text f.magnitude1 ++ ", ".toList ++
  columns fmt f.timeIndex2 f.frequencyBin2 f.magnitude2 ++ ", ".toList ++
  columns fmt f.timeIndex3 f.frequencyBin3 f.magnitude3

/-- A row without its line end: the hash, then a blank and the time of the first point, then the rest. -/
def line (fmt : MagnitudeFormat V) (f : Fingerprint V) : List Char :=
  Nat.toDigits 10 f.hash ++ ',' :: (' ' :: formatInt f.timeIndex1 ++ ',' :: tail fmt f)

theorem row_line (fmt : MagnitudeFormat V) (f : Fingerprint V) : row fmt f = line fmt f ++ ['\n'] := by
  simp [row, line, tail, columns]

theorem line_short (fmt : MagnitudeFormat V) {f : Fingerprint V} (h : f.Ints) : (line fmt f).length ≤ 300 := by
  have hh : (Nat.toDigits 10 f.hash).length ≤ 11 :=
    (Nat.length_toDigits_le_iff (by omega) (by omega)).2 (Nat.lt_trans f.hash_lt (by decide))
  have h1 := formatInt_length h.t1
  have h2 := formatInt_length h.f1
  have h3 := formatInt_length h.t2
  have h4 := formatInt_length h.f2
  have h5 := formatInt_length h.t3
  have h6 := formatInt_length h.f3
  have m1 := fmt.short f.magnitude1
  have m2 := fmt.short f.magnitude2
  have m3 := fmt.short f.magnitude3
  have hblank : " ".toList.length = 1 := rfl
  have hsep : ", ".toList.length = 2 := rfl
  simp only [line, tail, columns, List.length_append, List.length_cons]
  omega

theorem line_plain (fmt : MagnitudeFormat V) (f : Fingerprint V) : ∀ c ∈ line fmt f, c ≠ '\n' := by
  have hint : ∀ n, '\n' ∉ formatInt n := fun n hc => (formatInt_plain hc).2 rfl
  have hhash : '\n' ∉ Nat.toDigits 10 f.hash := fun hc => (digit_plain (isDigit_of_mem hc)).2.2.2.2 rfl
  have hmag : ∀ m, '\n' ∉ fmt.text m := fun m hc => fmt.plain m _ hc rfl
  rintro c hc rfl
  revert hc
  simp [line, tail, columns, hint, hhash, hmag]

end FpFileWriter

end Olaf
