import Olaf.Identifier
import Olaf.Library.CText
import Olaf.Library.Tokens
import Olaf.MetaData
/-!
# The meta file of a cached audio file

| here | there |
| --- | --- |
| `SecondsFormat`     | what `printf` makes of a `float` with `%.3f` |
| `processedMetaData` | the record that the stream processor fills at the end of a run (`olaf_stream_processor.c:207-214`, `:224-232`) |
| `destroy`           | what `olaf_fp_file_writer_destroy` (`olaf_fp_file_writer.c:52`) writes to the meta file |
| `cacheProcessed`    | the end of a run in mode `CACHE` |
| `readMetaPath`      | `readMetaPath` (`olaf_cli_cmd_store_cached.zig:26`): `none` for an error, `some none` for `null` |

The path is written as it is, on a line of its own, and read back up to the first line end and without the blanks around it.
A path with a line end, or with a blank at one of its ends, comes back as another one, and the audio is stored under another
number than the one in the name of its cache file (`survives_iff`). The store command without a cache keeps such a path as it
is.
-/

namespace Olaf.MetaFile
open Checked CStr CText MetaData ParallelQuery Tokens

variable {V : Type}

/-- A `float` has at most 39 digits before the point. -/
structure SecondsFormat (V : Type) where
  text : V → List UInt8
  short : ∀ v, (text v).length ≤ 48

/-- The bytes of an ASCII text. -/
def ascii (s : List Char) : List UInt8 := s.map fun c => UInt8.ofNat c.toNat

/-- A `size_t` as a `long`. -/
@[irreducible] def long (n : Nat) : Int := (n : Int).bmod (2 ^ 64)

/-- Without a path there is a message, and the path of the record stays as it is. -/
def processedMetaData (metaData : Record V) (origPath : Option (Buffer UInt8)) (audioDuration : V) (total : Nat) :
    Option (Record V) := do
  let metaData := { metaData with duration := audioDuration }
  let metaData ← match origPath with
    | none => some metaData
    | some origPath => metaData.setPath origPath
  return { metaData with fingerprints := long total }

def destroy (fmt : SecondsFormat V) (metaData : Record V) : List UInt8 :=
  ascii "path=".toList ++ text (pathBuffer metaData.path) ++ ascii "\n".toList ++
  ascii "duration=".toList ++ fmt.text metaData.duration ++ ascii "\n".toList ++
  ascii "fingerprints=".toList ++ ascii (formatInt metaData.fingerprints) ++ ascii "\n".toList

def cacheProcessed (fmt : SecondsFormat V) (metaData : Record V) (origPath : Option (Buffer UInt8)) (audioDuration : V)
    (total : Nat) : Option (List UInt8) := do
  let metaData ← processedMetaData metaData origPath audioDuration total
  return destroy fmt metaData

def isLineEnd (c : UInt8) : Bool := c = 13 || c = 10

def isBlank (c : UInt8) : Bool := c = 32 || c = 9

/-- The limit of `readFileAlloc`. -/
def maxBytes : Nat := 64 * 1024

def readMetaPath (content : List UInt8) : Option (Option (List UInt8)) :=
  if maxBytes < content.length then none
  else
    match (tokenizeAny isLineEnd content).find? (ascii "path=".toList).isPrefixOf with
    | none => some none
    | some line =>
      let value := trim isBlank (line.drop (ascii "path=".toList).length)
      some (if value = [] then none else some value)

/-- `readMetaPath` gives the path back, so that the audio gets the number that its cache file is named by. -/
def Survives (fmt : SecondsFormat V) (char : UInt8 → UInt32) (s : CStr) : Prop :=
  ∀ (metaData : Record V) (audioDuration : V) (total : Nat),
    Returns (cacheProcessed fmt metaData (some (dupeZ s.bytes)) audioDuration total) fun file =>
      ∃ path, readMetaPath file = some (some path) ∧ path = s.bytes ∧ identifierId char path = nameToId char s.bytes

/-- A path that stays a line, with nothing to cut off. -/
structure Plain (s : CStr) : Prop where
  nonempty : s.bytes ≠ []
  line : ∀ c ∈ s.bytes, isLineEnd c = false
  trimmed : Trimmed isBlank s.bytes

/-! ## Filling and writing -/

theorem processed_returns (metaData : Record V) {src : Buffer UInt8} {s : CStr} (hs : Holds src s)
    (hroom : s.bytes.length < pathSize) (audioDuration : V) (total : Nat) :
    Returns (processedMetaData metaData (some src) audioDuration total) fun r => r.Says s audioDuration (long total) := by
  refine (Record.setPath_returns hs hroom).bind fun r hr => ?_
  obtain ⟨hpath, hduration, _⟩ := hr
  exact Returns.pure { path := hpath, duration := hduration, fingerprints := rfl }

theorem processed_overflow {metaData : Record V} {src : Buffer UInt8} {s : CStr} (hs : Holds src s)
    (hfull : pathSize ≤ s.bytes.length) (audioDuration : V) (total : Nat) :
    processedMetaData metaData (some src) audioDuration total = none := by
  rw [processedMetaData, Record.setPath_overflow hs hfull]
  rfl

theorem ascii_length (s : List Char) : (ascii s).length = s.length := by
  rw [ascii, List.length_map]

theorem long_small (n : Nat) : (long n).natAbs ≤ 2 ^ 63 := by
  unfold long
  rw [Int.bmod_def]
  split <;> omega

/-- The file is small. -/
theorem destroy_length (fmt : SecondsFormat V) {r : Record V} {s : CStr} {duration : V} {total : Nat}
    (h : r.Says s duration (long total)) : (destroy fmt r).length ≤ maxBytes := by
  have hfits : s.bytes.length < 512 := h.path.fits
  have hduration := fmt.short duration
  have hcount := formatInt_length_le (k := 19) (by omega) (Nat.lt_of_le_of_lt (long_small total) (by decide))
  have hlabels : "path=".toList.length = 5 ∧ "duration=".toList.length = 9 ∧ "fingerprints=".toList.length = 13 ∧
      "\n".toList.length = 1 := by decide
  obtain ⟨hpath, hdur, hfps, hend⟩ := hlabels
  rw [destroy, h.path.text, h.duration, h.fingerprints, maxBytes]
  simp only [List.length_append, ascii_length]
  omega

/-! ## Reading back -/

/-- What is left of a path: up to the first line end, without the blanks around that. -/
def metaPath (path : List UInt8) : List UInt8 := trim isBlank (path.takeWhile fun c => !isLineEnd c)

theorem mem_of_mem_metaPath {path : List UInt8} {c : UInt8} (h : c ∈ metaPath path) : c ∈ path :=
  (List.takeWhile_sublist _).subset (mem_of_mem_trim h)

theorem metaPath_length (path : List UInt8) : (metaPath path).length ≤ path.length :=
  (trim_sublist.trans (List.takeWhile_sublist _)).length_le

theorem metaPath_eq {path : List UInt8} :
    metaPath path = path ↔ (∀ c ∈ path, isLineEnd c = false) ∧ Trimmed isBlank path := by
  constructor
  · intro h
    have hline : ∀ c ∈ path, isLineEnd c = false := by
      intro c hc
      rw [← h] at hc
      have hplain := List.mem_takeWhile_imp (mem_of_mem_trim hc)
      simpa using hplain
    refine ⟨hline, ?_⟩
    rw [← h]
    exact trim_trimmed isBlank _
  · rintro ⟨hline, htrimmed⟩
    rw [metaPath, List.takeWhile_eq_self_iff.2 (fun c hc => by rw [hline c hc]; rfl), trim_self htrimmed]

theorem plain_iff {s : CStr} : Plain s ↔ s.bytes ≠ [] ∧ metaPath s.bytes = s.bytes := by
  rw [metaPath_eq]
  exact ⟨fun h => ⟨h.nonempty, h.line, h.trimmed⟩, fun h => ⟨h.1, h.2.1, h.2.2⟩⟩

/-- What is before the first line end is a line. -/
theorem tokenize_line (label : List UInt8) (hne : label ≠ []) (hlabel : ∀ c ∈ label, isLineEnd c = false)
    (path rest : List UInt8) : ∃ more, tokenizeAny isLineEnd (label ++ (path ++ 10 :: rest)) =
      (label ++ path.takeWhile fun c => !isLineEnd c) :: more := by
  have hline : ∀ c ∈ label ++ path.takeWhile fun c => !isLineEnd c, isLineEnd c = false := by
    intro c hc
    rcases List.mem_append.1 hc with hc | hc
    · exact hlabel c hc
    · simpa using List.mem_takeWhile_imp hc
  have hnil : label ++ (path.takeWhile fun c => !isLineEnd c) ≠ [] := fun h => hne (List.append_eq_nil_iff.1 h).1
  have hsplit := List.takeWhile_append_dropWhile (p := fun c => !isLineEnd c) (l := path)
  have hend := List.head?_dropWhile_not (fun c => !isLineEnd c) path
  generalize (path.dropWhile fun c => !isLineEnd c) = after at hsplit hend
  cases after with
  | nil =>
    refine ⟨tokenizeAny isLineEnd rest, ?_⟩
    rw [← tokenizeAny_token rest hnil hline (d := 10) rfl, List.append_assoc]
    conv_lhs => rw [← hsplit, List.append_nil]
  | cons d after =>
    have hd : isLineEnd d = true := by simpa using hend
    refine ⟨tokenizeAny isLineEnd (after ++ 10 :: rest), ?_⟩
    rw [← tokenizeAny_token (after ++ 10 :: rest) hnil hline hd, List.append_assoc]
    conv_lhs => rw [← hsplit, List.append_assoc, List.cons_append]

/-- **What is read of the file that is written for a path.** -/
theorem readMetaPath_destroy (fmt : SecondsFormat V) {r : Record V} {s : CStr} {duration : V} {total : Nat}
    (h : r.Says s duration (long total)) :
    readMetaPath (destroy fmt r) = some (if metaPath s.bytes = [] then none else some (metaPath s.bytes)) := by
  have hfile : destroy fmt r = ascii "path=".toList ++ (s.bytes ++ 10 :: (ascii "duration=".toList ++ fmt.text r.duration ++
      ascii "\n".toList ++ ascii "fingerprints=".toList ++ ascii (formatInt r.fingerprints) ++ ascii "\n".toList)) := by
    rw [destroy, h.path.text]
    simp only [List.append_assoc]
    rfl
  obtain ⟨more, hlines⟩ := tokenize_line (ascii "path=".toList) (by decide) (by decide +kernel) s.bytes (ascii "duration=".toList ++
    fmt.text r.duration ++ ascii "\n".toList ++ ascii "fingerprints=".toList ++ ascii (formatInt r.fingerprints) ++
    ascii "\n".toList)
  have hprefix : (ascii "path=".toList).isPrefixOf
      (ascii "path=".toList ++ s.bytes.takeWhile fun c => !isLineEnd c) = true :=
    List.isPrefixOf_iff_prefix.2 (List.prefix_append _ _)
  rw [readMetaPath, if_neg (by have := destroy_length fmt h; omega), hfile, hlines, List.find?_cons_of_pos hprefix]
  dsimp only
  rw [List.drop_left, metaPath]

theorem survives_plain [Inhabited V] {fmt : SecondsFormat V} {char : UInt8 → UInt32} {s : CStr} (h : Survives fmt char s) :
    Plain s ∧ s.bytes.length < pathSize := by
  obtain ⟨file, hfile, path, hread, rfl, _⟩ := h ⟨default, 0, fun _ => 0⟩ default 0
  by_cases hroom : s.bytes.length < pathSize
  · obtain ⟨r, hr, hsaid⟩ := processed_returns ⟨default, 0, fun _ => 0⟩ (holds_dupeZ s) hroom (default : V) 0
    rw [cacheProcessed, hr] at hfile
    rw [← Option.some.inj hfile, readMetaPath_destroy fmt hsaid] at hread
    split at hread
    · cases hread
    · rename_i hne
      have heq := Option.some.inj (Option.some.inj hread)
      exact ⟨plain_iff.2 ⟨heq ▸ hne, heq⟩, hroom⟩
  · rw [cacheProcessed, processed_overflow (holds_dupeZ s) (by omega)] at hfile
    cases hfile

/-- **A path comes back from its meta file iff it fits its record, has no line end, and no blank first or last.** -/
theorem survives_iff [Inhabited V] (fmt : SecondsFormat V) (char : UInt8 → UInt32) (s : CStr) :
    Survives fmt char s ↔ Plain s ∧ s.bytes.length < pathSize := by
  refine ⟨survives_plain, ?_⟩
  rintro ⟨hs, hroom⟩ metaData audioDuration total
  refine (processed_returns metaData (holds_dupeZ s) hroom audioDuration total).bind fun r hr => ?_
  obtain ⟨hne, heq⟩ := plain_iff.1 hs
  refine Returns.pure ⟨s.bytes, ?_, rfl, ?_⟩
  · rw [readMetaPath_destroy fmt hr, heq, if_neg hne]
  · rw [nameToId, cString, List.takeWhile_eq_self_iff.2 fun c hc => decide_eq_true (s.nonzero c hc)]

def millisecondsText (v : UInt32) : List UInt8 :=
  decimal (v.toNat / 1000) ++ [46] ++ (decimal (1000 + v.toNat % 1000)).drop 1

theorem millisecondsText_length (v : UInt32) : (millisecondsText v).length ≤ 48 := by
  have hv := v.toNat_lt
  have hsecond : (Nat.toDigits 10 (v.toNat / 1000)).length ≤ 7 :=
    (Nat.length_toDigits_le_iff (by omega) (by omega)).2 (by omega)
  have hrest : (Nat.toDigits 10 (1000 + v.toNat % 1000)).length ≤ 4 :=
    (Nat.length_toDigits_le_iff (by omega) (by omega)).2 (by omega)
  simp only [millisecondsText, decimal, List.length_append, List.length_map, List.length_drop, List.length_singleton]
  omega

/-- A duration in milliseconds. -/
def milliseconds : SecondsFormat UInt32 := ⟨millisecondsText, millisecondsText_length⟩

/-- `" a.mp3"` comes back without its blank. -/
theorem leadingBlank_not_survives : ¬ ∀ (fmt : SecondsFormat UInt32) (char : UInt8 → UInt32) (s : CStr), s.bytes ≠ [] →
    Survives fmt char s := by
  intro h
  have hs := h milliseconds UInt8.toUInt32 ⟨ascii " a.mp3".toList, by decide +kernel⟩ (by decide)
  have hfirst := (survives_plain hs).1.trimmed.head 32 rfl
  revert hfirst
  decide

end Olaf.MetaFile
