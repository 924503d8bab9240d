import Olaf.Report
import Olaf.WriterBuffer
/-!
# The configuration file (`olaf_cli_config.zig`)

| here | there |
| --- | --- |
| `JsonValue` | `std.json.Value` |
| `CliConfig` | `Config` (`:7`), with its defaults |
| `readJsonConfigOrDefault` | `readJsonConfigOrDefault` (`:187`), on what the JSON parser makes of the file |
| `OlafConfig` | `struct Olaf_Config` (`olaf_config.h:50`), without the folder, which is set elsewhere, and a field that nothing reads |
| `copyToCConfig` | `copy_to_c_config` (`olaf_cli_bridge.zig:34`) |
| `settings` | the integer fields of `Olaf_Config` with their keys and types |

An integer goes through two conversions that are checked when the program runs, to a `u32` and to the type of its field in C.
Before them it is only tested to be an integer, so one that is out of range ends the program instead of leaving the default
(`fallsBack_iff`).
-/

namespace Olaf.JsonConfig

inductive JsonValue (D : Type)
  | null
  | bool (b : Bool)
  | integer (n : Int64)
  | float (x : D)
  | numberString (s : List Char)
  | string (s : List Char)
  | array (items : List (JsonValue D))
  | object (entries : List (String × JsonValue D))

/-- `@floatCast` and `@floatFromInt` to an `f32`. -/
structure FloatCasts (V D : Type) where
  floatCast : D → V
  floatFromInt : Int64 → V

/-- An `@intCast` that does not fit ends the program. -/
inductive Failure
  | open
  | invalidJson
  | invalidAudioExtension
  | intCast

structure CliConfig (V : Type) where
  configPath : Option (List Char)
  dbFolder : List Char
  cacheFolder : List Char
  checkIncomingAudio : Bool
  skipDuplicates : Bool
  fragmentDurationInSeconds : Nat
  targetSampleRate : Nat
  allowedAudioFileExtensions : List (List Char)
  audioBlockSize : Nat
  audioStepSize : Nat
  bytesPerAudioSample : Nat
  maxEventPoints : Nat
  eventPointThreshold : Nat
  sqrtMagnitude : Bool
  filterSizeFrequency : Nat
  filterSizeTime : Nat
  minEventPointMagnitude : V
  maxEventPointUsages : Nat
  minFrequencyBin : Nat
  verbose : Bool
  numberOfEPsPerFP : Nat
  useMagnitudeInfo : Bool
  minTimeDistance : Nat
  maxTimeDistance : Nat
  minFreqDistance : Nat
  maxFreqDistance : Nat
  maxFingerprints : Nat
  maxResults : Nat
  searchRange : Nat
  minMatchCount : Nat
  minMatchTimeDiff : V
  keepMatchesFor : V
  printResultEvery : V
  maxDBCollisions : Nat

def CliConfig.default (V : Type) [Sample V] : CliConfig V where
  configPath := none
  dbFolder := "~/.olaf/db/".toList
  cacheFolder := "~/.olaf/cache".toList
  checkIncomingAudio := true
  skipDuplicates := true
  fragmentDurationInSeconds := 30
  targetSampleRate := 16000
  allowedAudioFileExtensions :=
    [".m4a", ".wav", ".mp4", ".wv", ".ape", ".ogg", ".mp3", ".raw", ".flac", ".wma"].map String.toList
  audioBlockSize := 1024
  audioStepSize := 128
  bytesPerAudioSample := 4
  maxEventPoints := 60
  eventPointThreshold := 30
  sqrtMagnitude := false
  filterSizeFrequency := 103
  filterSizeTime := 24
  minEventPointMagnitude := Sample.lit (1 / 1000)
  maxEventPointUsages := 10
  minFrequencyBin := 9
  verbose := false
  numberOfEPsPerFP := 3
  useMagnitudeInfo := false
  minTimeDistance := 2
  maxTimeDistance := 33
  minFreqDistance := 1
  maxFreqDistance := 128
  maxFingerprints := 300
  maxResults := 50
  searchRange := 5
  minMatchCount := 6
  minMatchTimeDiff := Sample.lit 0
  keepMatchesFor := Sample.lit 0
  printResultEvery := Sample.lit 0
  maxDBCollisions := 2000

structure OlafConfig (V : Type) where
  audioBlockSize : Int
  audioSampleRate : Int
  audioStepSize : Int
  bytesPerAudioSample : Int
  verbose : Bool
  filterSizeTime : Int
  halfFilterSizeTime : Int
  filterSizeFrequency : Int
  halfFilterSizeFrequency : Int
  minEventPointMagnitude : V
  minFrequencyBin : Int
  maxEventPointUsages : Int
  maxEventPoints : Int
  eventPointThreshold : Int
  sqrtMagnitude : Bool
  useMagnitudeInfo : Bool
  numberOfEPsPerFP : Int
  minTimeDistance : Int
  maxTimeDistance : Int
  minFreqDistance : Int
  maxFreqDistance : Int
  maxFingerprints : Int
  maxResults : Int
  searchRange : Int
  minMatchCount : Int
  minMatchTimeDiff : V
  keepMatchesFor : V
  printResultEvery : V
  maxDBCollisions : Int

/-- `olaf_config_default` (`olaf_config.c:23`). -/
def OlafConfig.default (V : Type) [Sample V] : OlafConfig V where
  audioBlockSize := 1024
  audioSampleRate := 16000
  audioStepSize := 128
  bytesPerAudioSample := 4
  verbose := false
  filterSizeTime := 24
  halfFilterSizeTime := 24 / 2
  filterSizeFrequency := 103
  halfFilterSizeFrequency := 103 / 2
  minEventPointMagnitude := Sample.lit (1 / 1000)
  minFrequencyBin := 9
  maxEventPointUsages := 10
  maxEventPoints := 60
  eventPointThreshold := 30
  sqrtMagnitude := false
  useMagnitudeInfo := false
  numberOfEPsPerFP := 3
  minTimeDistance := 2
  maxTimeDistance := 33
  minFreqDistance := 1
  maxFreqDistance := 128
  maxFingerprints := 300
  maxResults := 50
  searchRange := 5
  minMatchCount := 6
  minMatchTimeDiff := Sample.lit 0
  keepMatchesFor := Sample.lit 0
  printResultEvery := Sample.lit 0
  maxDBCollisions := 2000

/-! ## Reading -/

section Reading
variable {V D : Type}

def u32 (n : Int) : Except Failure Nat := if 0 ≤ n ∧ n < 2 ^ 32 then .ok n.toNat else .error .intCast

def readInteger (entries : List (String × JsonValue D)) (key : String) (default : Nat) : Except Failure Nat :=
  match entries.lookup key with
  | some (.integer n) => u32 n.toInt
  | _ => .ok default

def readIntegers (entries : List (String × JsonValue D)) (config : CliConfig V) : Except Failure (CliConfig V) := do
  let fragmentDurationInSeconds ← readInteger entries "fragment_duration_in_seconds" config.fragmentDurationInSeconds
  let targetSampleRate ← readInteger entries "target_sample_rate" config.targetSampleRate
  let audioBlockSize ← readInteger entries "audio_block_size" config.audioBlockSize
  let audioStepSize ← readInteger entries "audio_step_size" config.audioStepSize
  let bytesPerAudioSample ← readInteger entries "bytes_per_audio_sample" config.bytesPerAudioSample
  let maxEventPoints ← readInteger entries "max_event_points" config.maxEventPoints
  let eventPointThreshold ← readInteger entries "event_point_threshold" config.eventPointThreshold
  let filterSizeFrequency ← readInteger entries "filter_size_frequency" config.filterSizeFrequency
  let filterSizeTime ← readInteger entries "filter_size_time" config.filterSizeTime
  let maxEventPointUsages ← readInteger entries "max_event_point_usages" config.maxEventPointUsages
  let minFrequencyBin ← readInteger entries "min_frequency_bin" config.minFrequencyBin
  let numberOfEPsPerFP ← readInteger entries "number_of_eps_per_fp" config.numberOfEPsPerFP
  let minTimeDistance ← readInteger entries "min_time_distance" config.minTimeDistance
  let maxTimeDistance ← readInteger entries "max_time_distance" config.maxTimeDistance
  let minFreqDistance ← readInteger entries "min_freq_distance" config.minFreqDistance
  let maxFreqDistance ← readInteger entries "max_freq_distance" config.maxFreqDistance
  let maxFingerprints ← readInteger entries "max_fingerprints" config.maxFingerprints
  let maxResults ← readInteger entries "max_results" config.maxResults
  let searchRange ← readInteger entries "search_range" config.searchRange
  let minMatchCount ← readInteger entries "min_match_count" config.minMatchCount
  let maxDBCollisions ← readInteger entries "max_db_collisions" config.maxDBCollisions
  return { config with
    fragmentDurationInSeconds, targetSampleRate, audioBlockSize, audioStepSize, bytesPerAudioSample, maxEventPoints,
    eventPointThreshold, filterSizeFrequency, filterSizeTime, maxEventPointUsages, minFrequencyBin, numberOfEPsPerFP,
    minTimeDistance, maxTimeDistance, minFreqDistance, maxFreqDistance, maxFingerprints, maxResults, searchRange,
    minMatchCount, maxDBCollisions }

def readString (entries : List (String × JsonValue D)) (key : String) (default : List Char) : List Char :=
  match entries.lookup key with
  | some (.string s) => s
  | _ => default

def readBool (entries : List (String × JsonValue D)) (key : String) (default : Bool) : Bool :=
  match entries.lookup key with
  | some (.bool b) => b
  | _ => default

def readFloat (casts : FloatCasts V D) (entries : List (String × JsonValue D)) (key : String) (default : V) : V :=
  match entries.lookup key with
  | some (.float x) => casts.floatCast x
  | some (.integer n) => casts.floatFromInt n
  | _ => default

def readExtension : JsonValue D → Except Failure (List Char)
  | .string s => .ok s
  | _ => .error .invalidAudioExtension

def readExtensions (entries : List (String × JsonValue D)) (default : List (List Char)) :
    Except Failure (List (List Char)) :=
  match entries.lookup "allowed_audio_file_extensions" with
  | some (.array items) => items.mapM readExtension
  | _ => .ok default

/-- `expandPath` (`olaf_cli_util.zig:53`); `home` is the variable `HOME`. -/
def expandPath (home : Option (List Char)) (path : List Char) : List Char :=
  if "~/".toList.isPrefixOf path then
    match home with
    | some home => home ++ path.drop 1
    | none => path
  else path

/-- The fields before the integers. -/
def readTexts (home : Option (List Char)) (configPath : List Char) (entries : List (String × JsonValue D))
    (config : CliConfig V) : Except Failure (CliConfig V) := do
  let extensions ← readExtensions entries config.allowedAudioFileExtensions
  return { config with
    configPath := some configPath
    dbFolder := expandPath home (readString entries "db_folder" config.dbFolder)
    cacheFolder := expandPath home (readString entries "cache_folder" config.cacheFolder)
    allowedAudioFileExtensions := extensions
    checkIncomingAudio := readBool entries "check_incoming_audio" config.checkIncomingAudio
    skipDuplicates := readBool entries "skip_duplicates" config.skipDuplicates
    sqrtMagnitude := readBool entries "sqrt_magnitude" config.sqrtMagnitude
    verbose := readBool entries "verbose" config.verbose
    useMagnitudeInfo := readBool entries "use_magnitude_info" config.useMagnitudeInfo }

/-- The fields behind them. -/
def readFloats (casts : FloatCasts V D) (entries : List (String × JsonValue D)) (config : CliConfig V) : CliConfig V :=
  { config with
    minEventPointMagnitude := readFloat casts entries "min_event_point_magnitude" config.minEventPointMagnitude
    minMatchTimeDiff := readFloat casts entries "min_match_time_diff" config.minMatchTimeDiff
    keepMatchesFor := readFloat casts entries "keep_matches_for" config.keepMatchesFor
    printResultEvery := readFloat casts entries "print_result_every" config.printResultEvery }

/-- What opening and parsing the file comes to: there is none, it cannot be opened, it cannot be read or parsed, or it is a
value. -/
inductive File (D : Type)
  | fileNotFound
  | failed
  | malformed
  | parsed (configPath : List Char) (value : JsonValue D)

def readJsonConfigOrDefault [Sample V] (casts : FloatCasts V D) (home : Option (List Char)) :
    File D → Except Failure (CliConfig V)
  | .fileNotFound => .ok (CliConfig.default V)
  | .failed => .error .open
  | .malformed => .error .invalidJson
  | .parsed configPath (.object entries) => do
    let config ← readTexts home configPath entries (CliConfig.default V)
    let config ← readIntegers entries config
    return readFloats casts entries config
  | .parsed _ _ => .error .invalidJson

/-! ## Copying -/

/-- The types of the fields in C. -/
inductive CType
  | int
  | sizeT

def CType.lo : CType → Int
  | .int => -2 ^ 31
  | .sizeT => 0

def CType.hi : CType → Int
  | .int => 2 ^ 31 - 1
  | .sizeT => 2 ^ 64 - 1

def CType.cast (t : CType) (n : Nat) : Except Failure Int := if t.lo ≤ n ∧ n ≤ t.hi then .ok n else .error .intCast

def copyToCConfig (config : CliConfig V) : Except Failure (OlafConfig V) := do
  let audioBlockSize ← CType.int.cast config.audioBlockSize
  let audioSampleRate ← CType.int.cast config.targetSampleRate
  let audioStepSize ← CType.int.cast config.audioStepSize
  let bytesPerAudioSample ← CType.int.cast config.bytesPerAudioSample
  let maxEventPoints ← CType.int.cast config.maxEventPoints
  let eventPointThreshold ← CType.int.cast config.eventPointThreshold
  let filterSizeFrequency ← CType.int.cast config.filterSizeFrequency
  let halfFilterSizeFrequency ← CType.int.cast (config.filterSizeFrequency / 2)
  let filterSizeTime ← CType.int.cast config.filterSizeTime
  let halfFilterSizeTime ← CType.int.cast (config.filterSizeTime / 2)
  let maxEventPointUsages ← CType.int.cast config.maxEventPointUsages
  let minFrequencyBin ← CType.int.cast config.minFrequencyBin
  let numberOfEPsPerFP ← CType.int.cast config.numberOfEPsPerFP
  let minTimeDistance ← CType.int.cast config.minTimeDistance
  let maxTimeDistance ← CType.int.cast config.maxTimeDistance
  let minFreqDistance ← CType.int.cast config.minFreqDistance
  let maxFreqDistance ← CType.int.cast config.maxFreqDistance
  let maxFingerprints ← CType.sizeT.cast config.maxFingerprints
  let maxResults ← CType.sizeT.cast config.maxResults
  let searchRange ← CType.int.cast config.searchRange
  let minMatchCount ← CType.int.cast config.minMatchCount
  let maxDBCollisions ← CType.sizeT.cast config.maxDBCollisions
  return {
    audioBlockSize, audioSampleRate, audioStepSize, bytesPerAudioSample, maxEventPoints, eventPointThreshold,
    filterSizeFrequency, halfFilterSizeFrequency, filterSizeTime, halfFilterSizeTime, maxEventPointUsages,
    minFrequencyBin, numberOfEPsPerFP, minTimeDistance, maxTimeDistance, minFreqDistance, maxFreqDistance,
    maxFingerprints, maxResults, searchRange, minMatchCount, maxDBCollisions,
    sqrtMagnitude := config.sqrtMagnitude
    minEventPointMagnitude := config.minEventPointMagnitude
    verbose := config.verbose
    useMagnitudeInfo := config.useMagnitudeInfo
    minMatchTimeDiff := config.minMatchTimeDiff
    keepMatchesFor := config.keepMatchesFor
    printResultEvery := config.printResultEvery }

end Reading

/-! ## Values that are given -/

section Given
variable {V D : Type}

/-- A field of `Olaf_Config` that a key of the file is for. -/
structure Setting (V : Type) where
  key : String
  type : CType
  read : CliConfig V → Nat
  copied : OlafConfig V → Int

def settings : List (Setting V) :=
  [⟨"target_sample_rate", .int, (·.targetSampleRate), (·.audioSampleRate)⟩,
    ⟨"audio_block_size", .int, (·.audioBlockSize), (·.audioBlockSize)⟩,
    ⟨"audio_step_size", .int, (·.audioStepSize), (·.audioStepSize)⟩,
    ⟨"bytes_per_audio_sample", .int, (·.bytesPerAudioSample), (·.bytesPerAudioSample)⟩,
    ⟨"max_event_points", .int, (·.maxEventPoints), (·.maxEventPoints)⟩,
    ⟨"event_point_threshold", .int, (·.eventPointThreshold), (·.eventPointThreshold)⟩,
    ⟨"filter_size_frequency", .int, (·.filterSizeFrequency), (·.filterSizeFrequency)⟩,
    ⟨"filter_size_time", .int, (·.filterSizeTime), (·.filterSizeTime)⟩,
    ⟨"max_event_point_usages", .int, (·.maxEventPointUsages), (·.maxEventPointUsages)⟩,
    ⟨"min_frequency_bin", .int, (·.minFrequencyBin), (·.minFrequencyBin)⟩,
    ⟨"number_of_eps_per_fp", .int, (·.numberOfEPsPerFP), (·.numberOfEPsPerFP)⟩,
    ⟨"min_time_distance", .int, (·.minTimeDistance), (·.minTimeDistance)⟩,
    ⟨"max_time_distance", .int, (·.maxTimeDistance), (·.maxTimeDistance)⟩,
    ⟨"min_freq_distance", .int, (·.minFreqDistance), (·.minFreqDistance)⟩,
    ⟨"max_freq_distance", .int, (·.maxFreqDistance), (·.maxFreqDistance)⟩,
    ⟨"max_fingerprints", .sizeT, (·.maxFingerprints), (·.maxFingerprints)⟩,
    ⟨"max_results", .sizeT, (·.maxResults), (·.maxResults)⟩,
    ⟨"search_range", .int, (·.searchRange), (·.searchRange)⟩,
    ⟨"min_match_count", .int, (·.minMatchCount), (·.minMatchCount)⟩,
    ⟨"max_db_collisions", .sizeT, (·.maxDBCollisions), (·.maxDBCollisions)⟩]

/-- What a field of C should be: the value of its key when that is one of its type, and the default otherwise. -/
def given (entries : List (String × JsonValue D)) (key : String) (t : CType) (default : Int) : Int :=
  match entries.lookup key with
  | some (.integer n) => if t.lo ≤ n.toInt ∧ n.toInt ≤ t.hi then n.toInt else default
  | _ => default

/-- Every integer field is as it should be. -/
structure Documented [Sample V] (entries : List (String × JsonValue D)) (c : OlafConfig V) : Prop where
  setting : ∀ s ∈ settings, s.copied c = given entries s.key s.type (s.read (CliConfig.default V))
  halfFrequency : c.halfFilterSizeFrequency = c.filterSizeFrequency / 2
  halfTime : c.halfFilterSizeTime = c.filterSizeTime / 2

/-- The file is refused for another reason than a conversion, or every integer field is as it should be. -/
def FallsBack [Sample V] (casts : FloatCasts V D) (home : Option (List Char)) (configPath : List Char)
    (entries : List (String × JsonValue D)) : Prop :=
  match readJsonConfigOrDefault casts home (.parsed configPath (.object entries)) >>= copyToCConfig with
  | .ok c => Documented entries c
  | .error failure => failure ≠ .intCast

/-- The list of extensions has something that is no string. -/
def BadExtensions (entries : List (String × JsonValue D)) : Prop :=
  ∃ items, entries.lookup "allowed_audio_file_extensions" = some (.array items) ∧ ∃ item ∈ items, ∀ s, item ≠ .string s

def InRange (entries : List (String × JsonValue D)) (key : String) (hi : Int) : Prop :=
  ∀ n, entries.lookup key = some (.integer n) → 0 ≤ n.toInt ∧ n.toInt ≤ hi

/-- The largest value that both conversions let pass. -/
def CType.limit : CType → Int
  | .int => 2 ^ 31 - 1
  | .sizeT => 2 ^ 32 - 1

/-- The integers of the file pass. -/
structure InRanges (V : Type) (entries : List (String × JsonValue D)) : Prop where
  fragment : InRange entries "fragment_duration_in_seconds" (2 ^ 32 - 1)
  setting : ∀ s ∈ (settings : List (Setting V)), InRange entries s.key s.type.limit

/-- What a `u32` field is when nothing fails. -/
def value (entries : List (String × JsonValue D)) (key : String) (default : Nat) : Nat :=
  match entries.lookup key with
  | some (.integer n) => n.toInt.toNat
  | _ => default

theorem given_of_inRange {entries : List (String × JsonValue D)} {key : String} {t : CType} {default : Nat}
    (h : InRange entries key t.limit) : given entries key t default = value entries key default := by
  unfold given value
  split
  · rename_i n hn
    obtain ⟨hlo, hhi⟩ := h n hn
    rw [if_pos (by cases t <;> simp only [CType.lo, CType.hi, CType.limit] at hhi ⊢ <;> omega), Int.toNat_of_nonneg hlo]
  · rfl

/-- An integer passes both conversions when it is in range. -/
theorem inRange_iff {entries : List (String × JsonValue D)} {key : String} {t : CType} {default : Nat}
    (hdefault : (default : Int) ≤ t.limit) : InRange entries key t.limit ↔
      InRange entries key (2 ^ 32 - 1) ∧ t.lo ≤ value entries key default ∧ (value entries key default : Int) ≤ t.hi := by
  unfold value
  constructor
  · intro h
    refine ⟨fun n hn => ?_, ?_⟩
    · have hn := h n hn
      cases t <;> simp only [CType.limit] at hn <;> omega
    · split
      · rename_i n hn
        have hn := h n hn
        cases t <;> simp only [CType.limit, CType.lo, CType.hi] at hn ⊢ <;> omega
      · cases t <;> simp only [CType.limit, CType.lo, CType.hi] at hdefault ⊢ <;> omega
  · rintro ⟨hu32, hcast⟩ n hn
    have hn' := hu32 n hn
    rw [hn] at hcast
    dsimp only at hcast
    cases t <;> simp only [CType.limit, CType.lo, CType.hi] at hcast ⊢ <;> omega

end Given

/-! ## Both functions -/

section Both
variable {V D : Type} {entries : List (String × JsonValue D)}

/-- The conversions in `x` are all right when `P` holds, and it is `a` then. -/
structure Checks {α : Type} (x : Except Failure α) (a : α) (P : Prop) : Prop where
  ok : P → x = .ok a
  failed : ¬ P → x = .error .intCast

theorem Checks.pure {α : Type} (a : α) : Checks (Except.ok a) a True := ⟨fun _ => rfl, fun h => absurd trivial h⟩

theorem Checks.congr {α : Type} {x : Except Failure α} {a : α} {P Q : Prop} (h : Checks x a P) (hPQ : P ↔ Q) : Checks x a Q :=
  ⟨fun hQ => h.ok (hPQ.2 hQ), fun hQ => h.failed fun hP => hQ (hPQ.1 hP)⟩

theorem Checks.bind {α β : Type} {x : Except Failure α} {f : α → Except Failure β} {a : α} {b : β} {P Q : Prop}
    (h : Checks x a P) (hf : Checks (f a) b Q) : Checks (x >>= f) b (P ∧ Q) := by
  constructor
  · rintro ⟨hP, hQ⟩
    rw [h.ok hP]
    exact hf.ok hQ
  · intro hbad
    by_cases hP : P
    · rw [h.ok hP]
      exact hf.failed fun hQ => hbad ⟨hP, hQ⟩
    · rw [h.failed hP]
      rfl

theorem readInteger_checks (key : String) (default : Nat) :
    Checks (readInteger entries key default) (value entries key default) (InRange entries key (2 ^ 32 - 1)) := by
  unfold readInteger value InRange
  split
  · rename_i n hn
    simp only [hn, Option.some.injEq, JsonValue.integer.injEq, forall_eq', u32]
    exact ⟨fun h => if_pos (by omega), fun h => if_neg (by omega)⟩
  · rename_i hnone
    exact ⟨fun _ => rfl, fun h => absurd (fun n hn => absurd hn (hnone n)) h⟩

theorem cast_checks (t : CType) (n : Nat) : Checks (t.cast n) (n : Int) (t.lo ≤ n ∧ n ≤ t.hi) :=
  ⟨fun h => if_pos h, fun h => if_neg h⟩

/-- What `readIntegers` returns. -/
def assigned (entries : List (String × JsonValue D)) (config : CliConfig V) : CliConfig V :=
  { config with
    fragmentDurationInSeconds := value entries "fragment_duration_in_seconds" config.fragmentDurationInSeconds
    targetSampleRate := value entries "target_sample_rate" config.targetSampleRate
    audioBlockSize := value entries "audio_block_size" config.audioBlockSize
    audioStepSize := value entries "audio_step_size" config.audioStepSize
    bytesPerAudioSample := value entries "bytes_per_audio_sample" config.bytesPerAudioSample
    maxEventPoints := value entries "max_event_points" config.maxEventPoints
    eventPointThreshold := value entries "event_point_threshold" config.eventPointThreshold
    filterSizeFrequency := value entries "filter_size_frequency" config.filterSizeFrequency
    filterSizeTime := value entries "filter_size_time" config.filterSizeTime
    maxEventPointUsages := value entries "max_event_point_usages" config.maxEventPointUsages
    minFrequencyBin := value entries "min_frequency_bin" config.minFrequencyBin
    numberOfEPsPerFP := value entries "number_of_eps_per_fp" config.numberOfEPsPerFP
    minTimeDistance := value entries "min_time_distance" config.minTimeDistance
    maxTimeDistance := value entries "max_time_distance" config.maxTimeDistance
    minFreqDistance := value entries "min_freq_distance" config.minFreqDistance
    maxFreqDistance := value entries "max_freq_distance" config.maxFreqDistance
    maxFingerprints := value entries "max_fingerprints" config.maxFingerprints
    maxResults := value entries "max_results" config.maxResults
    searchRange := value entries "search_range" config.searchRange
    minMatchCount := value entries "min_match_count" config.minMatchCount
    maxDBCollisions := value entries "max_db_collisions" config.maxDBCollisions }

/-- What `copyToCConfig` returns. -/
def copied (config : CliConfig V) : OlafConfig V where
  audioBlockSize := config.audioBlockSize
  audioSampleRate := config.targetSampleRate
  audioStepSize := config.audioStepSize
  bytesPerAudioSample := config.bytesPerAudioSample
  verbose := config.verbose
  filterSizeTime := config.filterSizeTime
  halfFilterSizeTime := (config.filterSizeTime / 2 : Nat)
  filterSizeFrequency := config.filterSizeFrequency
  halfFilterSizeFrequency := (config.filterSizeFrequency / 2 : Nat)
  minEventPointMagnitude := config.minEventPointMagnitude
  minFrequencyBin := config.minFrequencyBin
  maxEventPointUsages := config.maxEventPointUsages
  maxEventPoints := config.maxEventPoints
  eventPointThreshold := config.eventPointThreshold
  sqrtMagnitude := config.sqrtMagnitude
  useMagnitudeInfo := config.useMagnitudeInfo
  numberOfEPsPerFP := config.numberOfEPsPerFP
  minTimeDistance := config.minTimeDistance
  maxTimeDistance := config.maxTimeDistance
  minFreqDistance := config.minFreqDistance
  maxFreqDistance := config.maxFreqDistance
  maxFingerprints := config.maxFingerprints
  maxResults := config.maxResults
  searchRange := config.searchRange
  minMatchCount := config.minMatchCount
  minMatchTimeDiff := config.minMatchTimeDiff
  keepMatchesFor := config.keepMatchesFor
  printResultEvery := config.printResultEvery
  maxDBCollisions := config.maxDBCollisions

theorem readIntegers_checks (config : CliConfig V) : Checks (readIntegers entries config) (assigned entries config)
    (InRange entries "fragment_duration_in_seconds" (2 ^ 32 - 1) ∧
      ∀ s ∈ (settings : List (Setting V)), InRange entries s.key (2 ^ 32 - 1)) := by
  simp only [settings, List.forall_mem_cons]
  unfold readIntegers
  iterate 21 refine Checks.bind (readInteger_checks _ _) ?_
  exact ⟨fun _ => rfl, fun h => absurd nofun h⟩

/-- The half of what fits fits. -/
theorem copyToCConfig_checks (config : CliConfig V) : Checks (copyToCConfig config) (copied config)
    (∀ s ∈ (settings : List (Setting V)), s.type.lo ≤ s.read config ∧ s.read config ≤ s.type.hi) := by
  apply Checks.congr
  · unfold copyToCConfig
    iterate 22 apply Checks.bind (cast_checks _ _)
    exact Checks.pure _
  · simp only [settings, List.forall_mem_cons, CType.lo, CType.hi]
    constructor
    · rintro ⟨h1, h2, h3, h4, h5, h6, h7, -, h8, -, h9, h10, h11, h12, h13, h14, h15, h16, h17, h18, h19, h20, -⟩
      exact ⟨h2, h1, h3, h4, h5, h6, h7, h8, h9, h10, h11, h12, h13, h14, h15, h16, h17, h18, h19, h20, nofun⟩
    · rintro ⟨h2, h1, h3, h4, h5, h6, h7, h8, h9, h10, h11, h12, h13, h14, h15, h16, h17, h18, h19, h20, -⟩
      exact ⟨h1, h2, h3, h4, h5, h6, h7, by omega, h8, by omega, h9, h10, h11, h12, h13, h14, h15, h16, h17, h18, h19, h20,
        trivial⟩

/-- The defaults pass, and are those of `olaf_config_default`. -/
theorem copyToCConfig_default [Sample V] : copyToCConfig (CliConfig.default V) = .ok (OlafConfig.default V) := by
  rw [(copyToCConfig_checks (CliConfig.default V)).ok]
  · rfl
  · simp [settings, CliConfig.default, CType.lo, CType.hi]

/-- The fields that a report reads; `seconds` is the value of a `float`. -/
def OlafConfig.toReportConfig (seconds : V → ℚ) (c : OlafConfig V) : FpMatcher.ReportConfig V where
  audioBlockSize := c.audioBlockSize.toNat
  audioSampleRate := c.audioSampleRate.toNat
  audioStepSize := c.audioStepSize.toNat
  filterSizeTime := c.filterSizeTime.toNat
  halfFilterSizeTime := c.halfFilterSizeTime.toNat
  minEventPointMagnitude := c.minEventPointMagnitude
  minFrequencyBin := c.minFrequencyBin.toNat
  maxEventPointUsages := c.maxEventPointUsages
  maxEventPoints := c.maxEventPoints.toNat
  eventPointThreshold := c.eventPointThreshold
  sqrtMagnitude := c.sqrtMagnitude
  numberOfEPsPerFP := c.numberOfEPsPerFP
  minTimeDistance := c.minTimeDistance
  maxTimeDistance := c.maxTimeDistance
  minFreqDistance := c.minFreqDistance
  maxFreqDistance := c.maxFreqDistance
  maxFingerprints := c.maxFingerprints.toNat
  searchRange := c.searchRange.toNat
  keepMatchesFor := seconds c.keepMatchesFor
  printResultEvery := seconds c.printResultEvery
  maxDBCollisions := c.maxDBCollisions.toNat
  maxResults := c.maxResults.toNat
  minMatchCount := c.minMatchCount
  minMatchTimeDiff := seconds c.minMatchTimeDiff

theorem toReportConfig_default [Sample V] {seconds : V → ℚ} (h : seconds (Sample.lit 0) = 0) :
    (OlafConfig.default V).toReportConfig seconds = FpMatcher.ReportConfig.default V := by
  simp [OlafConfig.toReportConfig, OlafConfig.default, FpMatcher.ReportConfig.default, Olaf.Config.default, h]

/-- The conversion that bounds the batches of the writer. -/
theorem u32_maxFingerprints (n : Int) : (u32 n).toOption = WriterBuffer.maxFingerprints n := by
  unfold u32 WriterBuffer.maxFingerprints
  split <;> rfl

/-- Only a list of extensions is read before the integers that can be refused. -/
theorem readExtensions_ok (default : List (List Char)) (h : ¬ BadExtensions entries) :
    ∃ extensions, readExtensions entries default = .ok extensions := by
  have hall : ∀ items : List (JsonValue D), (∀ item ∈ items, ∃ s, item = .string s) → ∃ l, items.mapM readExtension = .ok l := by
    intro items hitems
    induction items with
    | nil => exact ⟨[], rfl⟩
    | cons item items ih =>
      obtain ⟨s, rfl⟩ := hitems item List.mem_cons_self
      obtain ⟨l, hl⟩ := ih fun item hitem => hitems item (List.mem_cons_of_mem _ hitem)
      rw [List.mapM_cons, hl]
      exact ⟨s :: l, rfl⟩
  unfold readExtensions
  split
  · rename_i items hitems
    refine hall items fun item hitem => ?_
    by_contra hno
    exact h ⟨items, hitems, item, hitem, fun s hs => hno ⟨s, hs⟩⟩
  · exact ⟨default, rfl⟩

theorem readExtensions_error (default : List (List Char)) (h : BadExtensions entries) :
    readExtensions entries default = .error .invalidAudioExtension := by
  obtain ⟨items, hitems, item, hmem, hbad⟩ := h
  have hall : ∀ items : List (JsonValue D), item ∈ items → items.mapM readExtension = .error .invalidAudioExtension := by
    intro items hmem
    induction items with
    | nil => cases hmem
    | cons first items ih =>
      rw [List.mapM_cons]
      cases hfirst : readExtension first with
      | error failure =>
        cases first <;> cases hfirst <;> rfl
      | ok s =>
        rcases List.mem_cons.1 hmem with rfl | hmem
        · cases item <;> cases hfirst
          exact absurd rfl (hbad _)
        · rw [ih hmem]
          rfl
  rw [readExtensions, hitems]
  exact hall items hmem

/-- The default of a field fits it. -/
theorem default_le [Sample V] : ∀ s ∈ (settings : List (Setting V)), (s.read (CliConfig.default V) : Int) ≤ s.type.limit := by
  simp [settings, CliConfig.default, CType.limit]

theorem read_assigned (config : CliConfig V) : ∀ s ∈ settings, s.read (assigned entries config) =
    value entries s.key (s.read config) := by
  simp [settings, assigned]

theorem copied_setting (config : CliConfig V) : ∀ s ∈ settings, s.copied (copied config) = s.read config := by
  simp [settings, copied]

/-- Texts and truth values leave the integers as they are. -/
theorem readTexts_ok [Sample V] (home : Option (List Char)) (configPath : List Char) (h : ¬ BadExtensions entries) :
    ∃ config : CliConfig V, readTexts home configPath entries (CliConfig.default V) = .ok config ∧
      ∀ s ∈ settings, s.read config = s.read (CliConfig.default V) := by
  obtain ⟨extensions, hextensions⟩ := readExtensions_ok (CliConfig.default V).allowedAudioFileExtensions h
  rw [readTexts, hextensions]
  exact ⟨_, rfl, by simp [settings]⟩

theorem read_floats (casts : FloatCasts V D) (config : CliConfig V) : ∀ s ∈ settings,
    s.read (readFloats casts entries config) = s.read config := by
  simp [settings, readFloats]

/-- With every list of extensions in order, both functions are all right exactly when the integers are in range. -/
theorem readAndCopy_checks [Sample V] (casts : FloatCasts V D) (home : Option (List Char)) (configPath : List Char)
    (h : ¬ BadExtensions entries) : ∃ config : CliConfig V,
      (∀ s ∈ settings, s.read config = value entries s.key (s.read (CliConfig.default V))) ∧
      Checks (readJsonConfigOrDefault casts home (.parsed configPath (.object entries)) >>= copyToCConfig) (copied config)
        (InRanges V entries) := by
  obtain ⟨config, htexts, hread⟩ := readTexts_ok (V := V) home configPath h
  have hvalue : ∀ s ∈ settings, s.read (readFloats casts entries (assigned entries config)) =
      value entries s.key (s.read (CliConfig.default V)) := by
    intro s hs
    rw [read_floats casts _ s hs, read_assigned config s hs, hread s hs]
  refine ⟨readFloats casts entries (assigned entries config), hvalue, ?_⟩
  rw [readJsonConfigOrDefault, htexts]
  have hreading : Checks (readIntegers entries config >>= fun config => Except.ok (readFloats casts entries config))
      (readFloats casts entries (assigned entries config)) _ := (readIntegers_checks config).bind (Checks.pure _)
  refine (hreading.bind (copyToCConfig_checks _)).congr ?_
  constructor
  · rintro ⟨⟨⟨hfragment, hu32⟩, -⟩, hcast⟩
    refine ⟨hfragment, fun s hs => (inRange_iff (default_le s hs)).2 ⟨hu32 s hs, ?_⟩⟩
    rw [← hvalue s hs]
    exact hcast s hs
  · intro hranges
    have hpass : ∀ s ∈ (settings : List (Setting V)), _ := fun s hs =>
      (inRange_iff (default_le s hs)).1 (hranges.setting s hs)
    refine ⟨⟨⟨hranges.fragment, fun s hs => (hpass s hs).1⟩, trivial⟩, fun s hs => ?_⟩
    rw [hvalue s hs]
    exact (hpass s hs).2

/-- Without the integers in range the program ends. -/
theorem inRanges_of_fallsBack [Sample V] {casts : FloatCasts V D} {home : Option (List Char)} {configPath : List Char}
    (hextensions : ¬ BadExtensions entries) (h : FallsBack casts home configPath entries) : InRanges V entries := by
  obtain ⟨config, _, hchecks⟩ := readAndCopy_checks casts home configPath hextensions
  by_contra hranges
  rw [FallsBack, hchecks.failed hranges] at h
  exact h rfl

end Both

/-- **Every integer field falls back iff the file is refused for its extensions or its integers are in range.** -/
theorem fallsBack_iff {V D : Type} [Sample V] (casts : FloatCasts V D) (home : Option (List Char)) (configPath : List Char)
    (entries : List (String × JsonValue D)) :
    FallsBack casts home configPath entries ↔ BadExtensions entries ∨ InRanges V entries := by
  constructor
  · intro h
    by_cases hextensions : BadExtensions entries
    · exact Or.inl hextensions
    · exact Or.inr (inRanges_of_fallsBack hextensions h)
  · intro h
    by_cases hextensions : BadExtensions entries
    · rw [FallsBack, readJsonConfigOrDefault, readTexts, readExtensions_error _ hextensions]
      nofun
    · have hranges := h.resolve_left hextensions
      obtain ⟨config, hvalue, hchecks⟩ := readAndCopy_checks (V := V) casts home configPath hextensions
      rw [FallsBack, hchecks.ok hranges]
      refine ⟨fun s hs => ?_, rfl, rfl⟩
      rw [copied_setting config s hs, hvalue s hs, given_of_inRange (hranges.setting s hs)]

/-- A search range of minus one ends the program. -/
theorem negative_not_fallsBack : ¬ ∀ (casts : FloatCasts ℚ ℚ) (home : Option (List Char)) (configPath : List Char)
    (entries : List (String × JsonValue ℚ)), FallsBack casts home configPath entries := by
  intro h
  have hfalls := h ⟨id, fun n => n.toInt⟩ none [] [("search_range", .integer (-1))]
  have hranges := inRanges_of_fallsBack (by rintro ⟨items, hitems, _⟩; cases hitems) hfalls
  have hrange := hranges.setting ⟨"search_range", .int, (·.searchRange), (·.searchRange)⟩ (by simp [settings]) (-1) rfl
  exact absurd hrange.1 (by decide)

end Olaf.JsonConfig
