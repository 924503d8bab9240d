import Mathlib.Order.Bounds.Defs
import Mathlib.Data.List.Induction
import Mathlib.Algebra.Order.Floor.Defs
import Olaf.Db
import Olaf.Fingerprint
import Olaf.Library.Rounding
/-!
# Matching a query with the database (`olaf_fp_matcher.c`)

| here | there |
| --- | --- |
| `MatchResult`   | `struct match_result` (`:28`) |
| `Matcher`       | `struct Olaf_FP_Matcher` (`:47`): the hash table as a map from its keys, the database and the result array behind `db_results` |
| `tallyResults`  | `olaf_fp_matcher_tally_results` (`:148`) |
| `matchSingleFingerprint` | `olaf_fp_matcher_match_single_fingerprint` (`:189`) |
| `removeOldMatches` | `olaf_fp_matcher_remove_old_matches` (`:121`) |
| `matchFingerprints` | `olaf_fp_matcher_match` (`:232`); printing the results changes `last_print_at` only |

The table counts the hits of a run under the key of their audio and time difference: `tally_summary` says what
an entry holds after any sequence of hits, `match_results` which hits a run makes.
-/

namespace Olaf.FpMatcher

variable {V : Type}

/-- `struct match_result`. -/
structure MatchResult where
  referenceFingerprintT1 : Int
  queryFingerprintT1 : Int
  firstReferenceFingerprintT1 : Int
  lastReferenceFingerprintT1 : Int
  matchCount : Nat
  matchIdentifier : Nat
  resultHashTableKey : Nat

/-- `struct Olaf_FP_Matcher`. -/
structure Matcher where
  results : Nat → Option MatchResult
  db : Db
  dbResults : Nat → Nat
  lastPrintAt : Int

/-- `olaf_fp_matcher_new`. -/
def new (db : Db) : Matcher := ⟨fun _ => none, db, fun _ => 0, 0⟩

/-- `queryFingerprintHash - range`. -/
def startKey (cfg : Config V) (hash : Nat) : Nat := u64 (hash - cfg.searchRange)

/-- `queryFingerprintHash + range`. -/
def stopKey (cfg : Config V) (hash : Nat) : Nat := u64 (hash + cfg.searchRange)

/-- The conversion of an `int` to `uint32_t`. -/
def u32 (x : Int) : Nat := (x % 2 ^ 32).toNat

/-- The conversion of a `uint32_t` to an `int`. -/
def i32 (x : Nat) : Int := if x < 2 ^ 31 then x else x - 2 ^ 32

/-- An exact result as a `float`. -/
def float (x : ℚ) : ℚ := Rounding.round .binary32 x

/-- The conversion of a `float` to an `int`. -/
def truncate (x : ℚ) : Int := if 0 ≤ x then x.floor else -(-x).floor

/-- Seconds as a number of blocks, `seconds * audioSampleRate / audioStepSize` in `float`. -/
def blocksOf (cfg : Config V) (seconds : ℚ) : Int :=
  truncate (float (float (seconds * float cfg.audioSampleRate) / float cfg.audioStepSize))

/-- The key of a time difference and an audio identifier. -/
def resultKey (queryFingerprintT1 referenceFingerprintT1 : Int) (matchIdentifier : Nat) : Nat :=
  let timeDiff := (queryFingerprintT1 - referenceFingerprintT1) >>> (2 : Nat)
  ((u64 timeDiff <<< 32) % 2 ^ 64 + matchIdentifier) % 2 ^ 64

/-- `olaf_fp_matcher_tally_results` on the hash table. -/
def tally (results : Nat → Option MatchResult) (queryFingerprintT1 referenceFingerprintT1 : Int) (matchIdentifier : Nat) :
    Nat → Option MatchResult :=
  let key := resultKey queryFingerprintT1 referenceFingerprintT1 matchIdentifier
  Function.update results key <| some <|
    match results key with
    | some m =>
      { m with
        referenceFingerprintT1 := referenceFingerprintT1
        queryFingerprintT1 := queryFingerprintT1
        matchCount := m.matchCount + 1
        firstReferenceFingerprintT1 := min referenceFingerprintT1 m.firstReferenceFingerprintT1
        lastReferenceFingerprintT1 := max referenceFingerprintT1 m.lastReferenceFingerprintT1 }
    | none => ⟨referenceFingerprintT1, queryFingerprintT1, referenceFingerprintT1, referenceFingerprintT1, 1,
        matchIdentifier, key⟩

def tallyResults (m : Matcher) (queryFingerprintT1 referenceFingerprintT1 : Int) (matchIdentifier : Nat) : Matcher :=
  { m with results := tally m.results queryFingerprintT1 referenceFingerprintT1 matchIdentifier }

/-- `queryFingerprintT1` is a `uint32_t` here and an `int` in the tally. -/
def matchSingleFingerprint (cfg : Config V) (m : Matcher) (queryFingerprintT1 queryFingerprintHash : Nat) : Matcher :=
  let r := (m.db.find (startKey cfg queryFingerprintHash) (stopKey cfg queryFingerprintHash) m.dbResults
    cfg.maxDBCollisions).get (Db.find_isSome _ _ _ _ _)
  let m := { m with db := { m.db with warningGiven := r.warningGiven }, dbResults := r.results }
  (List.range (min r.numberOfResults cfg.maxDBCollisions)).foldl (fun m i =>
    tallyResults m (i32 queryFingerprintT1) (i32 (r.results i / 2 ^ 32 % 2 ^ 32)) (r.results i % 2 ^ 32)) m

def removeOldMatches (cfg : Config V) (m : Matcher) (currentQueryTime : Int) : Matcher :=
  let maxAge := blocksOf cfg cfg.keepMatchesFor
  { m with results := fun key =>
      (m.results key).filter fun r => !decide (currentQueryTime - r.queryFingerprintT1 > maxAge) }

def matchFingerprints (cfg : Config V) (m : Matcher) (fingerprints : List (Fingerprint V)) : Matcher :=
  let m := fingerprints.foldl (fun m f => matchSingleFingerprint cfg m (u32 f.timeIndex1) f.hash) m
  match fingerprints.getLast? with
  | none => m
  | some f =>
    let currentQueryTime := f.timeIndex3
    let m :=
      if cfg.printResultEvery ≠ 0 then
        let printResultEvery := blocksOf cfg cfg.printResultEvery
        if currentQueryTime - m.lastPrintAt > printResultEvery then { m with lastPrintAt := currentQueryTime } else m
      else m
    if cfg.keepMatchesFor ≠ 0 then removeOldMatches cfg m currentQueryTime else m

/-- The hash of a fingerprint in the analysed range is far from both ends of a `uint64_t`, so the default
search range does not wrap. -/
theorem keys_default [Sample V] {f : Fingerprint V} (h1 : 9 ≤ f.frequencyBin1) (h2 : f.frequencyBin1 ≤ 510) :
    5 ≤ f.hash ∧ startKey (.default V) f.hash = f.hash - 5 ∧ stopKey (.default V) f.hash = f.hash + 5 := by
  have hlow : 5 ≤ f.hash := by
    rw [Fingerprint.hash_eq]; simp only [Fingerprint.features]; omega
  have hlt := f.hash_lt
  have hrange : (Config.default V).searchRange = 5 := rfl
  simp only [startKey, stopKey, hrange, u64]
  omega

/-! ## What an entry of the table holds -/

/-- A reference fingerprint found for a query fingerprint. -/
structure Hit where
  queryT1 : Int
  referenceT1 : Int
  identifier : Nat

def Hit.key (h : Hit) : Nat := resultKey h.queryT1 h.referenceT1 h.identifier

/-- The table after a sequence of hits. -/
def tallyAll (results : Nat → Option MatchResult) (hits : List Hit) : Nat → Option MatchResult :=
  hits.foldl (fun results h => tally results h.queryT1 h.referenceT1 h.identifier) results

theorem tally_other {results : Nat → Option MatchResult} {h : Hit} {key : Nat} (hk : h.key ≠ key) :
    tally results h.queryT1 h.referenceT1 h.identifier key = results key := Function.update_of_ne (Ne.symm hk) _ _

/-- The entry counts the hits `hs` and knows the first and the last of their reference times. -/
structure Summary (hs : List Hit) (entry : Option MatchResult) : Prop where
  absent : hs = [] → entry = none
  present : hs ≠ [] → ∃ r, entry = some r ∧ r.matchCount = hs.length ∧ r.matchIdentifier ∈ hs.map Hit.identifier ∧
    IsLeast {t | t ∈ hs.map Hit.referenceT1} r.firstReferenceFingerprintT1 ∧
    IsGreatest {t | t ∈ hs.map Hit.referenceT1} r.lastReferenceFingerprintT1

theorem Summary.tally {results : Nat → Option MatchResult} {h : Hit} {hs : List Hit} (hsum : Summary hs (results h.key)) :
    Summary (hs ++ [h]) (FpMatcher.tally results h.queryT1 h.referenceT1 h.identifier h.key) := by
  refine ⟨fun hnil => by simp at hnil, fun _ => ?_⟩
  have hentry : FpMatcher.tally results h.queryT1 h.referenceT1 h.identifier h.key = some _ := Function.update_self ..
  rw [hentry]
  refine ⟨_, rfl, ?_⟩
  by_cases hnil : hs = []
  · have hnone : results (resultKey h.queryT1 h.referenceT1 h.identifier) = none := hsum.absent hnil
    simp [hnone, hnil, IsLeast, IsGreatest, lowerBounds, upperBounds]
  · obtain ⟨r, hr, hcount, hid, hfirst, hlast⟩ := hsum.present hnil
    have hsome : results (resultKey h.queryT1 h.referenceT1 h.identifier) = some r := hr
    simp only [hsome, List.length_append, List.length_singleton, hcount, true_and, List.map_append, List.map_singleton]
    refine ⟨List.mem_append_left _ hid, ⟨?_, fun t ht => ?_⟩, ⟨?_, fun t ht => ?_⟩⟩
    · rcases min_choice h.referenceT1 r.firstReferenceFingerprintT1 with hm | hm <;> rw [hm]
      · exact List.mem_append_right _ List.mem_cons_self
      · exact List.mem_append_left _ hfirst.1
    · rcases List.mem_append.1 ht with ht | ht
      · exact le_trans (min_le_right _ _) (hfirst.2 ht)
      · rw [List.mem_singleton.1 ht]; exact min_le_left _ _
    · rcases max_choice h.referenceT1 r.lastReferenceFingerprintT1 with hm | hm <;> rw [hm]
      · exact List.mem_append_right _ List.mem_cons_self
      · exact List.mem_append_left _ hlast.1
    · rcases List.mem_append.1 ht with ht | ht
      · exact le_trans (hlast.2 ht) (le_max_right _ _)
      · rw [List.mem_singleton.1 ht]; exact le_max_left _ _

/-- **An entry sums up the hits of its key.** -/
theorem tally_summary (hits : List Hit) (key : Nat) :
    Summary (hits.filter fun h => h.key = key) (tallyAll (fun _ => none) hits key) := by
  induction hits using List.reverseRecOn with
  | nil => exact ⟨fun _ => rfl, fun h => absurd rfl h⟩
  | append_singleton hits h ih =>
    rw [List.filter_append, tallyAll, List.foldl_concat]
    by_cases hk : h.key = key
    · subst hk
      rw [List.filter_cons_of_pos (by simp), List.filter_nil]
      exact ih.tally
    · rw [List.filter_cons_of_neg (by simpa using hk), List.filter_nil, List.append_nil, tally_other hk]
      exact ih

/-! ## The hits of a run -/

/-- A value of a lookup as a hit. -/
def hit (queryFingerprintT1 : Nat) (value : Nat) : Hit :=
  ⟨i32 queryFingerprintT1, i32 (value / 2 ^ 32 % 2 ^ 32), value % 2 ^ 32⟩

/-- The hits of a query fingerprint in a table. -/
def hitsOf (cfg : Config V) (t : DupTable Nat Nat) (f : Fingerprint V) : List Hit :=
  ((Db.valuesIn t (startKey cfg f.hash) (stopKey cfg f.hash)).take cfg.maxDBCollisions).map (hit (u32 f.timeIndex1))

theorem tallyResults_all (q : Nat) : ∀ (values : List Nat) (m : Matcher),
    values.foldl (fun m v => tallyResults m (i32 q) (i32 (v / 2 ^ 32 % 2 ^ 32)) (v % 2 ^ 32)) m =
      { m with results := tallyAll m.results (values.map (hit q)) }
  | [], _ => rfl
  | _ :: values, _ => tallyResults_all q values _

theorem matchSingle_spec (cfg : Config V) (m : Matcher) (f : Fingerprint V) :
    (matchSingleFingerprint cfg m (u32 f.timeIndex1) f.hash).results = tallyAll m.results (hitsOf cfg m.db.fps f) ∧
      (matchSingleFingerprint cfg m (u32 f.timeIndex1) f.hash).db.fps = m.db.fps := by
  obtain ⟨r, hr⟩ := Option.isSome_iff_exists.1
    (Db.find_isSome m.db (startKey cfg f.hash) (stopKey cfg f.hash) m.dbResults cfg.maxDBCollisions)
  have hvalues := Db.find_values hr
  unfold matchSingleFingerprint
  simp only [hr, Option.get_some]
  rw [← List.foldl_map (f := r.results)
    (g := fun m v => tallyResults m (i32 (u32 f.timeIndex1)) (i32 (v / 2 ^ 32 % 2 ^ 32)) (v % 2 ^ 32)), hvalues,
    tallyResults_all]
  exact ⟨rfl, rfl⟩

theorem tallyAll_append (results : Nat → Option MatchResult) (hs hs' : List Hit) :
    tallyAll results (hs ++ hs') = tallyAll (tallyAll results hs) hs' := List.foldl_append

theorem matchAll_spec (cfg : Config V) : ∀ (fps : List (Fingerprint V)) (m : Matcher),
    (fps.foldl (fun m f => matchSingleFingerprint cfg m (u32 f.timeIndex1) f.hash) m).results =
        tallyAll m.results (fps.flatMap (hitsOf cfg m.db.fps)) ∧
      (fps.foldl (fun m f => matchSingleFingerprint cfg m (u32 f.timeIndex1) f.hash) m).db.fps = m.db.fps
  | [], _ => ⟨rfl, rfl⟩
  | f :: fps, m => by
    obtain ⟨hres, hdb⟩ := matchSingle_spec cfg m f
    obtain ⟨ih1, ih2⟩ := matchAll_spec cfg fps (matchSingleFingerprint cfg m (u32 f.timeIndex1) f.hash)
    rw [List.foldl_cons, List.flatMap_cons, tallyAll_append, ih1, ih2, hres, hdb]
    exact ⟨rfl, rfl⟩

/-- While matches are kept, a batch adds its hits. -/
theorem match_spec {cfg : Config V} (hkeep : cfg.keepMatchesFor = 0) (m : Matcher) (fps : List (Fingerprint V)) :
    (matchFingerprints cfg m fps).results = tallyAll m.results (fps.flatMap (hitsOf cfg m.db.fps)) ∧
      (matchFingerprints cfg m fps).db.fps = m.db.fps := by
  have hall := matchAll_spec cfg fps m
  unfold matchFingerprints
  cases fps.getLast? with
  | none => exact hall
  | some f =>
    simp only [hkeep, ne_eq, not_true_eq_false, ↓reduceIte]
    split
    · split <;> exact hall
    · exact hall

/-- **A run tallies the hits of all its fingerprints**, however they are cut into batches. -/
theorem match_results {cfg : Config V} (hkeep : cfg.keepMatchesFor = 0) : ∀ (batches : List (List (Fingerprint V))) (m : Matcher),
    (batches.foldl (matchFingerprints cfg) m).results = tallyAll m.results (batches.flatten.flatMap (hitsOf cfg m.db.fps))
  | [], _ => rfl
  | fps :: batches, m => by
    obtain ⟨hres, hdb⟩ := match_spec hkeep m fps
    rw [List.foldl_cons, match_results hkeep batches, hres, hdb, List.flatten_cons, List.flatMap_append, tallyAll_append]

end Olaf.FpMatcher
