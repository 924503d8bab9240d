import Mathlib.Algebra.Order.Ring.Int
import Mathlib.Algebra.Order.Group.Unbundled.Abs
import Olaf.FpMatcher
/-!
# The result table after a sequence of hits (`olaf_fp_matcher_tally_results`)

| here | there |
| --- | --- |
| `Hit.pair` | what the key of the table stands for: the audio and the time difference, `>> 2` (`olaf_fp_matcher.c:150`) |
| `Hit.Ints` | the types of the arguments (`:148`) |
| `Aggregate` | what the comments of `struct match_result` (`:28`) say of its fields |

The key puts the low 32 bits of the time difference above the identifier (`resultKey_eq`). A difference of two `int`s
divided by four fits into these bits, so no two pairs share a key (`key_eq_iff`). `matchCount` and the difference are numbers
here: an `int` that counts further than 2^31 - 1 is undefined, and so is a difference that does not fit in one.
-/

namespace Olaf.FpMatcher

/-! ## The key -/

/-- The audio and the bin of the time difference; `/` rounds down. -/
def Hit.pair (h : Hit) : Nat × Int := (h.identifier, (h.queryT1 - h.referenceT1) / 4)

/-- Two `int`s and a `uint32_t`. -/
structure Hit.Ints (h : Hit) : Prop where
  queryT1 : -2 ^ 31 ≤ h.queryT1 ∧ h.queryT1 < 2 ^ 31
  referenceT1 : -2 ^ 31 ≤ h.referenceT1 ∧ h.referenceT1 < 2 ^ 31
  identifier : h.identifier < 2 ^ 32

theorem resultKey_eq (q r : Int) {id : Nat} (hid : id < 2 ^ 32) :
    resultKey q r id = ((q - r) / 4 % 2 ^ 32).toNat * 2 ^ 32 + id := by
  simp only [resultKey, u64, Int.shiftRight_eq_div_pow, Nat.shiftLeft_eq]
  omega

/-- The identifier fits below the time difference, and the time difference in what is left. -/
theorem resultKey_inj {q r q' r' : Int} {id id' : Nat} (hid : id < 2 ^ 32) (hid' : id' < 2 ^ 32)
    (hd : -2 ^ 33 ≤ q - r ∧ q - r < 2 ^ 33) (hd' : -2 ^ 33 ≤ q' - r' ∧ q' - r' < 2 ^ 33) :
    resultKey q r id = resultKey q' r' id' ↔ id = id' ∧ (q - r) / 4 = (q' - r') / 4 := by
  rw [resultKey_eq q r hid, resultKey_eq q' r' hid']
  omega

theorem key_eq_iff {h h' : Hit} (hid : h.identifier < 2 ^ 32) (hid' : h'.identifier < 2 ^ 32)
    (hd : -2 ^ 33 ≤ h.queryT1 - h.referenceT1 ∧ h.queryT1 - h.referenceT1 < 2 ^ 33)
    (hd' : -2 ^ 33 ≤ h'.queryT1 - h'.referenceT1 ∧ h'.queryT1 - h'.referenceT1 < 2 ^ 33) :
    h.key = h'.key ↔ h.pair = h'.pair := by
  rw [Hit.key, Hit.key, resultKey_inj hid hid' hd hd', Hit.pair, Hit.pair, Prod.mk.injEq]

theorem Hit.Ints.key_eq_iff {h h' : Hit} (hh : h.Ints) (hh' : h'.Ints) : h.key = h'.key ↔ h.pair = h'.pair := by
  have := hh.queryT1; have := hh.referenceT1; have := hh'.queryT1; have := hh'.referenceT1
  exact FpMatcher.key_eq_iff hh.identifier hh'.identifier (by omega) (by omega)

/-! ## The entry of a key -/

/-- The entry `m` is about the hits `hs`, in order. -/
structure Aggregate (hs : List Hit) (m : MatchResult) : Prop where
  count : m.matchCount = hs.length
  first : IsLeast {t | ∃ h ∈ hs, h.referenceT1 = t} m.firstReferenceFingerprintT1
  last : IsGreatest {t | ∃ h ∈ hs, h.referenceT1 = t} m.lastReferenceFingerprintT1
  recent : ∃ h, hs.getLast? = some h ∧ m.queryFingerprintT1 = h.queryT1 ∧ m.referenceFingerprintT1 = h.referenceT1
  identifier : ∃ h ∈ hs, m.matchIdentifier = h.identifier

/-- The entry of a key knows its most recent hit. -/
theorem tally_recent (hits : List Hit) (key : Nat) {m : MatchResult} (hm : tallyAll (fun _ => none) hits key = some m) :
    ∃ h, (hits.filter fun h => h.key = key).getLast? = some h ∧ m.queryFingerprintT1 = h.queryT1 ∧
      m.referenceFingerprintT1 = h.referenceT1 := by
  induction hits using List.reverseRecOn with
  | nil => cases hm
  | append_singleton hits h ih =>
    rw [tallyAll, List.foldl_concat] at hm
    by_cases hk : h.key = key
    · subst hk
      refine ⟨h, by simp [List.filter_append], ?_⟩
      have hself : tally (tallyAll (fun _ => none) hits) h.queryT1 h.referenceT1 h.identifier h.key = some _ :=
        Function.update_self ..
      have hm' := hself.symm.trans hm
      cases hold : tallyAll (fun _ => none) hits (resultKey h.queryT1 h.referenceT1 h.identifier) with
      | none =>
        rw [hold] at hm'
        cases hm'
        exact ⟨rfl, rfl⟩
      | some m' =>
        rw [hold] at hm'
        cases hm'
        exact ⟨rfl, rfl⟩
    · rw [tally_other hk] at hm
      rw [List.filter_append, List.filter_cons_of_neg (by simpa using hk), List.filter_nil, List.append_nil]
      exact ih hm

/-- **An entry is about the hits of its key.** -/
theorem tally_aggregate (hits : List Hit) (key : Nat) {m : MatchResult}
    (hm : tallyAll (fun _ => none) hits key = some m) : Aggregate (hits.filter fun h => h.key = key) m := by
  have hsum := tally_summary hits key
  have hne : (hits.filter fun h => h.key = key) ≠ [] := by
    intro hnil
    rw [hsum.absent hnil] at hm
    cases hm
  obtain ⟨r, hr, hcount, hid, hfirst, hlast⟩ := hsum.present hne
  obtain rfl : r = m := Option.some.inj (hr.symm.trans hm)
  simp only [List.mem_map] at hid hfirst hlast
  obtain ⟨h, hh, hid⟩ := hid
  exact ⟨hcount, hfirst, hlast, tally_recent hits key hm, h, hh, hid.symm⟩

/-- A key has an entry when one of the hits has it. -/
theorem tally_isSome (hits : List Hit) (key : Nat) :
    (∃ m, tallyAll (fun _ => none) hits key = some m) ↔ ∃ h ∈ hits, h.key = key := by
  have hsum := tally_summary hits key
  constructor
  · rintro ⟨m, hm⟩
    by_contra hno
    rw [hsum.absent (List.filter_eq_nil_iff.2 fun h hh hk => hno ⟨h, hh, of_decide_eq_true hk⟩)] at hm
    cases hm
  · rintro ⟨h, hh, hk⟩
    have hne : (hits.filter fun h => h.key = key) ≠ [] := List.ne_nil_of_mem (List.mem_filter.2 ⟨hh, decide_eq_true hk⟩)
    obtain ⟨m, hm, _⟩ := hsum.present hne
    exact ⟨m, hm⟩

/-! ## The whole table -/

/-- The table sums up the hits pair by pair. -/
structure Tallied (hits : List Hit) (results : Nat → Option MatchResult) : Prop where
  entry : ∀ h ∈ hits, ∃ m, results h.key = some m ∧ Aggregate (hits.filter fun h' => h'.pair = h.pair) m ∧
    m.matchIdentifier = h.identifier
  oneEach : ∀ h ∈ hits, ∀ h' ∈ hits, h.key = h'.key ↔ h.pair = h'.pair
  noOther : ∀ key m, results key = some m → ∃ h ∈ hits, h.key = key

theorem tallied_of_keys {hits : List Hit} (hone : ∀ h ∈ hits, ∀ h' ∈ hits, h.key = h'.key ↔ h.pair = h'.pair) :
    Tallied hits (tallyAll (fun _ => none) hits) := by
  refine ⟨fun h hh => ?_, hone, fun key m hm => (tally_isSome hits key).1 ⟨m, hm⟩⟩
  obtain ⟨m, hm⟩ := (tally_isSome hits h.key).2 ⟨h, hh, rfl⟩
  have hagg := tally_aggregate hits h.key hm
  have hsame : (hits.filter fun h' => h'.key = h.key) = hits.filter fun h' => h'.pair = h.pair :=
    List.filter_congr fun h' hh' => decide_eq_decide.2 (hone h' hh' h hh)
  rw [hsame] at hagg
  refine ⟨m, hm, hagg, ?_⟩
  obtain ⟨h', hh', hid⟩ := hagg.identifier
  have hpair : h'.pair = h.pair := of_decide_eq_true (List.mem_filter.1 hh').2
  rw [hid]
  exact congrArg Prod.fst hpair

/-- **The table is an exact aggregate**: an entry for each pair that occurred, none other, and each about the hits of
its pair. -/
theorem tally_exact (hits : List Hit)
    (hfit : ∀ h ∈ hits, |h.queryT1 - h.referenceT1| < 2 ^ 31 ∧ h.identifier < 2 ^ 32) :
    Tallied hits (tallyAll (fun _ => none) hits) := by
  apply tallied_of_keys
  intro h hh h' hh'
  have hd := abs_lt.1 (hfit h hh).1
  have hd' := abs_lt.1 (hfit h' hh').1
  exact key_eq_iff (hfit h hh).2 (hfit h' hh').2 (by omega) (by omega)

/-- Two hits with a difference of -4 and -3, the later one with the earlier reference, and one with a difference of 2. -/
def threeHits : List Hit := [⟨5, 9, 7⟩, ⟨4, 7, 7⟩, ⟨8, 6, 7⟩]

theorem tally_exact_threeHits : Tallied threeHits (tallyAll (fun _ => none) threeHits) := tally_exact threeHits (by decide)

end Olaf.FpMatcher
