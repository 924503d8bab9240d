import Olaf.Library.Searching
import Olaf.Library.Sorting
import Mathlib.Algebra.Order.Ring.Int
import Mathlib.Data.List.Induction
/-!
# Lookup in the in-memory reference (`olaf_db_mem.c`)

| here | there |
| --- | --- |
| `Reference`          | the `const` array and length of the generated header, which `olaf_db_new` (`:40`) points to |
| `pack`, `unpack`     | `olaf_db_mem_pack` and `olaf_db_mem_unpack` (`:63-74`), `uint64_t` arithmetic |
| `packedHashCompare`  | `olaf_dp_packed_hash_compare` (`:77`): a `uint64_t` difference returned as `int` |
| `firstMatch`         | the loop of `olaf_db_find` over the keys (`:90`), a `bsearch` each |
| `onAndBefore`, `after` | its two scans from the match (`:112`, `:131`) |

`size_t i` is never negative, so the test `i >= 0` of the first scan always holds: the scan ends at an entry
outside the range or not at all. Once slot 0 is in the range it goes on to slot `2^64 - 1`; a read outside the
array is `none`. `find_exact_iff` says when that does not happen, and that the lookup is exact then.
-/

namespace Olaf.DbMem
open Searching

/-- `olaf_db_mem_unpack`: the hash and the time. -/
def unpack (packed : Nat) : Nat × Nat := (packed >>> 16, packed % 2 ^ 16)

/-- `olaf_db_mem_pack`. -/
def pack (hash t : Nat) : Nat := ((hash <<< 16) % 2 ^ 64 + t) % 2 ^ 64

/-- `olaf_dp_packed_hash_compare`: the time is ignored. -/
def packedHashCompare (a b : Nat) : Int := ((((a >>> 16 : Nat) : Int) - (b >>> 16 : Nat)) % 2 ^ 64).bmod (2 ^ 32)

/-- The reference of the generated header. -/
structure Reference where
  refFp : List Nat
  ascending : refFp.Pairwise (· ≤ ·)
  hash_lt : ∀ packed ∈ refFp, (unpack packed).1 < 2 ^ 28
  /-- Its length is a `size_t`. -/
  length_lt : refFp.length < 2 ^ 64

/-- `ref_hash >= start_key && ref_hash <= stop_key`. -/
def InRange (startKey stopKey packed : Nat) : Prop := startKey ≤ (unpack packed).1 ∧ (unpack packed).1 ≤ stopKey

instance (startKey stopKey packed : Nat) : Decidable (InRange startKey stopKey packed) :=
  inferInstanceAs (Decidable (_ ∧ _))

/-- `result_match_id`. -/
def resultMatchId : Nat := 666

/-- What is written for a matching entry. -/
def result (packed : Nat) : Nat := (unpack packed).2 <<< 32 + resultMatchId

/-- The body of both scans: the results so far and one more, while there is room. -/
def put (resultsSize : Nat) (results : List Nat) (packed : Nat) : List Nat :=
  if results.length < resultsSize then results ++ [result packed] else results

/-- The loop over `rem` keys from `currentKey` on, up to the first that is found. -/
def firstMatch (B : BSearch Nat) (refFp : List Nat) : (rem currentKey : Nat) → Option Nat
  | 0, _ => none
  | rem + 1, currentKey =>
    match B.search (packedHashCompare (pack currentKey 0)) refFp with
    | some index => some index
    | none => firstMatch B refFp rem (currentKey + 1)

/-- `for (i = index; i >= 0; i--)`. -/
def onAndBefore (refFp : List Nat) (startKey stopKey resultsSize : Nat) : (i : Nat) → List Nat → Option (List Nat)
  | i, results =>
    match refFp[i]? with
    | none => none
    | some packed =>
      if InRange startKey stopKey packed then
        match i with
        | 0 => none -- `i--` wraps to `SIZE_MAX`, which no array has
        | i + 1 => onAndBefore refFp startKey stopKey resultsSize i (put resultsSize results packed)
      else some results

/-- `for (i = index + 1; i < ref_fp_length; i++)`, over the entries from there on. -/
def after (startKey stopKey resultsSize : Nat) : (entries : List Nat) → List Nat → List Nat
  | [], results => results
  | packed :: entries, results =>
    if InRange startKey stopKey packed then after startKey stopKey resultsSize entries (put resultsSize results packed)
    else results

/-- `olaf_db_find`. The keys are below `2^64 - 1`, so that `current_key++` passes `stop_key`. -/
def find (B : BSearch Nat) (ref : Reference) (startKey stopKey resultsSize : Nat) : Option (List Nat) :=
  match firstMatch B ref.refFp (stopKey + 1 - startKey) startKey with
  | none => some []
  | some index =>
    (onAndBefore ref.refFp startKey stopKey resultsSize index []).map
      (after startKey stopKey resultsSize (ref.refFp.drop (index + 1)))

/-! ## What is asked of a lookup -/

/-- The results for the entries in the range. -/
def expected (ref : Reference) (startKey stopKey : Nat) : List Nat :=
  (ref.refFp.filter fun packed => InRange startKey stopKey packed).map result

/-- The lookup ends without a read outside the array and returns as many of the expected results as there is
room for, each as often as it is expected; all of them if they fit. -/
def Exact (ref : Reference) (startKey stopKey resultsSize : Nat) (r : Option (List Nat)) : Prop :=
  ∃ results, r = some results ∧ results.length = min (expected ref startKey stopKey).length resultsSize ∧
    results.Subperm (expected ref startKey stopKey) ∧
    ((expected ref startKey stopKey).length ≤ resultsSize → results.Perm (expected ref startKey stopKey))

/-! ## The binary searches -/

theorem pack_hash {hash : Nat} (h : hash < 2 ^ 28) : pack hash 0 >>> 16 = hash := by
  simp only [pack, Nat.shiftLeft_eq, Nat.shiftRight_eq_div_pow]
  omega

/-- Below `2^28` the difference of two hashes fits an `int`. -/
theorem packedHashCompare_eq {a b : Nat} (ha : a >>> 16 < 2 ^ 28) (hb : b >>> 16 < 2 ^ 28) :
    packedHashCompare a b = ((a >>> 16 : Nat) : Int) - (b >>> 16 : Nat) := by
  rw [packedHashCompare, Int.bmod_def]
  split <;> omega

theorem unpack_mono {a b : Nat} (h : a ≤ b) : (unpack a).1 ≤ (unpack b).1 := by
  simp only [unpack, Nat.shiftRight_eq_div_pow]
  exact Nat.div_le_div_right h

section Find
variable {B : BSearch Nat} {ref : Reference} {startKey stopKey resultsSize : Nat}

theorem Reference.partitioned (ref : Reference) {key : Nat} (hk : key < 2 ^ 28) :
    Partitioned (packedHashCompare (pack key 0)) ref.refFp := by
  refine ref.ascending.imp_of_mem fun {a b} ha hb hab => ?_
  have hm := unpack_mono hab
  have hka := pack_hash hk
  have h1 := ref.hash_lt a ha
  have h2 := ref.hash_lt b hb
  simp only [unpack] at hm h1 h2
  rw [packedHashCompare_eq (by omega) h1, packedHashCompare_eq (by omega) h2, hka]
  omega

/-- The entry that is found has one of the keys. -/
theorem firstMatch_some : ∀ {rem key index : Nat}, key + rem ≤ 2 ^ 28 →
    firstMatch B ref.refFp rem key = some index →
    ∃ packed, ref.refFp[index]? = some packed ∧ key ≤ (unpack packed).1 ∧ (unpack packed).1 < key + rem
  | 0, _, _, _, h => by simp [firstMatch] at h
  | rem + 1, key, index, hk, h => by
    simp only [firstMatch] at h
    split at h
    · rename_i m hm
      cases h
      obtain ⟨a, ha, hc⟩ := B.hit (ref.partitioned (by omega)) hm
      have hlt := ref.hash_lt a (List.mem_of_getElem? ha)
      simp only [unpack] at hlt ⊢
      rw [packedHashCompare_eq (by rw [pack_hash (by omega)]; omega) hlt, pack_hash (by omega)] at hc
      exact ⟨a, ha, by omega, by omega⟩
    · obtain ⟨a, ha, h1, h2⟩ := firstMatch_some (by omega) h
      exact ⟨a, ha, by omega, by omega⟩

/-- No entry has a key for which nothing was found. -/
theorem firstMatch_none : ∀ {rem key : Nat}, key + rem ≤ 2 ^ 28 → firstMatch B ref.refFp rem key = none →
    ∀ packed ∈ ref.refFp, key ≤ (unpack packed).1 → key + rem ≤ (unpack packed).1
  | 0, _, _, _, _, _, h => h
  | rem + 1, key, hk, h, packed, hp, hle => by
    simp only [firstMatch] at h
    split at h
    · cases h
    · rename_i hm
      have hne := B.miss (ref.partitioned (by omega)) hm packed hp
      have hlt := ref.hash_lt packed hp
      have := firstMatch_none (by omega) h packed hp
      simp only [unpack] at hlt hle this ⊢
      rw [packedHashCompare_eq (by rw [pack_hash (by omega)]; omega) hlt, pack_hash (by omega)] at hne
      omega

/-! ## The two scans -/

/-- The first scan over a stretch of the range that begins after slot 0. -/
theorem onAndBefore_stop (resultsSize : Nat) (below inside rest : List Nat) {last : Nat}
    (hb : ¬ InRange startKey stopKey last) (hi : ∀ a ∈ inside, InRange startKey stopKey a) (results : List Nat) :
    onAndBefore (below ++ last :: inside ++ rest) startKey stopKey resultsSize (below.length + inside.length) results =
      some (inside.reverse.foldl (put resultsSize) results) := by
  induction inside using List.reverseRecOn generalizing results rest with
  | nil =>
    unfold onAndBefore
    simp [hb]
  | append_singleton inside a ih =>
    have ha : InRange startKey stopKey a := hi a (by simp)
    have hget : (below ++ last :: (inside ++ [a]) ++ rest)[below.length + (inside.length + 1)]? = some a := by
      simp
    unfold onAndBefore
    rw [List.length_append, List.length_singleton, hget]
    simp only [ha, if_true]
    have := ih (a :: rest) (fun b hb => hi b (by simp [hb])) (put resultsSize results a)
    simpa using this

/-- The first scan over a stretch of the range that begins in slot 0. -/
theorem onAndBefore_wrap {refFp : List Nat} : ∀ {i : Nat} (results : List Nat),
    (∀ j a, j ≤ i → refFp[j]? = some a → InRange startKey stopKey a) →
    onAndBefore refFp startKey stopKey resultsSize i results = none
  | i, results, h => by
    unfold onAndBefore
    split
    · rfl
    · rename_i packed hp
      rw [if_pos (h i packed (Nat.le_refl i) hp)]
      cases i with
      | zero => rfl
      | succ i => exact onAndBefore_wrap _ fun j a hj => h j a (by omega)

/-- The second scan. -/
theorem after_eq {above : List Nat} (ha : ∀ a ∈ above.head?, ¬ InRange startKey stopKey a) :
    ∀ {inside : List Nat} (results : List Nat), (∀ a ∈ inside, InRange startKey stopKey a) →
    after startKey stopKey resultsSize (inside ++ above) results = inside.foldl (put resultsSize) results
  | [], results, _ => by
    cases above with
    | nil => rfl
    | cons a above => simp [after, ha a rfl]
  | a :: inside, results, h => by
    simp only [List.cons_append, after, List.foldl_cons]
    rw [if_pos (h a (by simp)), after_eq ha _ fun b hb => h b (by simp [hb])]

/-- The results come in order until there is no room. -/
theorem foldl_put : ∀ {entries results : List Nat}, results.length ≤ resultsSize →
    entries.foldl (put resultsSize) results = (results ++ entries.map result).take resultsSize
  | [], results, h => by simp [List.take_of_length_le h]
  | a :: entries, results, h => by
    rw [List.foldl_cons, put]
    split
    · rename_i hlt
      rw [foldl_put (by simp; omega)]
      simp
    · rename_i hge
      have : results.length = resultsSize := by omega
      rw [foldl_put h, List.take_append_of_le_length (by omega), List.take_append_of_le_length (by omega)]

/-! ## The lookup -/

/-- Where the range is in the array. -/
theorem Reference.split (ref : Reference) (startKey stopKey : Nat) : ∃ below inside above,
    ref.refFp = below ++ inside ++ above ∧ (∀ a ∈ below, (unpack a).1 < startKey) ∧
    (∀ a ∈ inside, InRange startKey stopKey a) ∧ (∀ a ∈ above, stopKey < (unpack a).1) := by
  have hasc := ref.ascending.imp fun {a b} hab => Int.ofNat_le.2 (unpack_mono hab)
  obtain ⟨below, high, heq, h1, h2⟩ := Sorting.split_at startKey hasc
  rw [heq] at hasc
  obtain ⟨inside, above, rfl, h3, h4⟩ := Sorting.split_at ((stopKey + 1 : Nat) : Int) (List.pairwise_append.1 hasc).2.1
  refine ⟨below, inside, above, by rw [heq, List.append_assoc], fun a ha => by exact_mod_cast h1 a ha, fun a ha => ?_,
    fun a ha => ?_⟩
  · have := h2 a (by simp [ha]); have := h3 a ha
    exact ⟨by omega, by omega⟩
  · have := h4 a ha
    omega

/-- The results of a lookup that does not reach slot 0. -/
theorem find_some (resultsSize : Nat) {below front back above : List Nat} {last a : Nat}
    (heq : ref.refFp = below ++ last :: (front ++ a :: back) ++ above) (hl : ¬ InRange startKey stopKey last)
    (hi : ∀ b ∈ front ++ a :: back, InRange startKey stopKey b) (ha : ∀ b ∈ above, ¬ InRange startKey stopKey b) :
    (onAndBefore ref.refFp startKey stopKey resultsSize (below.length + (front.length + 1)) []).map
        (after startKey stopKey resultsSize (ref.refFp.drop (below.length + (front.length + 1) + 1))) =
      some ((((front ++ [a]).reverse ++ back).map result).take resultsSize) := by
  have h1 : ref.refFp = below ++ last :: (front ++ [a]) ++ (back ++ above) := by simp [heq]
  have h2 : ref.refFp.drop (below.length + (front.length + 1) + 1) = back ++ above := by
    rw [h1, List.drop_append_of_le_length (by simp only [List.length_append, List.length_cons, List.length_nil]; omega),
      List.drop_eq_nil_of_le (by simp only [List.length_append, List.length_cons, List.length_nil]; omega),
      List.nil_append]
  have h3 := onAndBefore_stop resultsSize below (front ++ [a]) (back ++ above) hl
    (fun b hb => hi b (by simp at hb ⊢; tauto)) []
  rw [h2, h1]
  simp only [List.length_append, List.length_singleton] at h3
  rw [h3, Option.map_some, after_eq (fun b hb => ha b (List.mem_of_head? hb)) _ fun b hb => hi b (by simp [hb]),
    ← List.foldl_append, foldl_put (Nat.zero_le _), List.nil_append]

theorem InRange.not_of_lt {a : Nat} (h : (unpack a).1 < startKey) : ¬ InRange startKey stopKey a := fun hr =>
  absurd hr.1 (by omega)

theorem InRange.not_of_gt {a : Nat} (h : stopKey < (unpack a).1) : ¬ InRange startKey stopKey a := fun hr =>
  absurd hr.2 (by omega)

theorem expected_of_split {below inside above : List Nat} (heq : ref.refFp = below ++ inside ++ above)
    (hb : ∀ a ∈ below, (unpack a).1 < startKey) (hi : ∀ a ∈ inside, InRange startKey stopKey a)
    (ha : ∀ a ∈ above, stopKey < (unpack a).1) : expected ref startKey stopKey = inside.map result := by
  have h1 : below.filter (fun a => decide (InRange startKey stopKey a)) = [] :=
    List.filter_eq_nil_iff.2 fun a h => by simpa using InRange.not_of_lt (hb a h)
  have h2 : above.filter (fun a => decide (InRange startKey stopKey a)) = [] :=
    List.filter_eq_nil_iff.2 fun a h => by simpa using InRange.not_of_gt (ha a h)
  have h3 : inside.filter (fun a => decide (InRange startKey stopKey a)) = inside :=
    List.filter_eq_self.2 fun a h => by simpa using hi a h
  rw [expected, heq, List.filter_append, List.filter_append, h1, h2, h3]
  simp

/-- An entry that is in neither outer part splits the middle one. -/
theorem split_index {below inside above : List Nat} {index a : Nat}
    (hget : (below ++ inside ++ above)[index]? = some a) (hb : a ∉ below) (ha : a ∉ above) :
    ∃ front back, inside = front ++ a :: back ∧ index = below.length + front.length := by
  rw [List.append_assoc] at hget
  have h1 : below.length ≤ index := by
    by_contra hlt
    rw [List.getElem?_append_left (by omega)] at hget
    exact hb (List.mem_of_getElem? hget)
  rw [List.getElem?_append_right h1] at hget
  have h2 : index - below.length < inside.length := by
    by_contra hge
    rw [List.getElem?_append_right (by omega)] at hget
    exact ha (List.mem_of_getElem? hget)
  rw [List.getElem?_append_left h2, List.getElem?_eq_getElem h2] at hget
  refine ⟨inside.take (index - below.length), inside.drop (index - below.length + 1), ?_, ?_⟩
  · rw [← Option.some.inj hget, ← List.drop_eq_getElem_cons h2, List.take_append_drop]
  · rw [List.length_take]; omega

/-- A prefix of a rearrangement is what is asked for. -/
theorem exact_take (resultsSize : Nat) {l : List Nat} (h : (l.map result).Perm (expected ref startKey stopKey)) :
    Exact ref startKey stopKey resultsSize (some ((l.map result).take resultsSize)) := by
  refine ⟨_, rfl, by rw [List.length_take, h.length_eq, Nat.min_comm], ?_, fun hle => ?_⟩
  · exact (List.take_sublist _ _).subperm.trans h.subperm
  · rw [← h.length_eq] at hle
    rw [List.take_of_length_le hle]
    exact h

end Find

/-- **A lookup is exact and stays inside the array iff the array does not begin in the range.** -/
theorem find_exact_iff (B : BSearch Nat) (ref : Reference) {startKey stopKey : Nat} (resultsSize : Nat)
    (hle : startKey ≤ stopKey) (hlt : stopKey < 2 ^ 28) :
    Exact ref startKey stopKey resultsSize (find B ref startKey stopKey resultsSize) ↔
      ∀ first ∈ ref.refFp.head?, ¬ InRange startKey stopKey first := by
  obtain ⟨below, inside, above, heq, hb, hi, ha⟩ := ref.split startKey stopKey
  have hexp := expected_of_split heq hb hi ha
  unfold find
  split
  · -- no key is found, so no entry is in the range
    rename_i hm
    have hno : ∀ a ∈ ref.refFp, ¬ InRange startKey stopKey a := fun a hmem hr => by
      have := firstMatch_none (by omega) hm a hmem hr.1
      have := hr.2
      omega
    have hnil : inside = [] := List.eq_nil_iff_forall_not_mem.2 fun a h => hno a (by simp [heq, h]) (hi a h)
    refine iff_of_true ?_ fun first h => hno first (List.mem_of_head? h)
    have hnone : (([] : List Nat).map result).Perm (expected ref startKey stopKey) := by simp [hexp, hnil]
    simpa using exact_take resultsSize hnone
  · rename_i index hm
    obtain ⟨a, hget, h1, h2⟩ := firstMatch_some (by omega) hm
    have hr : InRange startKey stopKey a := ⟨h1, by omega⟩
    rw [heq] at hget
    obtain ⟨front, back, rfl, rfl⟩ := split_index hget (fun h => InRange.not_of_lt (hb a h) hr)
      fun h => InRange.not_of_gt (ha a h) hr
    cases below using List.reverseRecOn with
    | nil =>
      -- the range begins in slot 0, and so does the first scan
      rw [onAndBefore_wrap [] fun j b hj hb => ?_]
      · refine iff_of_false (fun ⟨_, h, _⟩ => by cases h) fun h => ?_
        cases front with
        | nil => exact h a (by simp [heq]) hr
        | cons b front => exact h b (by simp [heq]) (hi b (by simp))
      · rw [heq, List.nil_append, List.getElem?_append_left (by simp at hj ⊢; omega)] at hb
        exact hi b (List.mem_of_getElem? hb)
    | append_singleton below last =>
      have hl := hb last (by simp)
      have hfind := find_some resultsSize (by simpa using heq) (InRange.not_of_lt hl) hi
        fun b hb => InRange.not_of_gt (ha b hb)
      have hindex : (below ++ [last]).length + front.length = below.length + (front.length + 1) := by
        simp; omega
      rw [hindex, hfind]
      refine iff_of_true (exact_take resultsSize ?_) fun first h => ?_
      · rw [hexp]
        refine List.Perm.map _ ?_
        simpa using (front.reverse_perm.cons a).append_right back |>.trans List.perm_middle.symm
      · -- the first entry is one below the range
        have hmem : first ∈ below ++ [last] := by
          rw [heq, List.append_assoc, List.head?_append_of_ne_nil _ (by simp)] at h
          exact List.mem_of_head? h
        exact InRange.not_of_lt (hb first hmem)

/-- Four entries, the last three of them with hashes 5 and 6. -/
def fourEntries : Reference where
  refFp := [4 <<< 16 + 1, 5 <<< 16 + 3, 5 <<< 16 + 9, 6 <<< 16 + 2]
  ascending := by decide
  hash_lt := by decide
  length_lt := by decide

theorem find_exact_iff_fourEntries :
    5 ≤ 6 ∧ 6 < 2 ^ 28 ∧ Exact fourEntries 5 6 2 (find (.halving Nat) fourEntries 5 6 2) :=
  ⟨by decide, by decide, (find_exact_iff (.halving Nat) fourEntries 2 (by decide) (by decide)).2 (by simp; decide)⟩

/-- A single entry with hash 5. -/
def oneEntry : Reference where
  refFp := [5 <<< 16 + 3]
  ascending := by decide
  hash_lt := by decide
  length_lt := by decide

/-- Looking up the hash of the only entry leaves the array. -/
theorem find_oneEntry : ¬ Exact oneEntry 5 5 1 (find (.halving Nat) oneEntry 5 5 1) := by
  have h : find (.halving Nat) oneEntry 5 5 1 = none := by decide
  rintro ⟨results, hr, _⟩
  rw [h] at hr
  cases hr

end Olaf.DbMem
