import Olaf.FpDbWriterMem
/-!
# The two comparators of the in-memory store

| here | there |
| --- | --- |
| `packedHashCompare` | `olaf_dp_packed_hash_compare` (`olaf_db_mem.c:77`), by which `bsearch` looks for a hash |
| `fpHashCompare`     | `fp_hash_compare` (`olaf_fp_db_writer_mem.c:22`), by which `qsort` orders the entries |

An entry has its hash in 48 bits. `fpHashCompare` compares the entries; `packedHashCompare` subtracts their hashes, and what is
returned of the difference is its low 32 bits with the highest of them as the sign. Where those do not have the sign of the
difference, the array that one comparator has sorted is not sorted for the other (`respects_iff`).
-/

namespace Olaf.PackedCompare
open DbMem Searching Sorting

def fpHashCompare (c d : Nat) : Int := if c > d then 1 else if c < d then -1 else 0

/-- The comparator has the sign of the difference, so that sorting by it is sorting the numbers. -/
theorem fpHashCompare_eq (c d : Nat) : fpHashCompare c d = (Int.ofNat c - Int.ofNat d).sign := by
  unfold fpHashCompare
  rw [Int.ofNat_eq_natCast, Int.ofNat_eq_natCast]
  split
  · rw [Int.sign_eq_one_of_pos (by omega)]
  · split
    · rw [Int.sign_eq_neg_one_of_neg (by omega)]
    · rw [show (c : Int) - d = 0 by omega, Int.sign_zero]

/-- The comparator says how the hashes of two entries are ordered. -/
structure Agrees (a b : Nat) : Prop where
  less : packedHashCompare a b < 0 ↔ (unpack a).1 < (unpack b).1
  equal : packedHashCompare a b = 0 ↔ (unpack a).1 = (unpack b).1
  greater : 0 < packedHashCompare a b ↔ (unpack b).1 < (unpack a).1

/-- The difference has its sign in its low 32 bits. -/
def Narrow (h h' : Nat) : Prop :=
  h = h' ∨ (h' < h ∧ 0 < (h - h') % 2 ^ 32 ∧ (h - h') % 2 ^ 32 < 2 ^ 31) ∨
    (h < h' ∧ 0 < (h' - h) % 2 ^ 32 ∧ (h' - h) % 2 ^ 32 ≤ 2 ^ 31)

instance (h h' : Nat) : Decidable (Narrow h h') := inferInstanceAs (Decidable (_ ∨ _ ∨ _))

/-- What is asked of the comparator for an entry to look for and the entries of an array: it says how they are ordered, and any
binary search over the array as the writer sorts it finds an entry with the hash when there is one. -/
structure Respects (q : QSort Nat Int.ofNat) (key : Nat) (entries : List Nat) : Prop where
  agrees : ∀ b ∈ entries, Agrees key b
  hit : ∀ (B : BSearch Nat) index, B.search (packedHashCompare key) (q.sort entries) = some index →
    ∃ b, (q.sort entries)[index]? = some b ∧ (unpack b).1 = (unpack key).1
  miss : ∀ B : BSearch Nat, B.search (packedHashCompare key) (q.sort entries) = none →
    ∀ b ∈ entries, (unpack b).1 ≠ (unpack key).1

/-! ## Two entries -/

theorem packedHashCompare_bmod (a b : Nat) :
    packedHashCompare a b = (((unpack a).1 : Int) - (unpack b).1).bmod (2 ^ 32) := by
  simp only [packedHashCompare, unpack, Int.bmod_def]
  omega

theorem agrees_iff (a b : Nat) : Agrees a b ↔ Narrow (unpack a).1 (unpack b).1 := by
  have hcompare := packedHashCompare_bmod a b
  rw [Int.bmod_def] at hcompare
  constructor
  · rintro ⟨hless, hequal, hgreater⟩
    rw [hcompare] at hless hequal hgreater
    unfold Narrow
    omega
  · intro h
    unfold Narrow at h
    constructor <;> rw [hcompare] <;> omega

/-- Hashes of 31 bits are far from it. -/
theorem narrow_of_lt {h h' : Nat} (hh : h < 2 ^ 31) (hh' : h' < 2 ^ 31) : Narrow h h' := by
  unfold Narrow
  omega

/-! ## The search -/

section Search
variable {q : QSort Nat Int.ofNat} {key : Nat} {entries : List Nat}

/-- The sorted array is sorted for the search as well. -/
theorem partitioned_of_agrees (h : ∀ b ∈ entries, Agrees key b) : Partitioned (packedHashCompare key) (q.sort entries) := by
  refine (q.ascending entries).imp_of_mem fun {a b} ha hb hab => ?_
  have hmono := unpack_mono (Int.ofNat_le.1 hab)
  have ha' := h a ((q.perm entries).mem_iff.1 ha)
  have hb' := h b ((q.perm entries).mem_iff.1 hb)
  constructor
  · intro hless
    have hlt := ha'.less.1 hless
    exact hb'.less.2 (by omega)
  · intro hle
    have hle' : (unpack key).1 ≤ (unpack a).1 := by
      by_contra hgt
      have hpos := ha'.greater.2 (by omega)
      omega
    by_contra hgt
    have hlt := hb'.greater.1 (by omega)
    omega

/-- **The comparator respects the order of the hashes, and the search is right, iff the differences of the hashes have their
sign in 32 bits.** -/
theorem respects_iff (q : QSort Nat Int.ofNat) (key : Nat) (entries : List Nat) :
    Respects q key entries ↔ ∀ b ∈ entries, Narrow (unpack key).1 (unpack b).1 := by
  constructor
  · intro h b hb
    exact (agrees_iff key b).1 (h.agrees b hb)
  · intro h
    have hagrees : ∀ b ∈ entries, Agrees key b := fun b hb => (agrees_iff key b).2 (h b hb)
    have hpartitioned := partitioned_of_agrees (q := q) hagrees
    refine ⟨hagrees, fun B index hfound => ?_, fun B hnone b hb heq => ?_⟩
    · obtain ⟨b, hb, hzero⟩ := B.hit hpartitioned hfound
      have hmem := (q.perm entries).mem_iff.1 (List.mem_of_getElem? hb)
      exact ⟨b, hb, ((hagrees b hmem).equal.1 hzero).symm⟩
    · exact B.miss hpartitioned hnone b ((q.perm entries).mem_iff.2 hb) ((hagrees b hb).equal.2 heq.symm)

end Search

/-- Two hashes that are `2 ^ 32` apart are taken for equal. -/
theorem farHashes_not_respected : ¬ ∀ (q : QSort Nat Int.ofNat) (key : Nat) (entries : List Nat), Respects q key entries := by
  intro h
  have hagrees := (h (.insertion _ _) (pack (2 ^ 32) 0) [pack 0 0]).agrees (pack 0 0) (List.mem_singleton_self _)
  exact absurd ((agrees_iff _ _).1 hagrees) (by decide)

end Olaf.PackedCompare
