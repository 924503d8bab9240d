import Olaf.DbMem
import Olaf.Process
/-!
# The generated in-memory reference (`olaf_fp_db_writer_mem.c`)

| here | there |
| --- | --- |
| `Writer`        | `struct Olaf_FP_DB_Writer` (`:35`): its array up to `index` |
| `hashWithTime`  | an entry (`:58-61`): the hash above a 16 bit time, `uint64_t` arithmetic |
| `store`         | `olaf_fp_db_writer_store` (`:55`); what does not fit is ignored with a warning |
| `destroy`       | `olaf_fp_db_writer_destroy` (`:78`): the array it prints, `none` when it prints none |
| `storeMetaData` | the length constant of `olaf_db_store_meta_data` (`olaf_db_mem.c:203`) |
| `generate`      | a store in the memory build: each batch counted (`olaf_fp_extractor.c:420`) and stored, then both printed |

"The next 16 bits are a time stamp" (`olaf_db_mem.c:28`): of a time only these are kept, and the array has 100000
slots. Up to that the printed array unpacks to what was stored (`generate_faithful`).
-/

namespace Olaf.FpDbWriterMem
open DbMem Sorting

variable {V : Type}

/-- `struct Olaf_FP_DB_Writer`. -/
structure Writer where
  hashes : List Nat

/-- `hashes_size`. -/
def hashesSize : Nat := 100000

/-- `olaf_fp_db_writer_new`. -/
def new : Writer := ⟨[]⟩

/-- `(fp_hash << 16) + fp_time`, the time being cast to `uint16_t`. -/
def hashWithTime (f : Fingerprint V) : Nat := ((f.hash <<< 16) % 2 ^ 64 + (f.timeIndex1 % 2 ^ 16).toNat) % 2 ^ 64

/-- `olaf_fp_db_writer_store`. -/
def store (w : Writer) (fingerprints : List (Fingerprint V)) : Writer :=
  fingerprints.foldl (fun w f => if w.hashes.length < hashesSize then ⟨w.hashes ++ [hashWithTime f]⟩ else w) w

/-- `olaf_fp_db_writer_destroy`: `fp_hash_compare` orders the entries as numbers. -/
def destroy (q : QSort Nat Int.ofNat) (w : Writer) : Option (List Nat) :=
  if w.hashes.length > 0 then some (q.sort w.hashes) else none

/-- `olaf_db_mem_fp_length`. -/
def storeMetaData (value : ResourceMetaData) : Nat := value.fingerprints

/-- The array and the length constant of the generated header. -/
def generate (q : QSort Nat Int.ofNat) (path : String) (duration : ℚ) (batches : List (List (Fingerprint V))) :
    Option (List Nat) × Nat :=
  let s := batches.foldl (fun (s : Writer × Nat) fps => (store s.1 fps, s.2 + fps.length)) (new, 0)
  (destroy q s.1, storeMetaData ⟨path, duration, s.2⟩)

/-! ## What is printed -/

/-- An entry is its hash and the low 16 bits of its time: the hash has 34 bits, so nothing is shifted out. -/
theorem unpack_hashWithTime (f : Fingerprint V) :
    unpack (hashWithTime f) = (f.hash, (f.timeIndex1 % 2 ^ 16).toNat) := by
  have hf := f.hash_lt
  simp only [unpack, hashWithTime, Nat.shiftLeft_eq, Nat.shiftRight_eq_div_pow, Prod.mk.injEq]
  omega

theorem store_hashes : ∀ (fps : List (Fingerprint V)) {w : Writer}, w.hashes.length ≤ hashesSize →
    (store w fps).hashes = (w.hashes ++ fps.map hashWithTime).take hashesSize
  | [], w, h => by simp [store, List.take_of_length_le h]
  | f :: fps, w, h => by
    rw [store, List.foldl_cons]
    split
    · rename_i hlt
      have := store_hashes fps (w := ⟨w.hashes ++ [hashWithTime f]⟩) (by simp; omega)
      rw [store] at this
      rw [this]
      simp
    · have hfull : w.hashes.length = hashesSize := by omega
      have := store_hashes fps h
      rw [store] at this
      rw [this, List.take_append_of_le_length (by omega), List.take_append_of_le_length (by omega)]

theorem take_append_take {α : Type} (l m : List α) (n : Nat) : (l.take n ++ m).take n = (l ++ m).take n := by
  rcases Nat.le_total n l.length with h | h
  · rw [List.take_append_of_le_length (by rw [List.length_take]; omega), List.take_append_of_le_length h, List.take_take,
      Nat.min_self]
  · rw [List.take_of_length_le h]

/-- The entries of the first batches, as many as there is room for, and the count of all. -/
theorem foldl_store : ∀ (batches : List (List (Fingerprint V))) {s : Writer × Nat}, s.1.hashes.length ≤ hashesSize →
    batches.foldl (fun (s : Writer × Nat) fps => (store s.1 fps, s.2 + fps.length)) s =
      (⟨(s.1.hashes ++ batches.flatten.map hashWithTime).take hashesSize⟩, s.2 + batches.flatten.length)
  | [], s, h => by simp [List.take_of_length_le h]
  | fps :: batches, s, h => by
    have hone := store_hashes fps h
    rw [List.foldl_cons, foldl_store batches (by rw [hone, List.length_take]; omega), hone, List.flatten_cons,
      List.map_append, List.length_append, ← List.append_assoc, ← Nat.add_assoc, take_append_take]

/-- What is printed for some batches. -/
theorem generate_eq (q : QSort Nat Int.ofNat) (path : String) (duration : ℚ) (batches : List (List (Fingerprint V))) :
    generate q path duration batches =
      (destroy q ⟨(batches.flatten.take hashesSize).map hashWithTime⟩, batches.flatten.length) := by
  have h := foldl_store batches (s := (new, 0)) (Nat.zero_le _)
  rw [generate, h]
  simp only [new, List.nil_append, Nat.zero_add, storeMetaData, List.map_take]

theorem destroy_none_iff (q : QSort Nat Int.ofNat) (w : Writer) : destroy q w = none ↔ w.hashes = [] := by
  rw [destroy]
  split
  · rename_i h
    exact iff_of_false (by simp) (List.ne_nil_of_length_pos h)
  · rename_i h
    exact iff_of_true rfl (List.eq_nil_of_length_eq_zero (by omega))

theorem mem_destroy {q : QSort Nat Int.ofNat} {w : Writer} {array : List Nat} (h : array ∈ destroy q w) :
    array = q.sort w.hashes := by
  rw [destroy] at h
  split at h
  · exact (Option.some.inj h).symm
  · cases h

/-- The size of the array that is printed. -/
theorem length_generate {q : QSort Nat Int.ofNat} {path : String} {duration : ℚ} {batches : List (List (Fingerprint V))}
    {array : List Nat} (h : array ∈ (generate q path duration batches).1) :
    array.length = min hashesSize batches.flatten.length := by
  rw [generate_eq] at h
  rw [mem_destroy h, q.length, List.length_map, List.length_take]

/-- What the array unpacks to. -/
theorem unpack_generate {q : QSort Nat Int.ofNat} {path : String} {duration : ℚ} {batches : List (List (Fingerprint V))}
    {array : List Nat} (h : array ∈ (generate q path duration batches).1) :
    (array.map unpack).Perm ((batches.flatten.take hashesSize).map fun f => (f.hash, (f.timeIndex1 % 2 ^ 16).toNat)) := by
  rw [generate_eq] at h
  have hperm := (q.perm ((batches.flatten.take hashesSize).map hashWithTime)).map unpack
  rw [List.map_map] at hperm
  rw [mem_destroy h]
  exact hperm.trans (List.Perm.of_eq (List.map_congr_left fun f _ => unpack_hashWithTime f))

/-- **The generated reference is faithful** to the first 100000 fingerprints and the low 16 bits of their times: a
header without an array for none at all, else an ascending one that unpacks to them. Its size is the length constant
as long as none is ignored. -/
theorem generate_faithful (q : QSort Nat Int.ofNat) (path : String) (duration : ℚ)
    (batches : List (List (Fingerprint V))) :
    ((generate q path duration batches).1 = none ↔ batches.flatten = []) ∧
    ∀ array ∈ (generate q path duration batches).1, array.Pairwise (· ≤ ·) ∧
      (batches.flatten.length ≤ hashesSize → array.length = (generate q path duration batches).2) ∧
      (array.map unpack).Perm
        ((batches.flatten.take hashesSize).map fun f => (f.hash, (f.timeIndex1 % 2 ^ 16).toNat)) := by
  refine ⟨?_, fun array h => ⟨?_, fun hle => ?_, unpack_generate h⟩⟩
  · rw [generate_eq, destroy_none_iff, List.map_eq_nil_iff, List.take_eq_nil_iff]
    exact or_iff_right (by decide)
  · rw [generate_eq] at h
    rw [mem_destroy h]
    exact (q.ascending _).imp Int.ofNat_le.1
  · rw [length_generate h, generate_eq, Nat.min_eq_right hle]

/-- What one would like to hold of all batches. -/
def Faithful (q : QSort Nat Int.ofNat) (path : String) (duration : ℚ) (batches : List (List (Fingerprint V))) : Prop :=
  ∃ array, (generate q path duration batches).1 = some array ∧ array.Pairwise (· ≤ ·) ∧
    array.length = (generate q path duration batches).2 ∧
    (array.map fun packed => ((unpack packed).1, ((unpack packed).2 : Int))).Perm
      (batches.flatten.map fun f => (f.hash, f.timeIndex1))

/-- A fingerprint at block `t`. -/
def sampleAt (t : Int) : Fingerprint ℚ := ⟨20, t, 1, 30, t + 5, 1, 45, t + 9, 1⟩

/-- It fails after 65535 blocks, for 100001 fingerprints and for none. -/
theorem unfaithful :
    ¬ Faithful (.insertion _ _) "ref.mp3" 600 [[sampleAt 65536]] ∧
    ¬ Faithful (.insertion _ _) "ref.mp3" 600 [List.replicate 100001 (sampleAt 0)] ∧
    ¬ Faithful (.insertion _ _) "ref.mp3" 600 ([] : List (List (Fingerprint ℚ))) := by
  refine ⟨?_, ?_, ?_⟩
  · rintro ⟨array, h, _, _, hperm⟩
    have htime := (hperm.map Prod.snd).mem_iff (a := 65536)
    have hu := (unpack_generate h).map fun p => (p.2 : Int)
    rw [List.map_map] at htime hu
    have hmem := hu.mem_iff.1 (htime.2 (by decide))
    revert hmem
    decide
  · rintro ⟨array, h, _, hlen, _⟩
    rw [length_generate h, generate_eq] at hlen
    simp only [List.flatten_cons, List.flatten_nil, List.append_nil, List.length_replicate, hashesSize] at hlen
    omega
  · rintro ⟨array, h, _⟩
    cases h

end Olaf.FpDbWriterMem

namespace Olaf.StreamProcessor
open Sorting

variable {V : Type} [Sample V]

/-- A store in the memory build prints the header for what its run hands over. -/
theorem feed_generate (cfg : Config V) (q : QSort (EventPoint V) EventPoint.timeIndex) (q' : QSort Nat Int.ofNat)
    (path : String) (duration : ℚ) (frames : List (EpExtractor.Frame V)) :
    let s := feed cfg q .store FpDbWriterMem.store FpDbWriterMem.new frames
    (FpDbWriterMem.destroy q' s.1, FpDbWriterMem.storeMetaData ⟨path, duration, s.2⟩) =
      FpDbWriterMem.generate q' path duration (handed cfg q .store frames) := by
  have hfold : ∀ (batches : List (List (Fingerprint V))) (s : FpDbWriterMem.Writer × Nat),
      (batches.foldl (fun s fps => (FpDbWriterMem.store s.1 fps, s.2 + fps.length)) s).1 =
        batches.foldl FpDbWriterMem.store s.1 := by
    intro batches
    induction batches with
    | nil => exact fun s => rfl
    | cons fps batches ih => exact fun s => ih _
  have htotal := FpDbWriterMem.generate_eq q' path duration (handed cfg q .store frames)
  rw [Prod.ext_iff] at htotal
  refine Prod.ext ?_ ?_
  · simp only [feed_handed, FpDbWriterMem.generate, hfold]
  · rw [htotal.2]
    simp only [feed_handed, FpDbWriterMem.storeMetaData]
    rw [total_eq, handed_inserted cfg q rfl]

end Olaf.StreamProcessor
