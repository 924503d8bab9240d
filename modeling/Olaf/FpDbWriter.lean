import Olaf.Db
import Olaf.Fingerprint
/-!
# Batches on their way to the database (`olaf_fp_db_writer.c`)

| here | there |
| --- | --- |
| `Writer`  | `struct Olaf_FP_DB_Writer` (`:24`): both arrays in one, their `1<<12` slots, and the index |
| `pair`    | the key and the value of a fingerprint (`:54-61`), `uint64_t` arithmetic |
| `fill`    | the loops of `olaf_fp_db_writer_store` (`:50`) and `olaf_fp_db_writer_delete` (`:72`) |
| `store`, `delete`, `destroy` | these two functions and `olaf_fp_db_writer_destroy` (`:99`) |

The writer is emptied when its index exceeds the threshold, by `olaf_db_store` or `olaf_db_delete`. Batches that
fit behind the threshold never overrun the arrays, and however the fingerprints are cut into them the
database gets their pairs once and in order (`destroy_eq`).
-/

namespace Olaf.FpDbWriter

variable {V : Type}

structure Writer where
  slots : List (Nat × Nat)
  index : Nat
  audioFileIdentifier : UInt32

/-- `1<<12`. -/
def capacity : Nat := 4096

/-- `0.8 * (1<<12)`. -/
def threshold : Nat := 3276

def new (audioFileIdentifier : UInt32) : Writer := ⟨List.replicate capacity (0, 0), 0, audioFileIdentifier⟩

/-- The key and the value of a fingerprint. -/
def pair (id : UInt32) (f : Fingerprint V) : Nat × Nat :=
  (f.hash, ((u64 f.timeIndex1 <<< 32) % 2 ^ 64 + id.toNat) % 2 ^ 64)

def fill (w : Writer) (fingerprints : List (Fingerprint V)) : Writer :=
  fingerprints.foldl (fun w f =>
    { w with slots := w.slots.set w.index (pair w.audioFileIdentifier f), index := w.index + 1 }) w

def Writer.pending (w : Writer) : List (Nat × Nat) := w.slots.take w.index

/-- The body that both functions share. -/
def handle (flush : Db → List (Nat × Nat) → Db) (s : Db × Writer) (fingerprints : List (Fingerprint V)) : Db × Writer :=
  let w := fill s.2 fingerprints
  if w.index > threshold then (flush s.1 w.pending, { w with index := 0 }) else (s.1, w)

def store : Db × Writer → List (Fingerprint V) → Db × Writer := handle Db.store

def delete : Db × Writer → List (Fingerprint V) → Db × Writer := handle Db.delete

def destroy (s : Db × Writer) (store : Bool) : Db := if store then s.1.store s.2.pending else s.1.delete s.2.pending

/-! ## What a pair is -/

/-- The value is `t1 * 2^32 + id` as a `uint64_t`. -/
theorem pair_value (id : UInt32) (f : Fingerprint V) :
    (pair id f).2 = ((f.timeIndex1 * 2 ^ 32 + id.toNat) % 2 ^ 64).toNat := by
  have hid := id.toNat_lt
  simp only [pair, u64, Nat.shiftLeft_eq]
  omega

theorem pair_id (id : UInt32) (f : Fingerprint V) : (pair id f).2 % 2 ^ 32 = id.toNat := by
  have hid := id.toNat_lt
  rw [pair_value]
  omega

/-- The time is in the high half, if it has 32 bits. -/
theorem pair_time (id : UInt32) {f : Fingerprint V} (h0 : 0 ≤ f.timeIndex1) (h : f.timeIndex1 < 2 ^ 32) :
    ((pair id f).2 / 2 ^ 32 : Nat) = f.timeIndex1 := by
  have hid := id.toNat_lt
  rw [pair_value]
  omega

/-! ## The database gets every pair once -/

/-- The arrays have their size and the index is not above the threshold. -/
structure Shaped (w : Writer) : Prop where
  slots : w.slots.length = capacity
  index : w.index ≤ threshold

theorem shaped_new (id : UInt32) : Shaped (new id) := ⟨List.length_replicate, Nat.zero_le _⟩

/-- What `fill` does while there is room. -/
structure Filled (w w' : Writer) (ps : List (Nat × Nat)) : Prop where
  slots : w'.slots.length = w.slots.length
  index : w'.index = w.index + ps.length
  id : w'.audioFileIdentifier = w.audioFileIdentifier
  pending : w'.pending = w.pending ++ ps

theorem fill_spec : ∀ (fps : List (Fingerprint V)) {w : Writer}, w.index + fps.length ≤ w.slots.length →
    Filled w (fill w fps) (fps.map (pair w.audioFileIdentifier))
  | [], w, _ => ⟨rfl, rfl, rfl, (List.append_nil _).symm⟩
  | f :: fps, w, h => by
    rw [List.length_cons] at h
    have hone : (w.slots.set w.index (pair w.audioFileIdentifier f)).take (w.index + 1) =
        w.pending ++ [pair w.audioFileIdentifier f] := by
      rw [List.take_add_one, List.getElem?_set_self (by omega), List.take_set_of_le (Nat.le_refl _)]; rfl
    obtain ⟨hs, hi, hid, hp⟩ := fill_spec fps (w := { w with
      slots := w.slots.set w.index (pair w.audioFileIdentifier f), index := w.index + 1 }) (by
        rw [List.length_set]; simp only; omega)
    rw [List.map_cons]
    refine ⟨hs.trans List.length_set, ?_, hid, ?_⟩
    · rw [List.length_cons]
      refine hi.trans ?_
      simp only; omega
    · refine hp.trans ?_
      rw [Writer.pending, hone, List.append_assoc]
      rfl

/-- One batch: the database and what is pending together get its pairs. -/
theorem handle_spec {flush : Db → List (Nat × Nat) → Db} (hnil : ∀ db, flush db [] = db) {s : Db × Writer} (h : Shaped s.2) {fps : List (Fingerprint V)}
    (hroom : threshold + fps.length ≤ capacity) :
    Shaped (handle flush s fps).2 ∧
    (handle flush s fps).2.audioFileIdentifier = s.2.audioFileIdentifier ∧
    flush (handle flush s fps).1 (handle flush s fps).2.pending =
      flush s.1 (s.2.pending ++ fps.map (pair s.2.audioFileIdentifier)) := by
  have hfill := fill_spec fps (w := s.2) (by rw [h.slots]; have := h.index; omega)
  unfold handle
  simp only [hfill.pending]
  by_cases hfull : (fill s.2 fps).index > threshold
  · simp only [if_pos hfull, Writer.pending, List.take_zero, hnil]
    exact ⟨⟨hfill.slots.trans h.slots, Nat.zero_le _⟩, hfill.id, trivial⟩
  · simp only [if_neg hfull, hfill.pending]
    exact ⟨⟨hfill.slots.trans h.slots, Nat.le_of_not_lt hfull⟩, hfill.id, trivial⟩

/-- **However the fingerprints are cut into batches, the database gets their pairs in order.** -/
theorem handle_all {flush : Db → List (Nat × Nat) → Db} (hflush : ∀ db ps ps', flush db (ps ++ ps') = flush (flush db ps) ps')
    (hnil : ∀ db, flush db [] = db) : ∀ (batches : List (List (Fingerprint V))) {s : Db × Writer}, Shaped s.2 →
      (∀ fps ∈ batches, threshold + fps.length ≤ capacity) →
      flush (batches.foldl (handle flush) s).1 (batches.foldl (handle flush) s).2.pending =
        flush s.1 (s.2.pending ++ batches.flatten.map (pair s.2.audioFileIdentifier))
  | [], s, _, _ => by simp
  | fps :: batches, s, h, hroom => by
    obtain ⟨hs, hid, he⟩ := handle_spec hnil h (hroom fps List.mem_cons_self)
    rw [List.foldl_cons, handle_all hflush hnil batches hs fun b hb => hroom b (List.mem_cons_of_mem _ hb), hflush, he, hid,
      ← hflush, List.flatten_cons, List.map_append, List.append_assoc]

theorem destroy_eq (db : Db) (id : UInt32) {batches : List (List (Fingerprint V))}
    (hroom : ∀ fps ∈ batches, threshold + fps.length ≤ capacity) :
    destroy (batches.foldl store (db, new id)) true = db.store (batches.flatten.map (pair id)) ∧
      destroy (batches.foldl delete (db, new id)) false = db.delete (batches.flatten.map (pair id)) := by
  have hpending : (new id).pending = [] := List.take_zero
  refine ⟨?_, ?_⟩
  · refine (handle_all Db.store_append (fun _ => rfl) batches (shaped_new id) hroom).trans ?_
    rw [hpending]; rfl
  · refine (handle_all Db.delete_append (fun _ => rfl) batches (shaped_new id) hroom).trans ?_
    rw [hpending]; rfl

end Olaf.FpDbWriter
