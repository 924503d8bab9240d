import Olaf.FpDbWriter
import Olaf.Library.Checked
import Olaf.Library.Flushing
/-!
# The arrays of the database writer (`olaf_fp_db_writer.c`)

| here | there |
| --- | --- |
| `Buffered`  | `struct Olaf_FP_DB_Writer` (`:24`): two arrays of `1<<12` slots, and the calls of `olaf_db_store` so far |
| `new`, `fill`, `store`, `destroy` | `olaf_fp_db_writer_new` (`:38`), the loop of `olaf_fp_db_writer_store` (`:52`), the function, and `olaf_fp_db_writer_destroy` (`:99`) with `store` true |
| `maxFingerprints` | the value of the integer `max_fingerprints` in the JSON configuration, through the `u32` of `olaf_cli_config.zig:49` and `copy_to_c_config` |

This is the writer of `Olaf.FpDbWriter` on arrays that can be overrun: a store behind the last slot is a fault, and what
was in the arrays before is any memory. While no batch overruns them both do the same (`store_refines`).

The arrays are emptied above 3276 of their 4096 slots, after a batch. Nothing ties the size of a batch to the 820 that are
left, and `max_fingerprints` is not checked: `writer_lossless_iff`. One run does without the condition when its own batches find
room (`lossless_run`).
-/

namespace Olaf.WriterBuffer
open Checked FpDbWriter

variable {V : Type}

structure Buffered where
  keys : Buffer Nat
  values : Buffer Nat
  index : Nat
  audioFileIdentifier : UInt32
  calls : List (List (Nat × Nat))

/-- `malloc` leaves the arrays as they are. -/
def new (memory : Nat → Nat × Nat) (audioFileIdentifier : UInt32) : Buffered :=
  ⟨⟨capacity, fun i => (memory i).1⟩, ⟨capacity, fun i => (memory i).2⟩, 0, audioFileIdentifier, []⟩

/-- The arguments of `olaf_db_store`. -/
def Buffered.pending (w : Buffered) : List (Nat × Nat) := (List.range w.index).map fun i => (w.keys.cell i, w.values.cell i)

/-- The body of the loop. -/
def put (w : Buffered) (p : Nat × Nat) : Option Buffered := do
  let keys ← w.keys.store w.index p.1
  let values ← w.values.store w.index p.2
  return { w with keys := keys, values := values, index := w.index + 1 }

def fill (w : Buffered) (fingerprints : List (Fingerprint V)) : Option Buffered :=
  fingerprints.foldlM (fun w f => put w (pair w.audioFileIdentifier f)) w

def store (w : Buffered) (fingerprints : List (Fingerprint V)) : Option Buffered := do
  let w ← fill w fingerprints
  return if w.index > threshold then { w with calls := w.calls ++ [w.pending], index := 0 } else w

def destroy (w : Buffered) : List (List (Nat × Nat)) := w.calls ++ [w.pending]

def run (memory : Nat → Nat × Nat) (id : UInt32) (batches : List (List (Fingerprint V))) : Option (List (List (Nat × Nat))) := do
  return destroy (← batches.foldlM store (new memory id))

/-- The JSON integer has 64 bits; `@intCast` to a `u32` wants it to be one. -/
def maxFingerprints (json : Int) : Option Nat := if 0 ≤ json ∧ json < 2 ^ 32 then some json.toNat else none

/-- No array is overrun, and the database gets the pair of every fingerprint, in order. -/
def Lossless (memory : Nat → Nat × Nat) (id : UInt32) (batches : List (List (Fingerprint V))) : Prop :=
  Returns (run memory id batches) fun calls =>
    calls.flatten = batches.flatten.map fun f => (f.hash, ((f.timeIndex1 * 2 ^ 32 + id.toNat) % 2 ^ 64).toNat)

/-! ## One batch -/

/-- The arrays have their size. -/
structure Sized (w : Buffered) : Prop where
  keys : w.keys.size = capacity
  values : w.values.size = capacity

/-- `w'` is `w` with more pairs in its arrays. -/
structure Filled (w w' : Buffered) (ps : List (Nat × Nat)) : Prop extends Sized w' where
  index : w'.index = w.index + ps.length
  id : w'.audioFileIdentifier = w.audioFileIdentifier
  calls : w'.calls = w.calls
  pending : w'.pending = w.pending ++ ps

theorem put_returns {w : Buffered} (h : Sized w) (hroom : w.index < capacity) (p : Nat × Nat) :
    Returns (put w p) fun w' => Filled w w' [p] := by
  refine Buffer.bind_store (by rw [h.keys]; exact hroom) (Buffer.bind_store (by rw [h.values]; exact hroom) ?_)
  refine Returns.pure ⟨⟨h.keys, h.values⟩, rfl, rfl, rfl, ?_⟩
  rw [Buffered.pending, List.range_succ, List.map_append, List.map_singleton, Buffer.set_cell_self, Buffer.set_cell_self]
  refine congrArg (· ++ [p]) (List.map_congr_left fun i hi => ?_)
  have hne : i ≠ w.index := Nat.ne_of_lt (List.mem_range.1 hi)
  dsimp only
  rw [Buffer.set_cell_ne hne, Buffer.set_cell_ne hne]

theorem Filled.trans {w w' w'' : Buffered} {ps ps' : List (Nat × Nat)} (h : Filled w w' ps) (h' : Filled w' w'' ps') :
    Filled w w'' (ps ++ ps') where
  toSized := h'.toSized
  index := by rw [h'.index, h.index, List.length_append, Nat.add_assoc]
  id := h'.id.trans h.id
  calls := h'.calls.trans h.calls
  pending := by rw [h'.pending, h.pending, List.append_assoc]

theorem fill_returns (fps : List (Fingerprint V)) {w : Buffered} (h : Sized w) (hroom : w.index + fps.length ≤ capacity) :
    Returns (fill w fps) fun w' => Filled w w' (fps.map (pair w.audioFileIdentifier)) := by
  induction fps generalizing w with
  | nil => exact Returns.pure ⟨h, rfl, rfl, rfl, (List.append_nil _).symm⟩
  | cons f fps ih =>
    rw [List.length_cons] at hroom
    rw [fill, List.foldlM_cons]
    refine (put_returns h (by omega) _).bind fun w' hput => ?_
    have hindex := hput.index
    rw [List.length_singleton] at hindex
    refine (ih hput.toSized (by omega)).mono fun w'' hrest => ?_
    rw [hput.id] at hrest
    exact hput.trans hrest

/-- A batch that does not fit overruns the arrays. -/
theorem fill_faults (fps : List (Fingerprint V)) {w : Buffered} (h : Sized w) (hle : w.index ≤ capacity)
    (hover : capacity < w.index + fps.length) : fill w fps = none := by
  induction fps generalizing w with
  | nil => exact absurd hover (Nat.not_lt.2 hle)
  | cons f fps ih =>
    rw [List.length_cons] at hover
    rw [fill, List.foldlM_cons]
    by_cases hroom : w.index < capacity
    · obtain ⟨w', hsome, hput⟩ := put_returns h hroom (pair w.audioFileIdentifier f)
      have hindex := hput.index
      rw [List.length_singleton] at hindex
      rw [hsome]
      exact ih hput.toSized (by omega) (by omega)
    · rw [put, Buffer.store, if_neg (by rw [h.keys]; exact hroom)]
      rfl

/-- What the calls and the arrays hold together. -/
def Buffered.taken (w : Buffered) : List (Nat × Nat) := w.calls.flatten ++ w.pending

/-- `w'` is `w` after a batch. -/
structure Stored (w w' : Buffered) (ps : List (Nat × Nat)) : Prop extends Sized w' where
  index : w'.index = Flushing.after threshold w.index ps.length
  id : w'.audioFileIdentifier = w.audioFileIdentifier
  taken : w'.taken = w.taken ++ ps

theorem store_returns (fps : List (Fingerprint V)) {w : Buffered} (h : Sized w) (hroom : w.index + fps.length ≤ capacity) :
    Returns (store w fps) fun w' => Stored w w' (fps.map (pair w.audioFileIdentifier)) := by
  refine (fill_returns fps h hroom).bind fun w' hfill => Returns.pure ?_
  have htaken : w'.taken = w.taken ++ fps.map (pair w.audioFileIdentifier) := by
    rw [Buffered.taken, hfill.calls, hfill.pending, Buffered.taken, List.append_assoc]
  have hindex := hfill.index
  by_cases hfull : w'.index > threshold
  · rw [if_pos hfull]
    refine ⟨⟨hfill.keys, hfill.values⟩, ?_, hfill.id, ?_⟩
    · rw [Flushing.after, if_pos (by omega)]
    · rw [← htaken, Buffered.taken, Buffered.taken, List.flatten_append, List.flatten_singleton]
      exact List.append_nil _
  · rw [if_neg hfull]
    refine ⟨hfill.toSized, ?_, hfill.id, htaken⟩
    rw [Flushing.after, if_neg (by omega), hindex]

/-! ## Batch after batch -/

theorem batches_return (batches : List (List (Fingerprint V))) {w : Buffered} (h : Sized w)
    (hfits : Flushing.Fits capacity threshold w.index (batches.map List.length)) :
    Returns (batches.foldlM store w) fun w' => w'.taken = w.taken ++ batches.flatten.map (pair w.audioFileIdentifier) := by
  induction batches generalizing w with
  | nil => exact Returns.pure (List.append_nil _).symm
  | cons fps batches ih =>
    obtain ⟨hroom, hrest⟩ := hfits
    rw [List.foldlM_cons]
    refine (store_returns fps h hroom).bind fun w' hstored => ?_
    have hindex := hstored.index
    rw [List.length_map] at hindex
    refine (ih hstored.toSized (by rw [hindex]; exact hrest)).mono fun w'' htaken => ?_
    rw [htaken, hstored.taken, hstored.id, List.flatten_cons, List.map_append, List.append_assoc]

/-- A run that returns had room for every batch. -/
theorem fits_of_returns (batches : List (List (Fingerprint V))) {w w' : Buffered} (h : Sized w) (hle : w.index ≤ threshold)
    (hrun : batches.foldlM store w = some w') : Flushing.Fits capacity threshold w.index (batches.map List.length) := by
  induction batches generalizing w with
  | nil => trivial
  | cons fps batches ih =>
    rw [List.foldlM_cons] at hrun
    by_cases hroom : w.index + fps.length ≤ capacity
    · obtain ⟨w₁, hsome, hstored⟩ := store_returns fps h hroom
      have hindex := hstored.index
      rw [List.length_map] at hindex
      rw [hsome] at hrun
      refine ⟨hroom, ?_⟩
      rw [← hindex]
      exact ih hstored.toSized (by rw [hindex]; exact Flushing.after_le _) hrun
    · rw [store, fill_faults fps h (hle.trans (by decide)) (by omega)] at hrun
      cases hrun

section Run
variable (memory : Nat → Nat × Nat) (id : UInt32)

theorem sized_new : Sized (new memory id) := ⟨rfl, rfl⟩

/-- One run is lossless exactly when its batches find room. -/
theorem lossless_run (batches : List (List (Fingerprint V))) :
    Lossless memory id batches ↔ Flushing.Fits capacity threshold 0 (batches.map List.length) := by
  constructor
  · rintro ⟨calls, hrun, _⟩
    obtain ⟨w, hw, _⟩ := Option.bind_eq_some_iff.1 hrun
    exact fits_of_returns batches (sized_new memory id) (Nat.zero_le _) hw
  · intro hfits
    refine (batches_return batches (sized_new memory id) hfits).bind fun w htaken => Returns.pure ?_
    have hpair : pair id = fun f : Fingerprint V => (f.hash, ((f.timeIndex1 * 2 ^ 32 + id.toNat) % 2 ^ 64).toNat) :=
      funext fun f => Prod.ext rfl (pair_value id f)
    rw [destroy, List.flatten_append, List.flatten_singleton, ← hpair]
    exact htaken

end Run

/-! ## The writer without bounds -/

/-- Both writers hold the same, and the database has got the calls. -/
structure Same (db : Db) (w : Buffered) (s : Db × Writer) : Prop extends Sized w where
  slots : s.2.slots.length = capacity
  index : s.2.index = w.index
  id : s.2.audioFileIdentifier = w.audioFileIdentifier
  pending : s.2.pending = w.pending
  calls : s.1 = w.calls.foldl Db.store db

theorem same_new (db : Db) (memory : Nat → Nat × Nat) (id : UInt32) : Same db (new memory id) (db, FpDbWriter.new id) where
  toSized := sized_new memory id
  slots := List.length_replicate
  index := rfl
  id := rfl
  pending := rfl
  calls := rfl

/-- A batch that does not overrun the arrays keeps both the same. -/
theorem store_refines {db : Db} {w w' : Buffered} {s : Db × Writer} {fps : List (Fingerprint V)} (h : Same db w s)
    (hle : w.index ≤ threshold) (hstore : store w fps = some w') : Same db w' (FpDbWriter.store s fps) ∧ w'.index ≤ threshold := by
  by_cases hroom : w.index + fps.length ≤ capacity
  · obtain ⟨w₁, hsome, hfill⟩ := fill_returns fps h.toSized hroom
    have hspec := fill_spec fps (by rw [h.index, h.slots]; exact hroom)
    rw [store, hsome] at hstore
    obtain rfl := Option.some.inj hstore
    have hpending : (FpDbWriter.fill s.2 fps).pending = w₁.pending := by
      rw [hspec.pending, hfill.pending, h.pending, h.id]
    have hindex : (FpDbWriter.fill s.2 fps).index = w₁.index := by rw [hspec.index, hfill.index, h.index, h.id]
    have hid : (FpDbWriter.fill s.2 fps).audioFileIdentifier = w₁.audioFileIdentifier := by rw [hspec.id, hfill.id, h.id]
    have hslots : (FpDbWriter.fill s.2 fps).slots.length = capacity := by rw [hspec.slots, h.slots]
    have hcalls : s.1 = w₁.calls.foldl Db.store db := by rw [hfill.calls, h.calls]
    rw [FpDbWriter.store, handle]
    rw [hindex]
    by_cases hfull : w₁.index > threshold
    · rw [if_pos hfull, if_pos hfull]
      refine ⟨⟨⟨hfill.keys, hfill.values⟩, hslots, rfl, hid, rfl, ?_⟩, Nat.zero_le _⟩
      rw [List.foldl_append, ← hcalls, hpending]
      rfl
    · rw [if_neg hfull, if_neg hfull]
      exact ⟨⟨hfill.toSized, hslots, hindex, hid, hpending, hcalls⟩, Nat.le_of_not_lt hfull⟩
  · rw [store, fill_faults fps h.toSized (hle.trans (by decide)) (by omega)] at hstore
    cases hstore

/-- **What a run passes to the database is what the writer without bounds leaves in it.** -/
theorem run_refines (db : Db) {memory : Nat → Nat × Nat} {id : UInt32} {batches : List (List (Fingerprint V))}
    {calls : List (List (Nat × Nat))} (hrun : run memory id batches = some calls) :
    FpDbWriter.destroy (batches.foldl FpDbWriter.store (db, FpDbWriter.new id)) true = calls.foldl Db.store db := by
  have hall : ∀ (batches : List (List (Fingerprint V))) {w w' : Buffered} {s : Db × Writer}, Same db w s → w.index ≤ threshold →
      batches.foldlM store w = some w' → Same db w' (batches.foldl FpDbWriter.store s) := by
    intro batches
    induction batches with
    | nil =>
      intro w w' s h _ heq
      obtain rfl := Option.some.inj heq
      exact h
    | cons fps batches ih =>
      intro w w' s h hle heq
      rw [List.foldlM_cons] at heq
      obtain ⟨w₁, hstore, hrest⟩ := Option.bind_eq_some_iff.1 heq
      obtain ⟨hsame, hle'⟩ := store_refines h hle hstore
      exact ih hsame hle' hrest
  obtain ⟨w, hw, hcalls⟩ := Option.bind_eq_some_iff.1 hrun
  have hsame := hall batches (same_new db memory id) (Nat.zero_le _) hw
  obtain rfl := Option.some.inj hcalls
  rw [FpDbWriter.destroy, if_pos rfl, hsame.calls, hsame.pending, destroy, List.foldl_append]
  rfl

/-! ## Configurations -/

section Limit
variable [Sample V]

/-- A fingerprint, for batches of any length. -/
def anyFingerprint : Fingerprint V := ⟨0, 0, Sample.lit 0, 0, 0, Sample.lit 0, 0, 0, Sample.lit 0⟩

/-- The batches that are always safe fit behind the threshold. -/
theorem lossless_limit (limit : Nat) :
    (∀ (memory : Nat → Nat × Nat) (id : UInt32) (batches : List (List (Fingerprint V))),
      (∀ fps ∈ batches, fps.length ≤ limit) → Lossless memory id batches) ↔ limit ≤ 820 := by
  have hroom : threshold + limit ≤ capacity ↔ limit ≤ 820 := by
    unfold threshold capacity
    omega
  rw [← hroom, ← Flushing.fits_iff (by decide : threshold ≤ capacity)]
  constructor
  · intro h lens hlens
    have hmap : (lens.map fun len => List.replicate len (anyFingerprint : Fingerprint V)).map List.length = lens := by
      rw [List.map_map]
      exact (List.map_congr_left fun len _ => List.length_replicate).trans (List.map_id lens)
    have hlossless := h (fun _ => (0, 0)) 0 (lens.map fun len => List.replicate len anyFingerprint) fun fps hfps => by
      obtain ⟨len, hlen, rfl⟩ := List.mem_map.1 hfps
      rw [List.length_replicate]
      exact hlens len hlen
    rw [lossless_run, hmap] at hlossless
    exact hlossless
  · intro h memory id batches hbatches
    refine (lossless_run memory id batches).2 (h _ fun len hlen => ?_)
    obtain ⟨fps, hfps, rfl⟩ := List.mem_map.1 hlen
    exact hbatches fps hfps

theorem maxFingerprints_eq {json : Int} {limit : Nat} : maxFingerprints json = some limit ↔ json = limit ∧ limit < 2 ^ 32 := by
  unfold maxFingerprints
  by_cases hjson : 0 ≤ json ∧ json < 2 ^ 32
  · rw [if_pos hjson, Option.some_inj]
    omega
  · rw [if_neg hjson]
    simp only [reduceCtorEq, false_iff]
    omega

/-- **For which values of `max_fingerprints` the writer is safe and lossless**: up to 820, of those that are admitted. -/
theorem writer_lossless_iff (json : Int) : (∀ limit, maxFingerprints json = some limit →
      ∀ (memory : Nat → Nat × Nat) (id : UInt32) (batches : List (List (Fingerprint V))),
        (∀ fps ∈ batches, fps.length ≤ limit) → Lossless memory id batches) ↔
    json ≤ 820 ∨ maxFingerprints json = none := by
  constructor
  · intro h
    cases hlimit : maxFingerprints json with
    | none => exact Or.inr rfl
    | some limit =>
      have hle := (lossless_limit limit).1 (h limit hlimit)
      have hjson := (maxFingerprints_eq.1 hlimit).1
      exact Or.inl (by omega)
  · intro h limit hlimit
    have hjson := (maxFingerprints_eq.1 hlimit).1
    rw [hlimit] at h
    have hle : json ≤ 820 := h.resolve_right (Option.some_ne_none limit)
    exact (lossless_limit limit).2 (by omega)

end Limit

/-- One batch of a configuration that asks for 5000. -/
theorem overrun : ¬ ∀ (json : Int) (limit : Nat), maxFingerprints json = some limit →
    ∀ (memory : Nat → Nat × Nat) (id : UInt32) (batches : List (List (Fingerprint ℚ))),
      (∀ fps ∈ batches, fps.length ≤ limit) → Lossless memory id batches := by
  intro h
  have hlossless := h 5000 5000 (by decide) (fun _ => (0, 0)) 7 [List.replicate 5000 anyFingerprint]
    fun fps hfps => by rw [List.mem_singleton.1 hfps, List.length_replicate]
  obtain ⟨hroom, _⟩ := (lossless_run _ _ _).1 hlossless
  rw [List.length_replicate] at hroom
  exact absurd hroom (by decide)

end Olaf.WriterBuffer
