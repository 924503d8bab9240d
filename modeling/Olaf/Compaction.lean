import Olaf.FpExtractor
import Olaf.Library.Sorting
/-!
# Making room in the event point buffer (`olaf_fp_extractor_extract`)

| here | there |
| --- | --- |
| `State`      | `struct Olaf_FP_Extractor` (`olaf_fp_extractor.c:16`): the fingerprint array up to `fingerprintIndex`, and `total_fp_extracted` |
| `cutoffTime` | `:402`, from the last point in the buffer |
| `evicted`, `markOld` | the marking of old and used up points (`:405-414`) |
| `firstFree`  | the search for the new `eventPointIndex` (`:423-430`), which keeps the old one when it finds nothing |
| `compact`    | the second half of `olaf_fp_extractor_extract` |
| `extract`    | `olaf_fp_extractor_extract` (`:372`) |

`Compacted` is what every call does to the buffer, whatever it holds. The live part it leaves is, up to order, what
it does not evict iff it can tell that from free slots (`compact_kept_iff`), so while all points lie below `freeTime`
(`compact_live`).
-/

namespace Olaf.FpExtractor
open Sorting

variable {V : Type} [Sample V]

/-- `struct Olaf_FP_Extractor`. -/
structure State (V : Type) where
  fingerprints : List (Fingerprint V)
  totalFpExtracted : Nat

/-- `calloc`'d by `olaf_fp_extractor_new`. -/
def State.init : State V := ⟨[], 0⟩

/-- The time at and below which points are dropped. (With an empty buffer the source reads the slot before
the array; nothing is compared with it then.) -/
def cutoffTime (cfg : Config V) (eps : EventPoints V) : Int :=
  (point eps.eventPoints (eps.eventPointIndex - 1)).timeIndex - cfg.maxTimeDistance

/-- Too old, or used exactly as often as allowed. -/
def evicted (cfg : Config V) (cutoff : Int) (p : EventPoint V) : Bool :=
  p.timeIndex ≤ cutoff ∨ p.usages = cfg.maxEventPointUsages

/-- The marking of one slot; `usages` stays as it is. -/
def markOld (cfg : Config V) (cutoff : Int) (p : EventPoint V) : EventPoint V :=
  if evicted cfg cutoff p then ⟨0, freeTime, Sample.lit 0, p.usages⟩ else p

def firstFree (slots : List (EventPoint V)) (eventPointIndex : Nat) : Nat :=
  ((slots.take eventPointIndex).findIdx? fun p => p.timeIndex = freeTime).getD eventPointIndex

/-- Mark, sort the whole array by time, find the new index. -/
def compact (cfg : Config V) (q : QSort (EventPoint V) EventPoint.timeIndex) (eps : EventPoints V) : EventPoints V :=
  let slots := q.sort (eps.live.map (markOld cfg (cutoffTime cfg eps)) ++ eps.spare)
  ⟨slots, firstFree slots eps.eventPointIndex⟩

def extract (cfg : Config V) (q : QSort (EventPoint V) EventPoint.timeIndex) (fx : State V) (eps : EventPoints V)
    (audioBlockIndex : Int) : State V × EventPoints V :=
  let s := combine cfg eps fx.fingerprints audioBlockIndex
  (⟨s.fingerprints, fx.totalFpExtracted + s.fingerprints.length⟩, compact cfg q ⟨s.eventPoints, eps.eventPointIndex⟩)

/-! ## The new index -/

omit [Sample V] in
theorem firstFree_le (slots : List (EventPoint V)) (n : Nat) : firstFree slots n ≤ n := by
  unfold firstFree
  cases h : (slots.take n).findIdx? fun p => p.timeIndex = freeTime with
  | none => exact Nat.le_refl _
  | some i =>
    obtain ⟨hi, _⟩ := List.findIdx?_eq_some_iff_getElem.1 h
    rw [List.length_take] at hi
    simp only [Option.getD_some]; omega

omit [Sample V] in
/-- No slot below the new index is marked. -/
theorem firstFree_before (slots : List (EventPoint V)) (n : Nat) :
    ∀ p ∈ slots.take (firstFree slots n), p.timeIndex ≠ freeTime := by
  unfold firstFree
  cases h : (slots.take n).findIdx? fun p => p.timeIndex = freeTime with
  | none =>
    intro p hp
    have := List.findIdx?_eq_none_iff.1 h p hp
    simpa using this
  | some i =>
    obtain ⟨hi, _, hlt⟩ := List.findIdx?_eq_some_iff_getElem.1 h
    intro p hp
    rw [Option.getD_some] at hp
    obtain ⟨k, hk, rfl⟩ := List.mem_iff_getElem.1 hp
    rw [List.length_take] at hi hk
    have := hlt k (by omega)
    simpa using this

omit [Sample V] in
/-- Slots below `freeTime` followed by a free one: the new index is where they meet. -/
theorem firstFree_append {low high : List (EventPoint V)} {n : Nat} (hn : low.length ≤ n)
    (hlen : n ≤ (low ++ high).length) (h1 : ∀ p ∈ low, p.timeIndex < freeTime)
    (h2 : ∀ p ∈ high.head?, p.timeIndex = freeTime) : firstFree (low ++ high) n = low.length := by
  have hlow : low.findIdx? (fun p => p.timeIndex = freeTime) = none :=
    List.findIdx?_eq_none_iff.2 fun p hp => by have := h1 p hp; simp; omega
  unfold firstFree
  rw [List.take_append, List.take_of_length_le hn, List.findIdx?_append, hlow]
  simp only [Option.none_or]
  by_cases hroom : n = low.length
  · simp [hroom]
  · -- the first slot of `high` is looked at and is free
    cases high with
    | nil => simp at hlen; omega
    | cons p high =>
      obtain ⟨d, hd⟩ : ∃ d, n - low.length = d + 1 := ⟨n - low.length - 1, by omega⟩
      rw [hd, List.take_succ_cons, List.findIdx?_cons]
      simp [h2 p rfl]

/-! ## What a call does to the buffer -/

omit [Sample V] in
theorem evicted_iff {cfg : Config V} {cutoff : Int} {p : EventPoint V} :
    evicted cfg cutoff p = true ↔ p.timeIndex ≤ cutoff ∨ p.usages = cfg.maxEventPointUsages := by
  simp [evicted]

theorem markOld_kept {cfg : Config V} {cutoff : Int} {p : EventPoint V} (h : ¬ evicted cfg cutoff p) :
    markOld cfg cutoff p = p := if_neg h

theorem markOld_time {cfg : Config V} {cutoff : Int} {p : EventPoint V} (h : (markOld cfg cutoff p).timeIndex ≠ freeTime) :
    markOld cfg cutoff p = p ∧ cutoff < p.timeIndex ∧ p.usages ≠ cfg.maxEventPointUsages := by
  unfold markOld at h ⊢
  split at h
  · exact absurd rfl h
  · rename_i he
    simp only [evicted, decide_eq_true_eq, not_or] at he
    exact ⟨if_neg (by simpa [evicted] using he), by omega, he.2⟩

/-- What a call does to any buffer. -/
structure Compacted (cfg : Config V) (eps eps' : EventPoints V) : Prop where
  perm : (eps'.live ++ eps'.spare).Perm (eps.live.map (markOld cfg (cutoffTime cfg eps)) ++ eps.spare)
  ascending : eps'.live.Pairwise fun a b => a.timeIndex ≤ b.timeIndex
  taken : ∀ p ∈ eps'.live, p.timeIndex ≠ freeTime
  index : eps'.eventPointIndex ≤ eps.eventPointIndex

theorem compact_spec (cfg : Config V) (q : QSort (EventPoint V) EventPoint.timeIndex) (eps : EventPoints V) :
    Compacted cfg eps (compact cfg q eps) := by
  refine ⟨?_, ?_, firstFree_before _ _, firstFree_le _ _⟩
  · rw [EventPoints.live_append_spare]
    exact q.perm _
  · exact (q.ascending _).sublist (List.take_sublist _ _)

theorem compact_shaped {cfg : Config V} {q : QSort (EventPoint V) EventPoint.timeIndex} {eps : EventPoints V}
    (h : eps.Shaped cfg) : (compact cfg q eps).Shaped cfg := by
  refine ⟨?_, Nat.le_trans (firstFree_le _ _) h.idx⟩
  have := h.len; have := h.idx
  simp only [compact, q.length, List.length_append, List.length_map, EventPoints.live, EventPoints.spare,
    List.length_take, List.length_drop]
  omega

/-- Whatever a call leaves in the live part was in the array before, unmarked. -/
theorem Compacted.mem_live {cfg : Config V} {eps eps' : EventPoints V} (h : Compacted cfg eps eps') {p : EventPoint V}
    (hp : p ∈ eps'.live) :
    (p ∈ eps.live ∧ cutoffTime cfg eps < p.timeIndex ∧ p.usages ≠ cfg.maxEventPointUsages) ∨ p ∈ eps.spare := by
  have ht := h.taken p hp
  rcases List.mem_append.1 (h.perm.mem_iff.1 (List.mem_append_left _ hp)) with hm | hm
  · obtain ⟨p', hp', rfl⟩ := List.mem_map.1 hm
    obtain ⟨he, h1, h2⟩ := markOld_time ht
    rw [he]
    exact Or.inl ⟨hp', h1, h2⟩
  · exact Or.inr hm

/-- Every slot after a call is a slot from before or marked. -/
theorem Compacted.mem_spare {cfg : Config V} {eps eps' : EventPoints V} (h : Compacted cfg eps eps') {p : EventPoint V}
    (hp : p ∈ eps'.spare) : p.timeIndex = freeTime ∨ (p ∈ eps.live ∧ cutoffTime cfg eps < p.timeIndex) ∨ p ∈ eps.spare := by
  rcases List.mem_append.1 (h.perm.mem_iff.1 (List.mem_append_right _ hp)) with hm | hm
  · obtain ⟨p', hp', rfl⟩ := List.mem_map.1 hm
    by_cases ht : (markOld cfg (cutoffTime cfg eps) p').timeIndex = freeTime
    · exact Or.inl ht
    · obtain ⟨he, h1, _⟩ := markOld_time ht
      rw [he]
      exact Or.inr (Or.inl ⟨hp', h1⟩)
  · exact Or.inr (Or.inr hm)

/-- A buffer whose points all lie below `freeTime`, with free slots behind them. -/
structure Below (eps : EventPoints V) : Prop where
  live : ∀ p ∈ eps.live, p.timeIndex < freeTime
  spare : ∀ p ∈ eps.spare, p.timeIndex = freeTime

theorem markOld_lt_iff {cfg : Config V} {cutoff : Int} {p : EventPoint V} :
    (markOld cfg cutoff p).timeIndex < freeTime ↔ ¬ evicted cfg cutoff p ∧ p.timeIndex < freeTime := by
  unfold markOld
  split
  · simp [*]
  · simp [*]

/-- The points that marking leaves below `freeTime` are those it does not evict that were below it. -/
theorem filter_markOld {cfg : Config V} {cutoff : Int} (l : List (EventPoint V)) :
    (l.map (markOld cfg cutoff)).filter (fun p => p.timeIndex < freeTime) =
      (l.filter fun p => !evicted cfg cutoff p).filter fun p => p.timeIndex < freeTime := by
  have hcongr : l.filter ((fun p => decide (p.timeIndex < freeTime)) ∘ markOld cfg cutoff) =
      l.filter fun p => decide (p.timeIndex < freeTime) && !evicted cfg cutoff p :=
    List.filter_congr fun p _ => by
      have hm : (markOld cfg cutoff p).timeIndex < freeTime ↔ _ := markOld_lt_iff
      simp [hm, and_comm]
  rw [List.filter_map, hcongr, List.filter_filter]
  refine (List.map_congr_left fun p hp => markOld_kept ?_).trans (List.map_id _)
  simpa using (Bool.and_eq_true_iff.1 (List.mem_filter.1 hp).2).2

/-! ## When a call loses nothing -/

/-- The points that a call is to keep: after the cutoff and not used up. -/
def kept (cfg : Config V) (eps : EventPoints V) : List (EventPoint V) :=
  eps.live.filter fun p => !evicted cfg (cutoffTime cfg eps) p

/-- No slot holds a point but the live ones. -/
def Free (eps : EventPoints V) : Prop := ∀ p ∈ eps.spare, p.timeIndex = freeTime

/-- No slot behind the live part is sorted before a free one. -/
def Late (eps : EventPoints V) : Prop := ∀ p ∈ eps.spare, freeTime ≤ p.timeIndex

omit [Sample V] in
theorem Free.late {eps : EventPoints V} (h : Free eps) : Late eps := fun p hp => Int.le_of_eq (h p hp).symm

/-- A point that is to be kept cannot be taken for a free slot: it lies below `freeTime`, or else no slot is marked
free at all. -/
def Unambiguous (cfg : Config V) (eps : EventPoints V) : Prop :=
  (∀ p ∈ kept cfg eps, p.timeIndex < freeTime) ∨
    (eps.spare = [] ∧ ∀ p ∈ eps.live, ¬ evicted cfg (cutoffTime cfg eps) p ∧ p.timeIndex ≠ freeTime)

section Call
variable {cfg : Config V} {eps : EventPoints V}

/-- The array that a call sorts. -/
def marked (cfg : Config V) (eps : EventPoints V) : List (EventPoint V) :=
  eps.live.map (markOld cfg (cutoffTime cfg eps)) ++ eps.spare

theorem compact_eq (q : QSort (EventPoint V) EventPoint.timeIndex) : compact cfg q eps =
    ⟨q.sort (marked cfg eps), firstFree (q.sort (marked cfg eps)) eps.eventPointIndex⟩ := rfl

/-- The sorted array, split at `freeTime`: either a free slot ends the live part, or there is none. -/
theorem compact_cases (q : QSort (EventPoint V) EventPoint.timeIndex) (hs : eps.Shaped cfg) (hl : Late eps) :
    (∃ low high, compact cfg q eps = ⟨low ++ high, low.length⟩ ∧ (low ++ high).Perm (marked cfg eps) ∧
      low.Perm ((kept cfg eps).filter fun p => p.timeIndex < freeTime) ∧ (∀ p ∈ low, p.timeIndex < freeTime) ∧
      (∀ p ∈ high, freeTime ≤ p.timeIndex) ∧ ∃ p ∈ marked cfg eps, p.timeIndex = freeTime) ∨
    ((∀ p ∈ marked cfg eps, p.timeIndex ≠ freeTime) ∧
      compact cfg q eps = ⟨q.sort (marked cfg eps), eps.eventPointIndex⟩) := by
  have hperm := q.perm (marked cfg eps)
  have hasc := q.ascending (marked cfg eps)
  by_cases hno : ∀ p ∈ marked cfg eps, p.timeIndex ≠ freeTime
  · refine Or.inr ⟨hno, ?_⟩
    have hnone : ((q.sort (marked cfg eps)).take eps.eventPointIndex).findIdx? (fun p => p.timeIndex = freeTime) = none :=
      List.findIdx?_eq_none_iff.2 fun p hp => by simpa using hno p (hperm.mem_iff.1 (List.mem_of_mem_take hp))
    rw [compact_eq, firstFree, hnone, Option.getD_none]
  · rw [not_forall] at hno
    obtain ⟨x, hno⟩ := hno
    rw [Classical.not_imp, not_not] at hno
    obtain ⟨hx, hxt⟩ := hno
    obtain ⟨low, high, hsplit, hlow, hhigh⟩ := split_at freeTime hasc
    rw [hsplit] at hperm hasc
    have hkept := split_at_perm hperm hlow hhigh
    have hspare : eps.spare.filter (fun p => decide (p.timeIndex < freeTime)) = [] :=
      List.filter_eq_nil_iff.2 fun p hp => by simpa using hl p hp
    rw [marked, List.filter_append, hspare, List.append_nil, filter_markOld] at hkept
    have hn : low.length ≤ eps.eventPointIndex := by
      rw [hkept.length_eq, ← hs.live_length]
      exact (List.length_filter_le _ _).trans (List.length_filter_le _ _)
    have hlen : eps.eventPointIndex ≤ (low ++ high).length := by
      rw [hperm.length_eq, marked, List.length_append, List.length_map, hs.live_length]
      omega
    -- the first slot from `freeTime` on is free, as one of them is
    have hhead : ∀ p ∈ high.head?, p.timeIndex = freeTime := fun p hp => by
      obtain ⟨rest, rfl⟩ : ∃ rest, high = p :: rest := ⟨_, (List.cons_head?_tail hp).symm⟩
      have hp := hhigh p List.mem_cons_self
      rcases List.mem_append.1 (hperm.mem_iff.2 hx) with hm | hm
      · have := hlow x hm; omega
      · rcases List.mem_cons.1 hm with rfl | hm
        · exact hxt
        · have := (List.pairwise_cons.1 (List.pairwise_append.1 hasc).2.1).1 x hm
          omega
    refine Or.inl ⟨low, high, ?_, hperm, hkept, hlow, hhigh, x, hx, hxt⟩
    rw [compact_eq, hsplit, firstFree_append hn hlen hlow hhead]

/-- Without a free slot, nothing is evicted. -/
theorem none_evicted (hno : ∀ p ∈ marked cfg eps, p.timeIndex ≠ freeTime) :
    ∀ p ∈ eps.live, ¬ evicted cfg (cutoffTime cfg eps) p ∧ p.timeIndex ≠ freeTime := fun p hp => by
  have hmarked := hno _ (List.mem_append_left _ (List.mem_map_of_mem hp))
  have he : ¬ evicted cfg (cutoffTime cfg eps) p := fun he => hmarked (by simp [markOld, he])
  exact ⟨he, by rwa [markOld_kept he] at hmarked⟩

/-- Without a free slot, nothing is evicted and there are no other slots. -/
theorem none_free (hf : Free eps) (hno : ∀ p ∈ marked cfg eps, p.timeIndex ≠ freeTime) :
    eps.spare = [] ∧ (∀ p ∈ eps.live, ¬ evicted cfg (cutoffTime cfg eps) p ∧ p.timeIndex ≠ freeTime) ∧
      marked cfg eps = eps.live := by
  have hspare : eps.spare = [] := List.eq_nil_iff_forall_not_mem.2 fun p hp =>
    hno p (List.mem_append_right _ hp) (hf p hp)
  refine ⟨hspare, none_evicted hno, ?_⟩
  rw [marked, hspare, List.append_nil]
  exact (List.map_congr_left fun p hp => markOld_kept (none_evicted hno p hp).1).trans (List.map_id _)

/-- **How many slots a call leaves taken**, and what is behind them. -/
theorem compact_late (q : QSort (EventPoint V) EventPoint.timeIndex) (hs : eps.Shaped cfg) (hl : Late eps) :
    Late (compact cfg q eps) ∧
      (compact cfg q eps).eventPointIndex ≤ ((kept cfg eps).filter fun p => p.timeIndex ≠ freeTime).length := by
  rcases compact_cases q hs hl with ⟨low, high, he, _, hkept, hlow, hhigh, _⟩ | ⟨hno, he⟩
  · refine ⟨fun p hp => ?_, ?_⟩
    · rw [he, EventPoints.spare, List.drop_left] at hp
      exact hhigh p hp
    · rw [he]
      show low.length ≤ _
      rw [hkept.length_eq, ← List.countP_eq_length_filter, ← List.countP_eq_length_filter]
      exact List.countP_mono_left fun p _ hp => by simp only [decide_eq_true_eq] at hp ⊢; omega
  · have hnone := none_evicted hno
    have hkept : (kept cfg eps).filter (fun p => p.timeIndex ≠ freeTime) = eps.live := by
      rw [kept, List.filter_filter]
      exact List.filter_eq_self.2 fun p hp => by simpa using And.symm (hnone p hp)
    rw [hkept, hs.live_length, he]
    refine ⟨fun p hp => ?_, Nat.le_refl _⟩
    -- what is below `freeTime` is live, so it fits before the new index
    obtain ⟨low, high, hsplit, hlow, hhigh⟩ := split_at freeTime (q.ascending (marked cfg eps))
    have hperm := split_at_perm (hsplit ▸ q.perm (marked cfg eps)) hlow hhigh
    have hshort : low.length ≤ eps.eventPointIndex := by
      have hspare : eps.spare.filter (fun p => decide (p.timeIndex < freeTime)) = [] :=
        List.filter_eq_nil_iff.2 fun p hp => by simpa using hl p hp
      rw [hperm.length_eq, marked, List.filter_append, hspare, List.append_nil, ← hs.live_length]
      exact (List.length_filter_le _ _).trans_eq (List.length_map _)
    simp only [EventPoints.spare, hsplit, List.drop_append, List.drop_eq_nil_of_le hshort, List.nil_append] at hp
    exact hhigh p (List.mem_of_mem_drop hp)

/-- With a free slot, only points below `freeTime` are safe. -/
theorem Unambiguous.below (h : Unambiguous cfg eps) (hx : ∃ p ∈ marked cfg eps, p.timeIndex = freeTime) :
    ∀ p ∈ kept cfg eps, p.timeIndex < freeTime := by
  rcases h with h | ⟨hspare, h⟩
  · exact h
  · obtain ⟨x, hx, hxt⟩ := hx
    rw [marked, hspare, List.append_nil] at hx
    obtain ⟨p, hp, rfl⟩ := List.mem_map.1 hx
    rw [markOld_kept (h p hp).1] at hxt
    exact absurd hxt (h p hp).2

/-- **A call keeps exactly what it is to keep iff it can tell points from free slots.** -/
theorem compact_kept_iff (q : QSort (EventPoint V) EventPoint.timeIndex) (hs : eps.Shaped cfg) (hf : Free eps) :
    (compact cfg q eps).live.Perm (kept cfg eps) ↔ Unambiguous cfg eps := by
  rcases compact_cases q hs hf.late with ⟨low, high, he, _, hkept, _, _, hx⟩ | ⟨hno, he⟩
  · have hlive : (compact cfg q eps).live = low := by rw [he]; exact List.take_left
    rw [hlive]
    constructor
    · intro h
      have hlen := (hkept.symm.trans h).length_eq
      exact Or.inl fun p hp => by simpa using List.length_filter_eq_length_iff.1 hlen p hp
    · intro h
      rwa [List.filter_eq_self.2 fun p hp => by simpa using h.below hx p hp] at hkept
  · obtain ⟨hspare, hlive, hmarked⟩ := none_free hf hno
    refine iff_of_true ?_ (Or.inr ⟨hspare, hlive⟩)
    have hkept : kept cfg eps = eps.live := List.filter_eq_self.2 fun p hp => by simpa using (hlive p hp).1
    rw [hkept, he, EventPoints.live, List.take_of_length_le, hmarked]
    · exact q.perm _
    · rw [q.length, hmarked, hs.live_length]

/-- Such a call leaves free slots only behind the live part. -/
theorem compact_free (q : QSort (EventPoint V) EventPoint.timeIndex) (hs : eps.Shaped cfg) (hf : Free eps)
    (h : Unambiguous cfg eps) : Free (compact cfg q eps) := by
  rcases compact_cases q hs hf.late with ⟨low, high, he, hperm, hkept, _, hhigh, hx⟩ | ⟨hno, he⟩
  · intro p hp
    have hp : p ∈ high := by rwa [he, EventPoints.spare, List.drop_left] at hp
    refine Int.le_antisymm ?_ (hhigh p hp)
    rcases List.mem_append.1 (hperm.mem_iff.1 (List.mem_append_right _ hp)) with hm | hm
    · obtain ⟨p', hp', rfl⟩ := List.mem_map.1 hm
      by_cases hev : evicted cfg (cutoffTime cfg eps) p'
      · simp [markOld, hev]
      · rw [markOld_kept hev]
        exact Int.le_of_lt (h.below hx p' (List.mem_filter.2 ⟨hp', by simpa using hev⟩))
    · exact Int.le_of_eq (hf p hm)
  · intro p hp
    obtain ⟨_, _, hmarked⟩ := none_free hf hno
    rw [he, EventPoints.spare, List.drop_eq_nil_of_le (by rw [q.length, hmarked, hs.live_length])] at hp
    cases hp

end Call

/-- **Below `freeTime` a call keeps exactly what it does not evict.** -/
theorem compact_live {cfg : Config V} {q : QSort (EventPoint V) EventPoint.timeIndex} {eps : EventPoints V}
    (hs : eps.Shaped cfg) (hb : Below eps) :
    (compact cfg q eps).live.Perm (eps.live.filter fun p => !evicted cfg (cutoffTime cfg eps) p) ∧
      Below (compact cfg q eps) := by
  have hu : Unambiguous cfg eps := Or.inl fun p hp => hb.live p (List.mem_of_mem_filter hp)
  have hkept := (compact_kept_iff q hs hb.spare).2 hu
  exact ⟨hkept, fun p hp => hb.live p (List.mem_of_mem_filter (hkept.mem_iff.1 hp)), compact_free q hs hb.spare hu⟩

end Olaf.FpExtractor
