import Olaf.InOrder
/-!
# Extraction does not depend on when

| here | there |
| --- | --- |
| `later`, `shifted` | the buffer of a stream that started `d` blocks earlier: every live point is `d` later, the free slots keep their `1<<23` |
| `Shift`            | how the two passes through the combination loops correspond (`olaf_fp_extractor.c:154-370`) |

The loops look at differences of times and at the time of an anchor relative to the current block, the marking at a
time relative to the last one, and the sort at comparisons. The exceptions are the sentinel, which no point reaches,
and the test for an empty point, which a bin of at least one never meets. So a call on the shifted buffer does the
same, `d` later (`extract_shifted`), and what it emits has the same hashes.
-/

namespace Olaf

variable {V : Type}

/-- The same event point `d` blocks later. -/
def EventPoint.later (d : Int) (p : EventPoint V) : EventPoint V := { p with timeIndex := p.timeIndex + d }

@[simp] theorem EventPoint.later_usages (d : Int) (p : EventPoint V) : (p.later d).usages = p.usages := rfl

@[simp] theorem EventPoint.later_frequencyBin (d : Int) (p : EventPoint V) : (p.later d).frequencyBin = p.frequencyBin := rfl

@[simp] theorem EventPoint.later_timeIndex (d : Int) (p : EventPoint V) : (p.later d).timeIndex = p.timeIndex + d := rfl

/-- The same fingerprint `d` blocks later. -/
def Fingerprint.later (d : Int) (f : Fingerprint V) : Fingerprint V :=
  { f with timeIndex1 := f.timeIndex1 + d, timeIndex2 := f.timeIndex2 + d, timeIndex3 := f.timeIndex3 + d }

/-- The hash is made of differences of times. -/
theorem Fingerprint.hash_later (d : Int) (f : Fingerprint V) : (f.later d).hash = f.hash := by
  have h21 : (f.later d).timeIndex2 - (f.later d).timeIndex1 = f.timeIndex2 - f.timeIndex1 := Int.add_sub_add_right ..
  have h32 : (f.later d).timeIndex3 - (f.later d).timeIndex2 = f.timeIndex3 - f.timeIndex2 := Int.add_sub_add_right ..
  have h31 : (f.later d).timeIndex3 - (f.later d).timeIndex1 = f.timeIndex3 - f.timeIndex1 := Int.add_sub_add_right ..
  simp only [hash]
  rw [h21, h32, h31]
  rfl

/-- The same buffer with its live points `d` blocks later. -/
def EventPoints.shifted (d : Int) (eps : EventPoints V) : EventPoints V :=
  ⟨eps.live.map (.later d) ++ eps.spare, eps.eventPointIndex⟩

namespace FpExtractor
open Sorting

/-- Shifting as a map on all slots: free ones stay. -/
def shift (d : Int) (p : EventPoint V) : EventPoint V := if p.timeIndex = freeTime then p else p.later d

/-- A free slot, or a point that stays below the sentinel when it is shifted. -/
def Shiftable (d : Int) (p : EventPoint V) : Prop := p.timeIndex = freeTime ∨ (p.timeIndex < freeTime ∧ p.timeIndex + d < freeTime)

theorem shift_of_lt {d : Int} {p : EventPoint V} (h : p.timeIndex < freeTime) : shift d p = p.later d := if_neg (by omega)

theorem shift_use (d : Int) (c : Nat) (p : EventPoint V) : shift d (use c p) = use c (shift d p) := by
  by_cases h : p.timeIndex = freeTime <;> simp [shift, use, EventPoint.later, h]

theorem map_modify_use (d : Int) (l : List (EventPoint V)) (i : Nat) :
    (l.map (shift d)).modify i (use 1) = (l.modify i (use 1)).map (shift d) := by
  refine List.ext_getElem? fun m => ?_
  simp only [List.getElem?_modify, List.getElem?_map]
  cases l[m]? with
  | none => rfl
  | some p => by_cases h : i = m <;> simp [h, shift_use]

variable [Sample V]

theorem point_map_shift (d : Int) (l : List (EventPoint V)) (m : Nat) : point (l.map (shift d)) m = shift d (point l m) := by
  simp only [point, List.getD_eq_getElem?_getD, List.getElem?_map]
  cases l[m]? with
  | none => rfl
  | some p => rfl

/-! ## The combination loops -/

/-- The points below `n` are real: below the sentinel and in a bin that is not zero. -/
def Real (n : Nat) (eps : List (EventPoint V)) : Prop :=
  ∀ m, m < n → (point eps m).timeIndex < freeTime ∧ 1 ≤ (point eps m).frequencyBin

/-- Two passes, the second one `d` later: the slots are shifted, and so are the fingerprints behind `fps`. -/
structure Shift (d : Int) (n : Nat) (fps : List (Fingerprint V)) (s s' : Pass V) : Prop where
  real : Real n s.eventPoints
  points : s'.eventPoints = s.eventPoints.map (shift d)
  fingerprints : ∃ new, s.fingerprints = fps ++ new ∧ s'.fingerprints = fps ++ new.map (.later d)

theorem real_modify {n : Nat} {eps : List (EventPoint V)} (h : Real n eps) (i : Nat) : Real n (eps.modify i (use 1)) := by
  intro m hm
  by_cases hlt : m < eps.length
  · rw [point_modify _ _ _ hlt]
    split
    · exact h m hm
    · exact h m hm
  · have := h m hm
    rw [point_of_le (by omega)] at this
    rwa [point_of_le (by rw [List.length_modify]; omega)]

omit [Sample V] in
theorem near_later (cfg : Config V) (d : Int) (p q : EventPoint V) : Near cfg (p.later d) (q.later d) ↔ Near cfg p q := by
  simp only [Near, EventPoint.later, Int.add_sub_add_right]

omit [Sample V] in
theorem fingerprint_later (d : Int) (p1 p2 p3 : EventPoint V) :
    fingerprint (p1.later d) (p2.later d) (p3.later d) = (fingerprint p1 p2 p3).later d := rfl

section Loops
variable {cfg : Config V} {d : Int} {n : Nat} {fps : List (Fingerprint V)} {s s' : Pass V}

omit [Sample V] in
theorem later_time_sub (d : Int) (p q : EventPoint V) :
    (q.later d).timeIndex - (p.later d).timeIndex = q.timeIndex - p.timeIndex := Int.add_sub_add_right ..

theorem Shift.length (h : Shift d n fps s s') : s'.fingerprints.length = s.fingerprints.length := by
  obtain ⟨new, h1, h2⟩ := h.fingerprints
  rw [h1, h2, List.length_append, List.length_append, List.length_map]

theorem Shift.point (h : Shift d n fps s s') {m : Nat} (hm : m < n) :
    point s'.eventPoints m = (point s.eventPoints m).later d := by
  rw [h.points, point_map_shift, shift_of_lt (h.real m hm).1]

/-- A point is used in both passes. -/
theorem Shift.use (h : Shift d n fps s s') (i : Nat) :
    Shift d n fps ⟨s.eventPoints.modify i (use 1), s.fingerprints⟩ ⟨s'.eventPoints.modify i (use 1), s'.fingerprints⟩ :=
  ⟨real_modify h.real i, by simp only [h.points, map_modify_use], h.fingerprints⟩

/-- A fingerprint is found in both passes. -/
theorem Shift.append (h : Shift d n fps s s') (f : Fingerprint V) :
    Shift d n fps ⟨s.eventPoints, s.fingerprints ++ [f]⟩ ⟨s'.eventPoints, s'.fingerprints ++ [f.later d]⟩ := by
  obtain ⟨new, h1, h2⟩ := h.fingerprints
  refine ⟨h.real, h.points, new ++ [f], ?_, ?_⟩
  · rw [h1, List.append_assoc]
  · rw [h2, List.map_append, List.append_assoc, List.map_singleton]

theorem Shift.emitThree (h : Shift d n fps s s') (i j k : Nat) (p1 p2 p3 : EventPoint V) :
    Shift d n fps (emitThree cfg i j k p1 p2 p3 s) (emitThree cfg i j k (p1.later d) (p2.later d) (p3.later d) s') := by
  unfold FpExtractor.emitThree
  rw [h.length, fingerprint_later]
  split
  · exact h
  · exact (((h.use i).use j).use k).append (fingerprint p1 p2 p3)

theorem Shift.emitTwo (h : Shift d n fps s s') (i j : Nat) (p1 p2 : EventPoint V) :
    Shift d n fps (emitTwo cfg i j p1 p2 s) (emitTwo cfg i j (p1.later d) (p2.later d) s') := by
  unfold FpExtractor.emitTwo
  rw [h.length, fingerprint_later]
  split
  · exact h
  · exact ((h.use i).use j).append (fingerprint p1 p2 p2)

theorem kLoop_shift {i j : Nat} {p1 p2 : EventPoint V} : ∀ {rem k : Nat} (tDiff : Int) {s s' : Pass V}, k + rem = n →
    Shift d n fps s s' →
    Shift d n fps (kLoop cfg i j p1 p2 rem k tDiff s) (kLoop cfg i j (p1.later d) (p2.later d) rem k tDiff s')
  | 0, _, _, _, _, _, h => h
  | rem + 1, k, tDiff, s, s', hk, h => by
    rw [kLoop, kLoop]
    simp only [h.point (show k < n by omega), later_time_sub, near_later, EventPoint.later_usages]
    split
    · exact h
    split
    · exact h
    split
    · exact kLoop_shift _ (by omega) (h.emitThree i j k p1 p2 _)
    · exact kLoop_shift _ (by omega) h

theorem jLoop_shift {i : Nat} {p1 : EventPoint V} : ∀ {rem j : Nat} {s s' : Pass V}, j + rem = n →
    Shift d n fps s s' → Shift d n fps (jLoop cfg i p1 rem j s) (jLoop cfg i (p1.later d) rem j s')
  | 0, _, _, _, _, h => h
  | rem + 1, j, s, s', hj, h => by
    rw [jLoop, jLoop]
    simp only [h.point (show j < n by omega), later_time_sub, near_later, EventPoint.later_usages]
    split
    · exact h
    split
    · exact h
    split
    · exact jLoop_shift (by omega) (kLoop_shift _ (by omega) h)
    · exact jLoop_shift (by omega) h

theorem jLoop2_shift {i : Nat} {p1 : EventPoint V} : ∀ {rem j : Nat} {s s' : Pass V}, j + rem = n →
    Shift d n fps s s' → Shift d n fps (jLoop2 cfg i p1 rem j s) (jLoop2 cfg i (p1.later d) rem j s')
  | 0, _, _, _, _, h => h
  | rem + 1, j, s, s', hj, h => by
    rw [jLoop2, jLoop2]
    simp only [h.point (show j < n by omega), later_time_sub, near_later, EventPoint.later_usages]
    split
    · exact h
    split
    · exact h
    split
    · exact jLoop2_shift (by omega) (h.emitTwo i j p1 _)
    · exact jLoop2_shift (by omega) h

/-- The outer loop, the block index being `d` later as well. -/
theorem iLoop_shift {b : Int} {inner : (i : Nat) → (p1 : EventPoint V) → (rem j : Nat) → Pass V → Pass V}
    (hinner : ∀ (i rem : Nat) (p1 : EventPoint V) (s s' : Pass V), i + 1 + rem = n → Shift d n fps s s' →
      Shift d n fps (inner i p1 rem (i + 1) s) (inner i (p1.later d) rem (i + 1) s')) :
    ∀ {rem i : Nat} {s s' : Pass V}, i + rem = n → Shift d n fps s s' →
      Shift d n fps (iLoop cfg b inner rem i s) (iLoop cfg (b + d) inner rem i s')
  | 0, _, _, _, _, h => h
  | rem + 1, i, s, s', hi, h => by
    have hbin := (h.real i (by omega)).2
    have hne : ∀ t : Int, ¬ ((point s.eventPoints i).frequencyBin = 0 ∧ t = 0) := fun t he => by omega
    have hrecent : (point s.eventPoints i).timeIndex + d > b + d - cfg.maxTimeDistance ↔
        (point s.eventPoints i).timeIndex > b - cfg.maxTimeDistance := by omega
    rw [iLoop, iLoop]
    simp only [h.point (show i < n by omega), EventPoint.later_usages, EventPoint.later_frequencyBin,
      EventPoint.later_timeIndex, hne, hrecent, if_false]
    split
    · exact h
    split
    · exact h
    · have hi' : i + 1 + rem = n := by omega
      exact iLoop_shift hinner hi' (hinner i rem _ s s' hi' h)

/-- **The combination stage of a shifted buffer**, a block index later by as much. -/
theorem combine_shift (cfg : Config V) {eps eps' : EventPoints V}
    (h : Shift d eps.eventPointIndex fps ⟨eps.eventPoints, fps⟩ ⟨eps'.eventPoints, fps⟩)
    (hidx : eps'.eventPointIndex = eps.eventPointIndex) (b : Int) :
    Shift d eps.eventPointIndex fps (combine cfg eps fps b) (combine cfg eps' fps (b + d)) := by
  unfold combine extractTwo extractThree
  rw [hidx]
  split
  · refine iLoop_shift ?_ (Nat.zero_add _) h
    exact fun i rem p1 s s' hr hs => jLoop2_shift hr hs
  · split
    · refine iLoop_shift ?_ (Nat.zero_add _) h
      exact fun i rem p1 s s' hr hs => jLoop_shift hr hs
    · exact h

end Loops

/-! ## The compaction -/

section Compact
variable {cfg : Config V} {d : Int} {eps : EventPoints V}

omit [Sample V] in
/-- What the buffer of a stream looks like before the sentinel is reached: free slots behind points that may be
shifted by `d`. -/
structure Early (cfg : Config V) (d : Int) (eps : EventPoints V) : Prop where
  shaped : eps.Shaped cfg
  nonneg : 0 ≤ d
  live : ∀ p ∈ eps.live, p.timeIndex + d < freeTime
  spare : Free eps

omit [Sample V] in
theorem Early.lt (h : Early cfg d eps) {p : EventPoint V} (hp : p ∈ eps.live) : p.timeIndex < freeTime := by
  have := h.live p hp
  have := h.nonneg
  omega

omit [Sample V] in
/-- Shifting the live points is shifting all slots. -/
theorem shifted_slots (hlive : ∀ p ∈ eps.live, p.timeIndex ≠ freeTime) (hspare : Free eps) :
    (eps.shifted d).eventPoints = eps.eventPoints.map (shift d) := by
  have h1 : eps.live.map (shift d) = eps.live.map (.later d) := List.map_congr_left fun p hp => if_neg (hlive p hp)
  have h2 : eps.spare.map (shift d) = eps.spare :=
    (List.map_congr_left fun p hp => if_pos (hspare p hp)).trans (List.map_id _)
  rw [← eps.live_append_spare, List.map_append, h1, h2]
  rfl

omit [Sample V] in
theorem Early.shifted_eq (h : Early cfg d eps) : (eps.shifted d).eventPoints = eps.eventPoints.map (shift d) :=
  shifted_slots (fun _ hp => Int.ne_of_lt (h.lt hp)) h.spare

omit [Sample V] in
theorem Early.shifted_parts (h : Early cfg d eps) :
    (eps.shifted d).live = eps.live.map (.later d) ∧ (eps.shifted d).spare = eps.spare := by
  have hlen : (eps.live.map (EventPoint.later d)).length = eps.eventPointIndex := by
    rw [List.length_map, h.shaped.live_length]
  exact ⟨List.take_left' hlen, List.drop_left' hlen⟩

theorem markOld_later (cutoff : Int) {p : EventPoint V} (hp : p.timeIndex < freeTime) :
    markOld cfg (cutoff + d) (p.later d) = shift d (markOld cfg cutoff p) := by
  have hev : evicted cfg (cutoff + d) (p.later d) = evicted cfg cutoff p := by
    simp only [evicted, EventPoint.later_timeIndex, EventPoint.later_usages, Int.add_le_add_iff_right]
  unfold markOld
  rw [hev]
  split
  · exact (if_pos rfl).symm
  · exact (shift_of_lt hp).symm

theorem Early.marked_shifted (h : Early cfg d eps) : marked cfg (eps.shifted d) = (marked cfg eps).map (shift d) := by
  obtain ⟨hl, hs⟩ := h.shifted_parts
  rw [marked, marked, hl, hs, List.map_append, List.map_map, List.map_map]
  congr 1
  · refine List.map_congr_left fun p hp => ?_
    -- there is a last point, and the cutoff moves with it
    have hcut : cutoffTime cfg (eps.shifted d) = cutoffTime cfg eps + d := by
      have hlen := h.shaped.live_length
      have hpos := List.length_pos_of_mem hp
      have hlast : point eps.eventPoints (eps.eventPointIndex - 1) ∈ eps.live :=
        mem_live.2 ⟨_, by omega, by have := h.shaped.len; have := h.shaped.idx; omega, rfl⟩
      rw [cutoffTime, cutoffTime, h.shifted_eq, point_map_shift]
      show (shift d (point eps.eventPoints (eps.eventPointIndex - 1))).timeIndex - _ = _
      rw [shift_of_lt (h.lt hlast), EventPoint.later_timeIndex]
      omega
    rw [Function.comp_apply, Function.comp_apply, hcut, markOld_later _ (h.lt hp)]
  · exact ((List.map_congr_left fun p hp => if_pos (h.spare p hp)).trans (List.map_id _)).symm

theorem Early.shiftable (h : Early cfg d eps) : ∀ p ∈ marked cfg eps, Shiftable d p := by
  intro p hp
  rcases List.mem_append.1 hp with hm | hm
  · obtain ⟨p', hp', rfl⟩ := List.mem_map.1 hm
    by_cases he : evicted cfg (cutoffTime cfg eps) p'
    · exact Or.inl (by simp [markOld, he])
    · rw [markOld_kept he]
      exact Or.inr ⟨h.lt hp', h.live p' hp'⟩
  · exact Or.inl (h.spare p hm)

omit [Sample V] in
theorem Shiftable.time {p : EventPoint V} (h : Shiftable d p) :
    (p.timeIndex = freeTime ∧ (shift d p).timeIndex = freeTime) ∨
      (p.timeIndex < freeTime ∧ (shift d p).timeIndex = p.timeIndex + d ∧ p.timeIndex + d < freeTime) := by
  rcases h with h | ⟨h, h'⟩
  · exact Or.inl ⟨h, by rw [shift, if_pos h, h]⟩
  · exact Or.inr ⟨h, by rw [shift_of_lt h]; rfl, h'⟩

omit [Sample V] in
theorem firstFree_shift {l : List (EventPoint V)} (h : ∀ p ∈ l, Shiftable d p) (n : Nat) :
    firstFree (l.map (shift d)) n = firstFree l n := by
  have hfind : ∀ l : List (EventPoint V), (∀ p ∈ l, Shiftable d p) →
      (l.map (shift d)).findIdx? (fun p => p.timeIndex = freeTime) = l.findIdx? fun p => p.timeIndex = freeTime := by
    intro l hl
    induction l with
    | nil => rfl
    | cons p l ih =>
      have hp : (shift d p).timeIndex = freeTime ↔ p.timeIndex = freeTime := by
        have := (hl p (by simp)).time
        omega
      rw [List.map_cons, List.findIdx?_cons, List.findIdx?_cons, ih fun p' hp' => hl p' (by simp [hp'])]
      simp only [hp]
  rw [firstFree, firstFree, ← List.map_take, hfind _ fun p hp => h p (List.mem_of_mem_take hp)]

/-- **The compaction of a shifted buffer.** -/
theorem Early.compact_shifted (q : ComparisonSort (EventPoint V) EventPoint.timeIndex) (h : Early cfg d eps) :
    compact cfg q.toQSort (eps.shifted d) = (compact cfg q.toQSort eps).shifted d := by
  have hsort : q.sort ((marked cfg eps).map (shift d)) = (q.sort (marked cfg eps)).map (shift d) := by
    refine q.map _ _ fun a ha b hb => ?_
    have := (h.shiftable a ha).time
    have := (h.shiftable b hb).time
    omega
  have hidx : firstFree ((q.sort (marked cfg eps)).map (shift d)) eps.eventPointIndex =
      firstFree (q.sort (marked cfg eps)) eps.eventPointIndex :=
    firstFree_shift (fun p hp => h.shiftable p (q.mem.1 hp)) _
  -- what the call leaves is real below the index and free behind it
  have hfree := compact_free q.toQSort h.shaped h.spare (Or.inl fun p hp => h.lt (List.mem_of_mem_filter hp))
  have hmap := shifted_slots (d := d) (compact_spec cfg q.toQSort eps).taken hfree
  rw [compact_eq, h.marked_shifted, hsort]
  show EventPoints.mk _ (firstFree _ eps.eventPointIndex) = _
  rw [hidx]
  exact congrArg (EventPoints.mk · _) hmap.symm

end Compact

/-- A buffer whose live points are in real bins and may be shifted is one that the loops treat alike. -/
theorem Early.shift {cfg : Config V} {d : Int} {eps : EventPoints V} (h : Early cfg d eps)
    (hbin : ∀ p ∈ eps.live, 1 ≤ p.frequencyBin) (fps : List (Fingerprint V)) :
    Shift d eps.eventPointIndex fps ⟨eps.eventPoints, fps⟩ ⟨(eps.shifted d).eventPoints, fps⟩ := by
  refine ⟨fun m hm => ?_, h.shifted_eq, [], by simp, by simp⟩
  have hmem : point eps.eventPoints m ∈ eps.live :=
    mem_live.2 ⟨m, hm, by have := h.shaped.len; have := h.shaped.idx; omega, rfl⟩
  exact ⟨h.lt hmem, hbin _ hmem⟩

/-- The combination stage leaves such a buffer, the shifted one for the shifted one. -/
theorem Early.combined {cfg : Config V} {d : Int} {eps : EventPoints V} (h : Early cfg d eps)
    (hbin : ∀ p ∈ eps.live, 1 ≤ p.frequencyBin) (fps : List (Fingerprint V)) (b : Int) :
    Early cfg d (combined cfg eps fps b) ∧
      FpExtractor.combined cfg (eps.shifted d) fps (b + d) = (FpExtractor.combined cfg eps fps b).shifted d := by
  have hn := h.shaped.index_le
  have he : Early cfg d (FpExtractor.combined cfg eps fps b) := by
    refine ⟨⟨(combined_same cfg fps b hn).length.trans h.shaped.len, h.shaped.idx⟩, h.nonneg, fun p hp => ?_, fun p hp => ?_⟩
    · obtain ⟨p', hp', hag⟩ := combined_live hn hp
      rw [hag.time]; exact h.live p' hp'
    · obtain ⟨p', hp', hag⟩ := combined_spare hn hp
      rw [hag.time]; exact h.spare p' hp'
  have hc := combine_shift cfg (h.shift hbin fps) rfl b
  refine ⟨he, ?_⟩
  exact congrArg (EventPoints.mk · eps.eventPointIndex) (hc.points.trans he.shifted_eq.symm)

/-- **Fingerprint extraction does not depend on when.** On the buffer shifted by `d`, at a block shifted by `d`, the
same fingerprints come out, `d` later and with the same hashes, and the buffer that is left is shifted by `d`. -/
theorem extract_shifted (cfg : Config V) (q : ComparisonSort (EventPoint V) EventPoint.timeIndex) (fx : State V)
    (eps : EventPoints V) (b d : Int) (hs : eps.Shaped cfg) (hspare : ∀ p ∈ eps.spare, p.timeIndex = freeTime)
    (hbin : ∀ p ∈ eps.live, 1 ≤ p.frequencyBin) (hd : 0 ≤ d) (hlive : ∀ p ∈ eps.live, p.timeIndex + d < freeTime) :
    ∃ new, (extract cfg q.toQSort fx eps b).1.fingerprints = fx.fingerprints ++ new ∧
      (extract cfg q.toQSort fx (eps.shifted d) (b + d)).1.fingerprints = fx.fingerprints ++ new.map (.later d) ∧
      (∀ f ∈ new, (f.later d).hash = f.hash) ∧
      (extract cfg q.toQSort fx (eps.shifted d) (b + d)).2 = (extract cfg q.toQSort fx eps b).2.shifted d := by
  have he : Early cfg d eps := ⟨hs, hd, hlive, hspare⟩
  obtain ⟨new, h1, h2⟩ := (combine_shift cfg (he.shift hbin fx.fingerprints) rfl b).fingerprints
  obtain ⟨hc, hcomb⟩ := he.combined hbin fx.fingerprints b
  refine ⟨new, h1, h2, fun f _ => f.hash_later d, ?_⟩
  show compact cfg q.toQSort (FpExtractor.combined cfg (eps.shifted d) fx.fingerprints (b + d)) = _
  rw [hcomb, hc.compact_shifted q]
  rfl

/-- A buffer with three points near enough for a fingerprint. -/
def threePoints : EventPoints ℚ :=
  (EventPoints.init (.default ℚ)).addPoints (.default ℚ) [⟨20, 0, 1, 0⟩, ⟨30, 5, 1, 0⟩, ⟨45, 9, 1, 0⟩]

theorem extract_shifted_threePoints :
    ∃ new, (extract (.default ℚ) (.insertion _ _) .init threePoints 40).1.fingerprints = [] ++ new ∧
      (extract (.default ℚ) (.insertion _ _) .init (threePoints.shifted 1000) (40 + 1000)).1.fingerprints =
        [] ++ new.map (.later 1000) ∧
      (∀ f ∈ new, (f.later 1000).hash = f.hash) ∧
      (extract (.default ℚ) (.insertion _ _) .init (threePoints.shifted 1000) (40 + 1000)).2 =
        (extract (.default ℚ) (.insertion _ _) .init threePoints 40).2.shifted 1000 :=
  extract_shifted (.default ℚ) (.insertion _ _) .init threePoints 40 1000 ⟨by decide +kernel, by decide +kernel⟩
    (by decide +kernel) (by decide +kernel) (by decide) (by decide +kernel)

end FpExtractor

end Olaf
