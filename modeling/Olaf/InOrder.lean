import Olaf.Library.Growing
import Olaf.StreamProcessor
/-!
# The buffer stays in time order

Whatever the configuration and however long the run, the live part of the event point buffer is in time
order, nothing in it is later than the newest block, and every other slot is free or as old (`InOrder`).
Each operation keeps this (`InOrder.addPoints`, `InOrder.combine`, `InOrder.compact`), so every state of a
run has it (`run_ordered`, `detected_timed` for runs on frames), and every batch of a run was combined in
such a state (`run_calls`).
-/

namespace Olaf

variable {V : Type} [Sample V]

namespace FpExtractor

theorem point_live {eps : EventPoints V} {m : Nat} (hm : m < eps.live.length) :
    point eps.eventPoints m = eps.live[m] := by
  have hlen : eps.live.length = min eps.eventPointIndex eps.eventPoints.length := List.length_take
  rw [point, List.getD_eq_getElem?_getD, List.getElem?_eq_getElem (by omega)]
  simp [EventPoints.live]

theorem mem_live {eps : EventPoints V} {p : EventPoint V} :
    p ∈ eps.live ↔ ∃ m, m < eps.eventPointIndex ∧ m < eps.eventPoints.length ∧ point eps.eventPoints m = p := by
  have hlen : eps.live.length = min eps.eventPointIndex eps.eventPoints.length := List.length_take
  rw [List.mem_iff_getElem]
  constructor
  · rintro ⟨m, hm, rfl⟩
    exact ⟨m, by omega, by omega, point_live hm⟩
  · rintro ⟨m, h1, h2, rfl⟩
    have hm : m < eps.live.length := by omega
    exact ⟨m, hm, (point_live hm).symm⟩

theorem mem_spare {eps : EventPoints V} {p : EventPoint V} :
    p ∈ eps.spare ↔ ∃ m, eps.eventPointIndex ≤ m ∧ m < eps.eventPoints.length ∧ point eps.eventPoints m = p := by
  simp only [EventPoints.spare, List.mem_drop_iff_getElem, point, List.getD_eq_getElem?_getD]
  constructor
  · rintro ⟨i, hi, rfl⟩
    exact ⟨eps.eventPointIndex + i, by omega, by omega, by rw [List.getElem?_eq_getElem (by omega)]; rfl⟩
  · rintro ⟨m, h1, h2, rfl⟩
    refine ⟨m - eps.eventPointIndex, by omega, ?_⟩
    rw [List.getElem?_eq_getElem h2, Option.getD_some]
    congr 1; omega

/-- The live part in time order, slot by slot. -/
theorem ascending_iff {eps : EventPoints V} (h : eps.eventPointIndex ≤ eps.eventPoints.length) :
    (eps.live.Pairwise fun a b => a.timeIndex ≤ b.timeIndex) ↔ Ascending eps.eventPoints eps.eventPointIndex := by
  have hlen : eps.live.length = eps.eventPointIndex := by rw [EventPoints.live, List.length_take]; omega
  rw [List.pairwise_iff_getElem]
  constructor
  · intro hp a b hab hb
    rw [point_live (by omega), point_live (by omega)]
    exact hp a b _ _ hab
  · intro ha a b h1 h2 hab
    rw [← point_live, ← point_live]
    exact ha a b hab (by omega)

/-- All live points satisfy `P`, and so do the points in the other slots. -/
structure Made (P : EventPoint V → Prop) (eps : EventPoints V) : Prop where
  live : ∀ p ∈ eps.live, P p
  spare : ∀ p ∈ eps.spare, p.timeIndex = freeTime ∨ P p

/-- The buffer's invariant at time `now`. -/
structure InOrder (cfg : Config V) (now : Int) (eps : EventPoints V) : Prop where
  shaped : eps.Shaped cfg
  ascending : eps.live.Pairwise fun a b => a.timeIndex ≤ b.timeIndex
  made : Made (fun p => p.timeIndex ≤ now) eps

section InOrder
variable {cfg : Config V} {now now' : Int} {eps : EventPoints V}

omit [Sample V] in
theorem InOrder.index_le (h : InOrder cfg now eps) : eps.eventPointIndex ≤ eps.eventPoints.length := h.shaped.index_le

theorem InOrder.slots (h : InOrder cfg now eps) : Ascending eps.eventPoints eps.eventPointIndex :=
  (ascending_iff h.index_le).1 h.ascending

omit [Sample V] in
theorem InOrder.live (h : InOrder cfg now eps) : ∀ p ∈ eps.live, p.timeIndex ≤ now := h.made.live

theorem made_init (cfg : Config V) (P : EventPoint V → Prop) : Made P (.init cfg) := by
  refine ⟨by simp, fun p hp => Or.inl ?_⟩
  rw [EventPoints.spare_init] at hp
  rw [List.eq_of_mem_replicate hp]
  rfl

omit [Sample V] in
theorem Made.mono {P P' : EventPoint V → Prop} (h : Made P eps) (hP : ∀ p, P p → P' p) : Made P' eps :=
  ⟨fun p hp => hP p (h.live p hp), fun p hp => (h.spare p hp).imp_right (hP p)⟩

omit [Sample V] in
theorem Made.addPoints {P : EventPoint V → Prop} (h : Made P eps) (hs : eps.Shaped cfg) {new : List (EventPoint V)}
    (hnew : ∀ p ∈ new, P p) : Made P (eps.addPoints cfg new) := by
  obtain ⟨hlive, _, hspare⟩ := EventPoints.addPoints_live new hs
  refine ⟨fun p hp => ?_, fun p hp => h.spare p (hspare.mem hp)⟩
  rw [hlive] at hp
  exact (List.mem_append.1 hp).elim (h.live p) fun hp => hnew p (List.mem_of_mem_take hp)

theorem Made.compact {P : EventPoint V → Prop} (h : Made P eps) (q : Sorting.QSort (EventPoint V) EventPoint.timeIndex) :
    Made P (compact cfg q eps) := by
  have hc := compact_spec cfg q eps
  refine ⟨fun p hp => ?_, fun p hp => ?_⟩
  · rcases hc.mem_live hp with hm | hm
    · exact h.live p hm.1
    · exact (h.spare p hm).resolve_left (hc.taken p hp)
  · rcases hc.mem_spare hp with ht | hm | hm
    · exact Or.inl ht
    · exact Or.inr (h.live p hm.1)
    · exact h.spare p hm

theorem inOrder_init (cfg : Config V) (now : Int) : InOrder cfg now (.init cfg) :=
  ⟨EventPoints.shaped_init cfg, by simp [EventPoints.live, EventPoints.init], made_init cfg _⟩

omit [Sample V] in
theorem InOrder.mono (h : InOrder cfg now eps) (hle : now ≤ now') : InOrder cfg now' eps :=
  ⟨h.shaped, h.ascending, h.made.mono fun _ hp => Int.le_trans hp hle⟩

omit [Sample V] in
/-- New points of one later time go behind the old ones. -/
theorem InOrder.addPoints (h : InOrder cfg now eps) (hle : now ≤ now') {new : List (EventPoint V)}
    (hnew : ∀ p ∈ new, p.timeIndex = now') : InOrder cfg now' (eps.addPoints cfg new) := by
  have hlive := (EventPoints.addPoints_live new h.shaped).1
  have htake : ∀ p ∈ new.take (cfg.maxEventPoints - eps.eventPointIndex), p.timeIndex = now' := fun p hp =>
    hnew p (List.mem_of_mem_take hp)
  refine ⟨h.shaped.addPoints new, ?_, (h.mono hle).made.addPoints h.shaped fun p hp => Int.le_of_eq (hnew p hp)⟩
  rw [hlive, List.pairwise_append]
  refine ⟨h.ascending, ?_, fun a ha b hb => ?_⟩
  · exact List.pairwise_of_forall_mem_list fun a ha b hb => by rw [htake a ha, htake b hb]
  · rw [htake b hb]; exact Int.le_trans (h.live a ha) hle

/-- The buffer after the combination stage: the same points, used more often. -/
def combined (cfg : Config V) (eps : EventPoints V) (fps : List (Fingerprint V)) (audioBlockIndex : Int) :
    EventPoints V := ⟨(combine cfg eps fps audioBlockIndex).eventPoints, eps.eventPointIndex⟩

theorem combined_same (cfg : Config V) (fps : List (Fingerprint V)) (audioBlockIndex : Int)
    (hn : eps.eventPointIndex ≤ eps.eventPoints.length) :
    SamePoints eps.eventPoints (combined cfg eps fps audioBlockIndex).eventPoints :=
  (combine_yields cfg eps fps audioBlockIndex hn).same

/-- Every live point of the combined buffer is a point of the old one but for its usages. -/
theorem combined_live {fps : List (Fingerprint V)} {audioBlockIndex : Int}
    (hn : eps.eventPointIndex ≤ eps.eventPoints.length) {p : EventPoint V}
    (hp : p ∈ (combined cfg eps fps audioBlockIndex).live) : ∃ p' ∈ eps.live, Agree p p' := by
  obtain ⟨m, h1, h2, rfl⟩ := mem_live.1 hp
  have hs := combined_same cfg fps audioBlockIndex hn
  exact ⟨_, mem_live.2 ⟨m, h1, by rw [← hs.length]; exact h2, rfl⟩, hs.agree m⟩

theorem combined_spare {fps : List (Fingerprint V)} {audioBlockIndex : Int}
    (hn : eps.eventPointIndex ≤ eps.eventPoints.length) {p : EventPoint V}
    (hp : p ∈ (combined cfg eps fps audioBlockIndex).spare) : ∃ p' ∈ eps.spare, Agree p p' := by
  obtain ⟨m, h1, h2, rfl⟩ := mem_spare.1 hp
  have hs := combined_same cfg fps audioBlockIndex hn
  exact ⟨_, mem_spare.2 ⟨m, h1, by rw [← hs.length]; exact h2, rfl⟩, hs.agree m⟩

theorem Below.combined (h : Below eps) (cfg : Config V) (fps : List (Fingerprint V)) (b : Int)
    (hn : eps.eventPointIndex ≤ eps.eventPoints.length) : Below (FpExtractor.combined cfg eps fps b) := by
  refine ⟨fun p hp => ?_, fun p hp => ?_⟩
  · obtain ⟨p', hp', hag⟩ := combined_live hn hp
    rw [hag.time]; exact h.live p' hp'
  · obtain ⟨p', hp', hag⟩ := combined_spare hn hp
    rw [hag.time]; exact h.spare p' hp'

theorem combined_cutoff (cfg : Config V) (fps : List (Fingerprint V)) (b : Int)
    (hn : eps.eventPointIndex ≤ eps.eventPoints.length) : cutoffTime cfg (combined cfg eps fps b) = cutoffTime cfg eps := by
  rw [cutoffTime, cutoffTime, (combined_same cfg fps b hn).time]; rfl

/-- What does not look at the usages does not see the combination stage. -/
theorem combined_map {α : Type} (cfg : Config V) (fps : List (Fingerprint V)) (audioBlockIndex : Int)
    (hn : eps.eventPointIndex ≤ eps.eventPoints.length) (g : EventPoint V → α) (hg : ∀ p p', Agree p p' → g p = g p') :
    (combined cfg eps fps audioBlockIndex).live.map g = eps.live.map g ∧
      (combined cfg eps fps audioBlockIndex).spare.map g = eps.spare.map g := by
  have hs := combined_same cfg fps audioBlockIndex hn
  have hslots : (combined cfg eps fps audioBlockIndex).eventPoints.map g = eps.eventPoints.map g := by
    refine List.ext_getElem (by simp [hs.length]) fun m h1 h2 => ?_
    rw [List.length_map] at h1 h2
    have hp : ∀ {l : List (EventPoint V)} (hm : m < l.length), l[m] = point l m := fun hm => by
      rw [point, List.getD_eq_getElem?_getD, List.getElem?_eq_getElem hm]; rfl
    rw [List.getElem_map, List.getElem_map, hp h1, hp h2]
    exact hg _ _ (hs.agree m)
  simp only [EventPoints.live, EventPoints.spare, List.map_take, List.map_drop, hslots]
  exact ⟨rfl, rfl⟩

/-- A property of time, bin and magnitude outlasts the combination stage. -/
theorem Made.combine {P : EventPoint V → Prop} (h : Made P eps) (hP : ∀ p p', Agree p p' → P p' → P p)
    (fps : List (Fingerprint V)) (audioBlockIndex : Int) (hn : eps.eventPointIndex ≤ eps.eventPoints.length) :
    Made P (combined cfg eps fps audioBlockIndex) := by
  refine ⟨fun p hp => ?_, fun p hp => ?_⟩
  · obtain ⟨p', hp', hag⟩ := combined_live hn hp
    exact hP p p' hag (h.live p' hp')
  · obtain ⟨p', hp', hag⟩ := combined_spare hn hp
    exact (h.spare p' hp').imp (hag.time.trans ·) (hP p p' hag)

theorem InOrder.combine (h : InOrder cfg now eps) (fps : List (Fingerprint V)) (audioBlockIndex : Int) :
    InOrder cfg now (combined cfg eps fps audioBlockIndex) := by
  have hs := combined_same cfg fps audioBlockIndex h.index_le
  have hidx : (combined cfg eps fps audioBlockIndex).eventPointIndex = eps.eventPointIndex := rfl
  have hlen : (combined cfg eps fps audioBlockIndex).eventPoints.length = cfg.maxEventPoints :=
    hs.length.trans h.shaped.len
  refine ⟨⟨hlen, h.shaped.idx⟩, (ascending_iff ?_).2 fun a b hab hb => ?_,
    h.made.combine (fun p p' hag hp => hag.time ▸ hp) fps audioBlockIndex h.index_le⟩
  · rw [hidx, hlen]; exact h.shaped.idx
  · rw [hs.time a, hs.time b]; exact h.slots a b hab hb

theorem InOrder.compact (h : InOrder cfg now eps) (q : Sorting.QSort (EventPoint V) EventPoint.timeIndex) :
    InOrder cfg now (compact cfg q eps) :=
  ⟨compact_shaped h.shaped, (compact_spec cfg q eps).ascending, h.made.compact q⟩

/-- Every fingerprint of a call is a combination of live points. -/
theorem mem_combine (hn : eps.eventPointIndex ≤ eps.eventPoints.length) {f : Fingerprint V} {b : Int}
    (hf : f ∈ (combine cfg eps [] b).fingerprints) :
    ∃ c, Combination cfg eps.eventPoints eps.eventPointIndex b c ∧ f = fingerprintOf eps.eventPoints c := by
  obtain ⟨L, he, _, hmay, _⟩ := combine_yields cfg eps [] b hn
  rw [he.fingerprints, List.nil_append] at hf
  obtain ⟨c, hc, rfl⟩ := List.mem_map.1 hf
  exact ⟨c, hmay c hc, rfl⟩

/-- A fingerprint of three points that satisfy `P`. -/
def FromPoints (P : EventPoint V → Prop) (f : Fingerprint V) : Prop :=
  ∃ x y z, P x ∧ P y ∧ P z ∧ f = fingerprint x y z

theorem Made.fromPoints {P : EventPoint V → Prop} {c : Int} (h : Made P eps)
    (ho : InOrder cfg now eps) {f : Fingerprint V} (hf : f ∈ (FpExtractor.combine cfg eps [] c).fingerprints) :
    FromPoints P f := by
  have hn := ho.index_le
  obtain ⟨k, hk, rfl⟩ := mem_combine hn hf
  have hlt := hk.lt; have hle := hk.le; have hb := hk.bound
  have hlive : ∀ m, m ≤ k.2.2 → P (point eps.eventPoints m) := fun m hm =>
    h.live _ (mem_live.2 ⟨m, by omega, by omega, rfl⟩)
  exact ⟨_, _, _, hlive _ (by omega), hlive _ hle, hlive _ (Nat.le_refl _), rfl⟩

/-- Nothing is combined in an empty buffer. -/
theorem InOrder.combine_empty (h : InOrder cfg now eps) (hidx : ¬ eps.eventPointIndex > 0) (b : Int) :
    (FpExtractor.combine cfg eps [] b).fingerprints = [] := by
  refine (combine_nil_iff cfg eps b h.index_le h.slots).2 (Or.inr fun c hc => ?_)
  have := hc.bound; omega

theorem combine_bounded (hn : eps.eventPointIndex ≤ eps.eventPoints.length) (b : Int) :
    (FpExtractor.combine cfg eps [] b).fingerprints.length ≤ cfg.maxFingerprints := by
  obtain ⟨_, _, _, _, _, hl⟩ := combine_yields cfg eps [] b hn
  exact hl (Nat.zero_le _)

/-- The cutoff lies `maxTimeDistance` before the newest point. -/
theorem InOrder.le_cutoff (h : InOrder cfg now eps) {p : EventPoint V} (hp : p ∈ eps.live) :
    p.timeIndex ≤ cutoffTime cfg eps + cfg.maxTimeDistance := by
  obtain ⟨m, h1, _, rfl⟩ := mem_live.1 hp
  have := h.slots.le (a := m) (b := eps.eventPointIndex - 1) (by omega) (by omega)
  simp only [cutoffTime]; omega

end InOrder

end FpExtractor

namespace StreamProcessor
open FpExtractor Sorting Growing

/-- The event points one block yields: all of one time, unused, in different bins of the analysed range. -/
structure Block (cfg : Config V) (b : Nat) (new : List (EventPoint V)) : Prop where
  time : ∀ p ∈ new, p.timeIndex = b - cfg.halfFilterSizeTime
  unused : ∀ p ∈ new, p.usages = 0
  nodup : (new.map EventPoint.frequencyBin).Nodup
  bin : ∀ p ∈ new, ∃ j : Nat, p.frequencyBin = j ∧ cfg.minFrequencyBin ≤ j ∧ j + 1 < cfg.audioBlockSize / 2

/-- Event points in the order and at the times the extractor finds them. -/
def Timed (cfg : Config V) (blocks : List (List (EventPoint V))) : Prop :=
  ∀ b new, blocks[b]? = some new → Block cfg b new

/-- The points of every block have the time of the block. -/
def InTime (cfg : Config V) (blocks : List (List (EventPoint V))) : Prop :=
  ∀ (b : Nat) (new : List (EventPoint V)), blocks[b]? = some new → ∀ p ∈ new, p.timeIndex = b - cfg.halfFilterSizeTime

section Blocks
variable {cfg : Config V} {blocks : List (List (EventPoint V))} {new : List (EventPoint V)}

omit [Sample V] in
theorem Timed.inTime (h : Timed cfg blocks) : InTime cfg blocks := fun b new hb => (h b new hb).time

omit [Sample V] in
theorem Timed.init (h : Timed cfg (blocks ++ [new])) : Timed cfg blocks ∧ Block cfg blocks.length new :=
  (each_concat (P := fun b _ new => Block cfg b new)).1 h

omit [Sample V] in
theorem Timed.append (h : Timed cfg blocks) (hnew : Block cfg blocks.length new) : Timed cfg (blocks ++ [new]) :=
  (each_concat (P := fun b _ new => Block cfg b new)).2 ⟨h, hnew⟩

omit [Sample V] in
theorem Timed.take (h : Timed cfg blocks) (i : Nat) : Timed cfg (blocks.take i) :=
  each_take (P := fun b _ new => Block cfg b new) h i

omit [Sample V] in
theorem InTime.init (h : InTime cfg (blocks ++ [new])) :
    InTime cfg blocks ∧ ∀ p ∈ new, p.timeIndex = (blocks.length : Int) - cfg.halfFilterSizeTime :=
  (each_concat (P := fun b _ (new : List (EventPoint V)) => ∀ p ∈ new, p.timeIndex = (b : Int) - cfg.halfFilterSizeTime)).1 h

omit [Sample V] in
theorem InTime.take (h : InTime cfg blocks) (i : Nat) : InTime cfg (blocks.take i) :=
  each_take (P := fun b _ (new : List (EventPoint V)) => ∀ p ∈ new, p.timeIndex = (b : Int) - cfg.halfFilterSizeTime) h i

omit [Sample V] in
/-- When the points of a stream happen. -/
theorem InTime.mem (h : InTime cfg blocks) {p : EventPoint V} (hp : p ∈ blocks.flatten) :
    -cfg.halfFilterSizeTime ≤ p.timeIndex ∧ p.timeIndex < (blocks.length : Int) - cfg.halfFilterSizeTime := by
  obtain ⟨new, hnew, hpn⟩ := List.mem_flatten.1 hp
  obtain ⟨i, hi, rfl⟩ := List.mem_iff_getElem.1 hnew
  have := h i _ (List.getElem?_eq_getElem hi) p hpn
  omega

end Blocks

/-- What the extractor finds in any frames. -/
theorem detected_timed (cfg : Config V) (frames : List (EpExtractor.Frame V)) : Timed cfg (detected cfg frames) := by
  induction frames using List.reverseRecOn with
  | nil => intro b new hb; simp [detected, detect] at hb
  | append_singleton frames fr ih =>
    rw [detected_append]
    refine ih.append ?_
    rw [detected_length]
    exact ⟨fun p hp => (EpExtractor.mem_found hp).1, fun p hp => (EpExtractor.mem_found hp).2.1,
      EpExtractor.found_bins_nodup _ _ _ _, fun p hp => (EpExtractor.mem_found hp).2.2⟩

/-- What every state has after `b` blocks. -/
structure Ordered (cfg : Config V) (b : Nat) (s : Stream V) : Prop where
  index : s.audioBlockIndex = b
  empty : s.fpExtractor.fingerprints = []
  buffer : InOrder cfg (b - cfg.halfFilterSizeTime - 1) s.eventPoints

section Step
variable {cfg : Config V} {q : QSort (EventPoint V) EventPoint.timeIndex} {b : Nat} {s : Stream V}
  {new : List (EventPoint V)} {blocks : List (List (EventPoint V))}

/-- One step: the points are added, and a buffer above the threshold is combined and compacted. -/
theorem step_cases (cfg : Config V) (q : QSort (EventPoint V) EventPoint.timeIndex) (s : Stream V)
    (new : List (EventPoint V)) :
    (((s.eventPoints.addPoints cfg new).eventPointIndex : Int) ≤ cfg.eventPointThreshold ∧
      Stream.step cfg q s new = { s with
        eventPoints := s.eventPoints.addPoints cfg new
        audioBlockIndex := s.audioBlockIndex + 1 }) ∨
    (((s.eventPoints.addPoints cfg new).eventPointIndex : Int) > cfg.eventPointThreshold ∧
      Stream.step cfg q s new =
        let eps := s.eventPoints.addPoints cfg new
        let fps := (combine cfg eps s.fpExtractor.fingerprints s.audioBlockIndex).fingerprints
        { eventPoints := compact cfg q (combined cfg eps s.fpExtractor.fingerprints s.audioBlockIndex)
          fpExtractor := ⟨[], s.fpExtractor.totalFpExtracted + fps.length⟩
          fingerprintsSet := true
          audioBlockIndex := s.audioBlockIndex + 1
          batches := s.batches ++ [fps] }) := by
  unfold Stream.step
  simp only
  split
  · exact Or.inr ⟨‹_›, rfl⟩
  · exact Or.inl ⟨by omega, rfl⟩

/-- The same with the index of the block and without fingerprints left from before. -/
theorem Ordered.step_cases (h : Ordered cfg b s) (q : QSort (EventPoint V) EventPoint.timeIndex)
    (new : List (EventPoint V)) :
    (((s.eventPoints.addPoints cfg new).eventPointIndex : Int) ≤ cfg.eventPointThreshold ∧
      Stream.step cfg q s new = { s with
        eventPoints := s.eventPoints.addPoints cfg new
        audioBlockIndex := b + 1 }) ∨
    (((s.eventPoints.addPoints cfg new).eventPointIndex : Int) > cfg.eventPointThreshold ∧
      Stream.step cfg q s new =
        let eps := s.eventPoints.addPoints cfg new
        let fps := (combine cfg eps [] b).fingerprints
        { eventPoints := compact cfg q (combined cfg eps [] b)
          fpExtractor := ⟨[], s.fpExtractor.totalFpExtracted + fps.length⟩
          fingerprintsSet := true
          audioBlockIndex := b + 1
          batches := s.batches ++ [fps] }) := by
  have hcases := StreamProcessor.step_cases cfg q s new
  rwa [h.empty, h.index] at hcases

omit [Sample V] in
/-- The buffer once the points of the next block are in it. -/
theorem Ordered.loaded (h : Ordered cfg b s) (hnew : ∀ p ∈ new, p.timeIndex = b - cfg.halfFilterSizeTime) :
    InOrder cfg (b - cfg.halfFilterSizeTime) (s.eventPoints.addPoints cfg new) :=
  h.buffer.addPoints (by omega) hnew

theorem ordered_init (cfg : Config V) : Ordered cfg 0 (Stream.init cfg) := ⟨rfl, rfl, inOrder_init cfg _⟩

theorem Ordered.step (h : Ordered cfg b s) (hnew : ∀ p ∈ new, p.timeIndex = b - cfg.halfFilterSizeTime) :
    Ordered cfg (b + 1) (Stream.step cfg q s new) := by
  have hl : InOrder cfg ((b + 1 : Nat) - cfg.halfFilterSizeTime - 1) (s.eventPoints.addPoints cfg new) :=
    (h.loaded hnew).mono (by omega)
  obtain ⟨_, he⟩ | ⟨_, he⟩ := h.step_cases q new <;> rw [he]
  · exact ⟨rfl, h.empty, hl⟩
  · exact ⟨rfl, rfl, (hl.combine _ _).compact q⟩

/-- **Every state of a run on event points has its buffer in order.** -/
theorem run_ordered (cfg : Config V) (q : QSort (EventPoint V) EventPoint.timeIndex) (ht : InTime cfg blocks) :
    Ordered cfg blocks.length (Stream.run cfg q blocks) := by
  induction blocks using List.reverseRecOn with
  | nil => exact ordered_init cfg
  | append_singleton blocks new ih =>
    obtain ⟨ht, hnew⟩ := ht.init
    rw [Stream.run_append, List.length_append, List.length_singleton]
    exact (ih ht).step hnew

/-- The buffer that block `i` of a run leaves to the fingerprint extractor. -/
theorem run_loaded (cfg : Config V) (q : QSort (EventPoint V) EventPoint.timeIndex) (ht : InTime cfg blocks) {i : Nat}
    (hi : blocks[i]? = some new) :
    InOrder cfg (i - cfg.halfFilterSizeTime) ((Stream.run cfg q (blocks.take i)).eventPoints.addPoints cfg new) := by
  have hlt := (List.getElem?_eq_some_iff.1 hi).1
  have ho := run_ordered cfg q (ht.take i)
  rw [List.length_take, Nat.min_eq_left (by omega)] at ho
  exact ho.loaded (ht i new hi)

/-- **Every batch of a run is what the extractor combines at some block.** -/
theorem run_calls (cfg : Config V) (q : QSort (EventPoint V) EventPoint.timeIndex) (ht : InTime cfg blocks) :
    ∀ fps ∈ (Stream.run cfg q blocks).batches, ∃ i new, blocks[i]? = some new ∧
      fps = (combine cfg ((Stream.run cfg q (blocks.take i)).eventPoints.addPoints cfg new) [] i).fingerprints := by
  induction blocks using List.reverseRecOn with
  | nil => simp
  | append_singleton blocks new ih =>
    intro fps hfps
    rw [some_concat (P := fun i before new =>
      fps = (combine cfg ((Stream.run cfg q before).eventPoints.addPoints cfg new) [] i).fingerprints)]
    rw [Stream.run_append] at hfps
    obtain ⟨_, he⟩ | ⟨_, he⟩ := (run_ordered cfg q ht.init.1).step_cases q new <;> rw [he] at hfps
    · exact Or.inl (ih ht.init.1 fps hfps)
    · exact (List.mem_append.1 hfps).imp (ih ht.init.1 fps) List.mem_singleton.1

/-- The state of a run on frames that the next frame meets, as a run on event points. -/
theorem loop_buffer {σ : Type} (cfg : Config V) (q : QSort (EventPoint V) EventPoint.timeIndex)
    (handle : σ → List (Fingerprint V) → σ) (sink : σ) (frames : List (EpExtractor.Frame V)) :
    (loop cfg q handle sink frames).epExtractor.eventPoints = (Stream.run cfg q (detected cfg frames)).eventPoints ∧
      Ordered cfg frames.length (Stream.run cfg q (detected cfg frames)) ∧
      ∀ fr, Block cfg frames.length (EpExtractor.found cfg (loop cfg q handle sink frames).epExtractor fr frames.length) := by
  have hord := run_ordered cfg q (detected_timed cfg frames).inTime
  rw [detected_length] at hord
  refine ⟨loop_eventPoints cfg q handle sink frames, hord, fun fr => ?_⟩
  rw [(loop_ring cfg q handle sink frames).1.found]
  have := (detected_append cfg frames fr ▸ detected_timed cfg (frames ++ [fr])).init.2
  rwa [detected_length] at this

/-- What every state of the loop has after `b` frames, and its buffer once the event points of one more are in it. -/
structure Reached {σ : Type} (cfg : Config V) (b : Nat) (s : Loop V σ) : Prop where
  index : s.audioBlockIndex = b
  empty : s.fpExtractor.fingerprints = []
  buffer : InOrder cfg (b - cfg.halfFilterSizeTime - 1) s.epExtractor.eventPoints
  loaded : ∀ fr, InOrder cfg (b - cfg.halfFilterSizeTime) (EpExtractor.extract cfg s.epExtractor fr b).eventPoints

/-- **Every state of a run on frames has its buffer in order.** -/
theorem loop_reached {σ : Type} (cfg : Config V) (q : QSort (EventPoint V) EventPoint.timeIndex)
    (handle : σ → List (Fingerprint V) → σ) (sink : σ) (frames : List (EpExtractor.Frame V)) :
    Reached cfg frames.length (loop cfg q handle sink frames) := by
  obtain ⟨hbuf, hord, hnew⟩ := loop_buffer cfg q handle sink frames
  refine ⟨(loop_ring cfg q handle sink frames).2, ?_, by rw [hbuf]; exact hord.buffer, fun fr => ?_⟩
  · rw [loop_sink]
    show (loop cfg q collect [] frames).stream.fpExtractor.fingerprints = []
    rw [loop_stream, hord.empty]
  · rw [EpExtractor.extract_eventPoints, hbuf]
    exact hord.loaded (hnew fr).time

/-- What a run delivers in all: its batches and what the final call combines, nothing from an empty buffer. -/
theorem Ordered.delivered (h : Ordered cfg b s) :
    Stream.delivered cfg q s = s.batches.flatten ++ (combine cfg s.eventPoints [] b).fingerprints := by
  unfold Stream.delivered Stream.finish
  split
  · simp only [FpExtractor.extract, h.empty, h.index, Option.getD_some]
  · rename_i hidx
    rw [h.buffer.combine_empty hidx, h.empty]
    split <;> rfl

/-- **What holds of all event points of a run holds of what its buffer keeps**, however long it is. -/
theorem run_made {P : EventPoint V → Prop} (hP : ∀ p p', Agree p p' → P p' → P p) (ht : InTime cfg blocks)
    (hall : ∀ p ∈ blocks.flatten, P p) : Made P (Stream.run cfg q blocks).eventPoints := by
  induction blocks using List.reverseRecOn with
  | nil => exact made_init cfg P
  | append_singleton blocks new ih =>
    obtain ⟨ht, hnew⟩ := ht.init
    rw [List.flatten_concat] at hall
    have ho := run_ordered cfg q ht
    have hm := ih ht fun p hp => hall p (List.mem_append_left _ hp)
    have hadd := hm.addPoints ho.buffer.shaped fun p hp => hall p (List.mem_append_right _ hp)
    rw [Stream.run_append]
    obtain ⟨_, he⟩ | ⟨_, he⟩ := ho.step_cases q new <;> rw [he]
    · exact hadd
    · exact (hadd.combine hP _ _ (ho.loaded hnew).index_le).compact q

/-- It holds of the points of its fingerprints. -/
theorem batches_made {P : EventPoint V → Prop} (hP : ∀ p p', Agree p p' → P p' → P p) (ht : InTime cfg blocks)
    (hall : ∀ p ∈ blocks.flatten, P p) : ∀ f ∈ (Stream.run cfg q blocks).batches.flatten, FromPoints P f := by
  intro f hf
  obtain ⟨fps, hfps, hf⟩ := List.mem_flatten.1 hf
  obtain ⟨i, new, hi, rfl⟩ := run_calls cfg q ht fps hfps
  have hm : Made P (Stream.run cfg q (blocks.take i)).eventPoints := by
    refine run_made hP (ht.take i) fun p hp => ?_
    obtain ⟨ps, hps, hp⟩ := List.mem_flatten.1 hp
    exact hall p (List.mem_flatten_of_mem (List.mem_of_mem_take hps) hp)
  have hadd := hm.addPoints (run_ordered cfg q (ht.take i)).buffer.shaped fun p hp =>
    hall p (List.mem_flatten_of_mem (List.mem_of_getElem? hi) hp)
  exact hadd.fromPoints (run_loaded cfg q ht hi) hf

theorem delivered_made {P : EventPoint V → Prop} (hP : ∀ p p', Agree p p' → P p' → P p) (ht : InTime cfg blocks)
    (hall : ∀ p ∈ blocks.flatten, P p) : ∀ f ∈ Stream.delivered cfg q (Stream.run cfg q blocks), FromPoints P f := by
  have ho := run_ordered cfg q ht
  intro f hf
  rw [ho.delivered] at hf
  exact (List.mem_append.1 hf).elim (batches_made hP ht hall f) ((run_made hP ht hall).fromPoints ho.buffer)

/-- The batches of a run on frames. -/
theorem loop_batches (cfg : Config V) (q : QSort (EventPoint V) EventPoint.timeIndex) (frames : List (EpExtractor.Frame V)) :
    (loop cfg q collect [] frames).sink = (Stream.run cfg q (detected cfg frames)).batches := by
  rw [← loop_stream]
  rfl

/-- All fingerprints of a run on frames, those of the final call included. -/
theorem loop_delivered (cfg : Config V) (q : QSort (EventPoint V) EventPoint.timeIndex) (frames : List (EpExtractor.Frame V)) :
    (loop cfg q collect [] frames).sink.flatten ++ ((finish cfg q (loop cfg q collect [] frames)).fingerprints.getD []) =
      Stream.delivered cfg q (Stream.run cfg q (detected cfg frames)) := by
  rw [loop_finish, Stream.delivered, ← loop_stream]; rfl

/-- The total counts what was delivered. -/
theorem run_total (ht : InTime cfg blocks) :
    (Stream.run cfg q blocks).fpExtractor.totalFpExtracted = (Stream.run cfg q blocks).batches.flatten.length := by
  induction blocks using List.reverseRecOn with
  | nil => rfl
  | append_singleton blocks new ih =>
    rw [Stream.run_append]
    obtain ⟨_, he⟩ | ⟨_, he⟩ := (run_ordered cfg q ht.init.1).step_cases q new <;> rw [he]
    · exact ih ht.init.1
    · simp only [ih ht.init.1, List.flatten_concat, List.length_append]

theorem finish_total (ht : InTime cfg blocks) :
    (Stream.finish cfg q (Stream.run cfg q blocks)).total =
      (Stream.delivered cfg q (Stream.run cfg q blocks)).length := by
  have ho := run_ordered cfg q ht
  rw [ho.delivered, List.length_append, ← run_total ht, Stream.finish]
  split
  · simp only [FpExtractor.extract, ho.empty, ho.index]
  · rename_i hidx
    rw [ho.buffer.combine_empty hidx]
    rfl

/-- No batch is larger than the fingerprint array. -/
theorem run_bounded (ht : InTime cfg blocks) :
    ∀ fps ∈ (Stream.run cfg q blocks).batches, fps.length ≤ cfg.maxFingerprints := by
  intro fps hfps
  obtain ⟨i, new, hi, rfl⟩ := run_calls cfg q ht fps hfps
  exact combine_bounded (run_loaded cfg q ht hi).index_le i

theorem finish_bounded (ht : InTime cfg blocks) {fps : List (Fingerprint V)}
    (h : (Stream.finish cfg q (Stream.run cfg q blocks)).fingerprints = some fps) : fps.length ≤ cfg.maxFingerprints := by
  have ho := run_ordered cfg q ht
  unfold Stream.finish at h
  split at h
  · rw [← Option.some.inj h]
    simp only [FpExtractor.extract, ho.empty]
    exact combine_bounded ho.buffer.index_le _
  · simp only [ho.empty] at h
    split at h
    · rw [← Option.some.inj h]; exact Nat.zero_le _
    · cases h

end Step

end StreamProcessor

end Olaf
