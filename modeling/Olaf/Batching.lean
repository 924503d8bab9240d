import Olaf.InOrder
/-!
# Fingerprints and the cutting of a stream into batches

The header of the configuration says that the buffer parameters should not have any effect but for memory
use. `eventPointThreshold` cuts the stream of event points into batches; a batch drops the points that lie
`maxTimeDistance` before its last one, but a three-point fingerprint spans up to twice that. Whether its last
point arrives before or after a batch boundary decides if it is found.

`Kept` describes the buffer of a run that reaches no limit: the points after a cutoff, and everything that
anchors at or before it was emitted. `delivered_iff` then says what a run delivers, whatever the threshold,
when no combination is open across a possible boundary (`Seamless`). An open one is delivered by a run in
one batch (`one_batch_delivers`) and lost by a run in the smallest ones (`smallest_batches_miss`).
-/

namespace Olaf.StreamProcessor
open FpExtractor Sorting Growing

variable {V : Type} [Sample V]

/-- Event points in time order, cut into the blocks that yield them. -/
structure Timely (cfg : Config V) (blocks : List (List (EventPoint V))) : Prop where
  time : ∀ (b : Nat) (new : List (EventPoint V)), blocks[b]? = some new → ∀ p ∈ new,
    p.timeIndex = b - cfg.halfFilterSizeTime
  unused : ∀ p ∈ blocks.flatten, p.usages = 0
  real : ∀ p ∈ blocks.flatten, ¬ EmptyPoint p

/-- A stream of event points. -/
structure EventStream (cfg : Config V) where
  blocks : List (List (EventPoint V))
  timely : Timely cfg blocks

/-- Three event points that pass the distance tests; the last two are one in a two-point fingerprint. -/
def Triple (cfg : Config V) (x y z : EventPoint V) : Prop :=
  Near cfg x y ∧ ((cfg.numberOfEPsPerFP = 2 ∧ z = y) ∨ (cfg.numberOfEPsPerFP = 3 ∧ Near cfg y z))

/-- No limit is reached by a call on a buffer. -/
structure CallUncapped (cfg : Config V) (b : Int) (eps : EventPoints V) : Prop where
  fingerprints : (combine cfg eps [] b).fingerprints.length < cfg.maxFingerprints
  usages : ∀ p ∈ (combined cfg eps [] b).live, p.usages < cfg.maxEventPointUsages

/-- No limit is reached in the loop over the blocks. -/
structure LoopUncapped (cfg : Config V) (q : QSort (EventPoint V) EventPoint.timeIndex)
    (blocks : List (List (EventPoint V))) : Prop where
  room : ∀ i, i < blocks.length →
    (Stream.run cfg q (blocks.take i)).eventPoints.eventPointIndex + (blocks.getD i []).length < cfg.maxEventPoints
  call : ∀ i, i < blocks.length →
    (((Stream.run cfg q (blocks.take i)).eventPoints.addPoints cfg (blocks.getD i [])).eventPointIndex : Int) >
      cfg.eventPointThreshold →
    CallUncapped cfg i ((Stream.run cfg q (blocks.take i)).eventPoints.addPoints cfg (blocks.getD i []))

/-- No limit is reached in a run, the final call included. -/
structure Uncapped (cfg : Config V) (q : QSort (EventPoint V) EventPoint.timeIndex)
    (blocks : List (List (EventPoint V))) : Prop where
  loop : LoopUncapped cfg q blocks
  last : CallUncapped cfg blocks.length (Stream.run cfg q blocks).eventPoints

/-- Combinations whose anchor is old enough for the final call are complete when a point `maxTimeDistance`
after their anchor arrives. -/
def Whole (cfg : Config V) (blocks : List (List (EventPoint V))) : Prop :=
  ∀ x ∈ blocks.flatten, ∀ y ∈ blocks.flatten, ∀ z ∈ blocks.flatten, Triple cfg x y z →
    x.timeIndex ≤ blocks.length - cfg.maxTimeDistance →
    ∀ w ∈ blocks.flatten, x.timeIndex + cfg.maxTimeDistance ≤ w.timeIndex → z.timeIndex ≤ w.timeIndex

/-! ## Below the free time -/

section Below
variable {cfg : Config V} {q : QSort (EventPoint V) EventPoint.timeIndex} {b : Nat} {s : Stream V}
  {new : List (EventPoint V)}

omit [Sample V] in
theorem Ordered.below_add (ho : Ordered cfg b s) (hnew : ∀ p ∈ new, p.timeIndex = b - cfg.halfFilterSizeTime)
    (h : Below s.eventPoints) (hfree : (b : Int) < freeTime) : Below (s.eventPoints.addPoints cfg new) := by
  have hl := ho.loaded hnew
  have hspare := (EventPoints.addPoints_live new ho.buffer.shaped).2.2
  exact ⟨fun p hp => by have := hl.live p hp; omega, fun p hp => h.spare p (hspare.mem hp)⟩

theorem Ordered.below_step (ho : Ordered cfg b s) (hnew : ∀ p ∈ new, p.timeIndex = b - cfg.halfFilterSizeTime)
    (h : Below s.eventPoints) (hfree : (b : Int) < freeTime) : Below (Stream.step cfg q s new).eventPoints := by
  have hadd := ho.below_add hnew h hfree
  have hn := (ho.loaded hnew).index_le
  obtain ⟨_, he⟩ | ⟨_, he⟩ := ho.step_cases q new <;> rw [he]
  · exact hadd
  · exact (compact_live ((ho.loaded hnew).combine _ _).shaped (hadd.combined cfg _ _ hn)).2

end Below

/-! ## One call -/

/-- An event point as the stream has it. -/
def fresh (p : EventPoint V) : EventPoint V := { p with usages := 0 }

omit [Sample V] in
theorem Agree.fresh {p p' : EventPoint V} (h : Agree p p') : fresh p = fresh p' := by
  rw [StreamProcessor.fresh, StreamProcessor.fresh, h.time, h.bin, h.magnitude]

omit [Sample V] in
theorem fresh_unused {p : EventPoint V} (h : p.usages = 0) : fresh p = p := by rw [fresh, ← h]

section Call
variable {cfg : Config V} {eps : EventPoints V} {b now : Int}

/-- What a call emits are triples of live points. -/
theorem combine_sound (hn : eps.eventPointIndex ≤ eps.eventPoints.length) {f : Fingerprint V}
    (hf : f ∈ (combine cfg eps [] b).fingerprints) :
    ∃ x ∈ eps.live, ∃ y ∈ eps.live, ∃ z ∈ eps.live, Triple cfg (fresh x) (fresh y) (fresh z) ∧
      x.timeIndex ≤ b - cfg.maxTimeDistance ∧ f = fingerprint (fresh x) (fresh y) (fresh z) := by
  obtain ⟨c, hc, rfl⟩ := mem_combine hn hf
  have hlt := hc.lt; have hle := hc.le; have hb := hc.bound
  have hmem : ∀ m, m ≤ c.2.2 → point eps.eventPoints m ∈ eps.live := fun m hm => mem_live.2 ⟨m, by omega, by omega, rfl⟩
  refine ⟨_, hmem c.1 (by omega), _, hmem c.2.1 hle, _, hmem c.2.2 (Nat.le_refl _), ⟨hc.near, ?_⟩, hc.anchor, rfl⟩
  rcases hc.third with ⟨h2, h⟩ | ⟨h3, _, h⟩
  · exact Or.inl ⟨h2, by rw [h]⟩
  · exact Or.inr ⟨h3, h⟩

/-- A call that reaches no limit emits every triple of live points whose anchor is old enough. -/
theorem combine_complete (h : InOrder cfg now eps) (hu : CallUncapped cfg b eps) (hmin : 1 ≤ cfg.minTimeDistance)
    (hreal : ∀ p ∈ eps.live, ¬ EmptyPoint p) {p1 p2 p3 : EventPoint V} (h1 : p1 ∈ eps.live) (h2 : p2 ∈ eps.live)
    (h3 : p3 ∈ eps.live) (ht : Triple cfg p1 p2 p3) (hanchor : p1.timeIndex ≤ b - cfg.maxTimeDistance) :
    fingerprint p1 p2 p3 ∈ (combine cfg eps [] b).fingerprints := by
  have hn := h.index_le
  obtain ⟨i, hi, _, rfl⟩ := mem_live.1 h1
  obtain ⟨j, hj, _, rfl⟩ := mem_live.1 h2
  -- later points sit in later slots
  have hlater : ∀ {a c : Nat}, a < eps.eventPointIndex →
      Near cfg (point eps.eventPoints a) (point eps.eventPoints c) → a < c := by
    intro a c ha hnear
    by_contra hge
    have := h.slots.le (Nat.le_of_not_lt hge) ha
    have := hnear.1
    omega
  have hij := hlater hi ht.1
  obtain ⟨k, hk, hk3, hjk, hthird⟩ : ∃ k, k < eps.eventPointIndex ∧ point eps.eventPoints k = p3 ∧ j ≤ k ∧
      ((cfg.numberOfEPsPerFP = 2 ∧ k = j) ∨
        (cfg.numberOfEPsPerFP = 3 ∧ j < k ∧ Near cfg (point eps.eventPoints j) (point eps.eventPoints k))) := by
    rcases ht.2 with ⟨h2, rfl⟩ | ⟨h3', hnear⟩
    · exact ⟨j, hj, rfl, Nat.le_refl _, Or.inl ⟨h2, rfl⟩⟩
    · obtain ⟨k, hk, _, rfl⟩ := mem_live.1 h3
      have hjk := hlater hj hnear
      exact ⟨k, hk, rfl, Nat.le_of_lt hjk, Or.inr ⟨h3', hjk, hnear⟩⟩
  have hs := combined_same cfg [] b hn
  have hfit : Fit cfg (combined cfg eps [] b).eventPoints 0 k := fun m _ hm =>
    Int.le_of_lt (hu.usages _ (mem_live.2 ⟨m, Nat.lt_of_le_of_lt hm hk, by rw [hs.length]; omega, rfl⟩))
  obtain ⟨L, he, _, _, hmust, _⟩ := combine_yields cfg eps [] b hn
  have hc : (i, j, k) ∈ L := hmust (i, j, k)
    ⟨h.slots, hanchor, hij, ht.1, hjk, hk, hthird,
      fun m hm => hreal _ (mem_live.2 ⟨m, Nat.lt_of_le_of_lt hm hi, by omega, rfl⟩), hfit.before hs⟩
    ⟨hfit, hu.fingerprints⟩
  rw [he.fingerprints, List.nil_append, ← hk3]
  exact List.mem_map_of_mem hc

end Call

/-! ## The buffer of a run that reaches no limit -/

/-- After blocks with the points `P`: the buffer holds those after the cutoff `c`, the fingerprints `fps` are
triples of `P`, and all whose anchor lies at or before the cutoff are among them. -/
structure Kept (cfg : Config V) (b : Int) (P : List (EventPoint V)) (c : Int) (eps : EventPoints V)
    (fps : List (Fingerprint V)) : Prop where
  below : Below eps
  live : (eps.live.map fresh).Perm (P.filter fun p => c < p.timeIndex)
  cut : c < -cfg.halfFilterSizeTime ∨ ∃ w ∈ P, c = w.timeIndex - cfg.maxTimeDistance
  sound : ∀ f ∈ fps, ∃ x ∈ P, ∃ y ∈ P, ∃ z ∈ P, Triple cfg x y z ∧ x.timeIndex ≤ b - cfg.maxTimeDistance ∧
    f = fingerprint x y z
  complete : ∀ x ∈ P, ∀ y ∈ P, ∀ z ∈ P, Triple cfg x y z → x.timeIndex ≤ c → fingerprint x y z ∈ fps

section Kept
variable {cfg : Config V} {q : QSort (EventPoint V) EventPoint.timeIndex} {b c now : Int} {P new : List (EventPoint V)}
  {eps : EventPoints V} {fps : List (Fingerprint V)}

omit [Sample V] in
theorem Kept.of_live (h : Kept cfg b P c eps fps) {p : EventPoint V} (hp : p ∈ eps.live) :
    fresh p ∈ P ∧ c < p.timeIndex := by
  have hm := List.mem_filter.1 (h.live.mem_iff.1 (List.mem_map_of_mem hp))
  exact ⟨hm.1, of_decide_eq_true hm.2⟩

omit [Sample V] in
theorem Kept.to_live (h : Kept cfg b P c eps fps) {x : EventPoint V} (hx : x ∈ P) (hc : c < x.timeIndex) :
    ∃ p ∈ eps.live, fresh p = x :=
  List.mem_map.1 (h.live.mem_iff.2 (List.mem_filter.2 ⟨hx, decide_eq_true hc⟩))

omit [Sample V] in
/-- The points of a block are added. -/
theorem Kept.add (h : Kept cfg b P c eps fps) (hshaped : eps.Shaped cfg) (hmax : 0 ≤ cfg.maxTimeDistance)
    (hmin : 1 ≤ cfg.minTimeDistance) (hroom : eps.eventPointIndex + new.length ≤ cfg.maxEventPoints)
    (hnew : ∀ p ∈ new, p.timeIndex = now ∧ p.usages = 0) (hnow : -cfg.halfFilterSizeTime ≤ now) (hfree : now < freeTime)
    (hold : ∀ p ∈ P, -cfg.halfFilterSizeTime ≤ p.timeIndex ∧ p.timeIndex < now)
    (hwhole : ∀ x ∈ P ++ new, ∀ y ∈ P ++ new, ∀ z ∈ P ++ new, Triple cfg x y z → ∀ w ∈ P,
      x.timeIndex + cfg.maxTimeDistance ≤ w.timeIndex → z.timeIndex ≤ w.timeIndex) :
    Kept cfg b (P ++ new) c (eps.addPoints cfg new) fps := by
  obtain ⟨hlive, _, hspare⟩ := EventPoints.addPoints_live new hshaped
  rw [List.take_of_length_le (by omega)] at hlive
  have hc : c < now := by
    rcases h.cut with hc | ⟨w, hw, rfl⟩
    · omega
    · have := (hold w hw).2; omega
  refine ⟨⟨?_, fun p hp => h.below.spare p (hspare.mem hp)⟩, ?_, ?_, ?_, ?_⟩
  · rw [hlive]
    intro p hp
    rcases List.mem_append.1 hp with hp | hp
    · exact h.below.live p hp
    · rw [(hnew p hp).1]; exact hfree
  · have hfresh : new.map fresh = new :=
      (List.map_congr_left fun p hp => fresh_unused (hnew p hp).2).trans (List.map_id _)
    have hall : new.filter (fun p => decide (c < p.timeIndex)) = new :=
      List.filter_eq_self.2 fun p hp => by rw [(hnew p hp).1]; exact decide_eq_true hc
    rw [hlive, List.map_append, List.filter_append, hfresh, hall]
    exact h.live.append_right new
  · exact h.cut.imp_right fun ⟨w, hw, he⟩ => ⟨w, List.mem_append_left _ hw, he⟩
  · intro f hf
    obtain ⟨x, hx, y, hy, z, hz, hrest⟩ := h.sound f hf
    exact ⟨x, List.mem_append_left _ hx, y, List.mem_append_left _ hy, z, List.mem_append_left _ hz, hrest⟩
  · intro x hx y hy z hz ht hxc
    have hxP : x ∈ P := (List.mem_append.1 hx).resolve_right fun hn => by have := (hnew x hn).1; omega
    have hyz : y.timeIndex ≤ z.timeIndex := by
      rcases ht.2 with ⟨_, rfl⟩ | ⟨_, hnear⟩
      · exact Int.le_refl _
      · have := hnear.1; omega
    rcases List.mem_append.1 hz with hzP | hzn
    · have hyP : y ∈ P := (List.mem_append.1 hy).resolve_right fun hn => by
        have := (hnew y hn).1; have := (hold z hzP).2; omega
      exact h.complete x hxP y hyP z hzP ht hxc
    · -- the combination would have been cut
      rcases h.cut with hc0 | ⟨w, hw, rfl⟩
      · have := (hold x hxP).1; omega
      · have := hwhole x hx y hy z hz ht w hw (by omega)
        have := (hnew z hzn).1; have := (hold w hw).2
        omega

/-- A call emits the triples whose anchor is after the cutoff and old enough. -/
theorem Kept.emits (h : Kept cfg b P c eps fps) (ho : InOrder cfg now eps) (hu : CallUncapped cfg b eps)
    (hmin : 1 ≤ cfg.minTimeDistance) (hreal : ∀ p ∈ P, ¬ EmptyPoint p) {x y z : EventPoint V} (hx : x ∈ P) (hy : y ∈ P)
    (hz : z ∈ P) (ht : Triple cfg x y z) (hc : c < x.timeIndex) (hanchor : x.timeIndex ≤ b - cfg.maxTimeDistance) :
    fingerprint x y z ∈ (combine cfg eps [] b).fingerprints := by
  have hempty : ∀ p ∈ eps.live, ¬ EmptyPoint p := fun p hp => hreal (fresh p) (h.of_live hp).1
  have hxy := ht.1.1
  -- the three points are in the buffer
  obtain ⟨p1, hp1, rfl⟩ := h.to_live hx hc
  obtain ⟨p2, hp2, rfl⟩ := h.to_live hy (by omega)
  rcases ht.2 with ⟨h2, rfl⟩ | ⟨h3, hnear⟩
  · have ht' : Triple cfg p1 p2 p2 := ⟨ht.1, Or.inl ⟨h2, rfl⟩⟩
    have hmem := combine_complete ho hu hmin hempty hp1 hp2 hp2 ht' hanchor
    exact hmem
  · obtain ⟨p3, hp3, rfl⟩ := h.to_live hz (by have := hnear.1; omega)
    have ht' : Triple cfg p1 p2 p3 := ⟨ht.1, Or.inr ⟨h3, hnear⟩⟩
    have hmem := combine_complete ho hu hmin hempty hp1 hp2 hp3 ht' hanchor
    exact hmem

/-- A call that reaches no limit. -/
theorem Kept.call (h : Kept cfg b P c eps fps) (ho : InOrder cfg now eps) (hnow : now ≤ b)
    (hu : CallUncapped cfg b eps) (hmin : 1 ≤ cfg.minTimeDistance) (hreal : ∀ p ∈ P, ¬ EmptyPoint p)
    (hidx : 0 < eps.eventPointIndex) :
    Kept cfg b P (max c (cutoffTime cfg eps)) (compact cfg q (combined cfg eps [] b))
      (fps ++ (combine cfg eps [] b).fingerprints) := by
  have hn := ho.index_le
  have hcutoff := combined_cutoff cfg [] b hn
  have hbelow := h.below.combined cfg [] b hn
  obtain ⟨hperm, hbelow'⟩ := compact_live (q := q) (ho.combine [] b).shaped hbelow
  -- the last point of the buffer gives the new cutoff
  have hlast : point eps.eventPoints (eps.eventPointIndex - 1) ∈ eps.live := mem_live.2 ⟨_, by omega, by omega, rfl⟩
  have hlast' := ho.live _ hlast
  refine ⟨hbelow', ?_, ?_, ?_, ?_⟩
  · have hfilter : (combined cfg eps [] b).live.filter (fun p => !evicted cfg (cutoffTime cfg (combined cfg eps [] b)) p) =
        (combined cfg eps [] b).live.filter fun p => decide (cutoffTime cfg eps < p.timeIndex) := by
      refine List.filter_congr fun p hp => ?_
      have := hu.usages p hp
      rw [hcutoff, Bool.eq_iff_iff, Bool.not_eq_true', ← Bool.not_eq_true, evicted_iff, decide_eq_true_iff]
      omega
    have hmap := (combined_map cfg [] b hn fresh fun p p' h => Agree.fresh h).1
    rw [hfilter] at hperm
    have h1 := hperm.map fresh
    have h2 : ((combined cfg eps [] b).live.filter fun p => decide (cutoffTime cfg eps < p.timeIndex)).map fresh =
        (eps.live.map fresh).filter fun p => decide (cutoffTime cfg eps < p.timeIndex) := by
      rw [← hmap, List.filter_map]; rfl
    rw [h2] at h1
    refine (h1.trans (h.live.filter _)).trans (List.Perm.of_eq ?_)
    rw [List.filter_filter]
    refine List.filter_congr fun p _ => ?_
    rw [Bool.eq_iff_iff, Bool.and_eq_true, decide_eq_true_iff, decide_eq_true_iff, decide_eq_true_iff]
    omega
  · rcases Int.le_total c (cutoffTime cfg eps) with hle | hle
    · rw [max_eq_right hle]
      exact Or.inr ⟨_, (h.of_live hlast).1, rfl⟩
    · rw [max_eq_left hle]; exact h.cut
  · intro f hf
    rcases List.mem_append.1 hf with hf | hf
    · exact h.sound f hf
    · obtain ⟨x, hx, y, hy, z, hz, ht, hanchor, rfl⟩ := combine_sound hn hf
      exact ⟨_, (h.of_live hx).1, _, (h.of_live hy).1, _, (h.of_live hz).1, ht, hanchor, rfl⟩
  · intro x hx y hy z hz ht hxc
    by_cases hc : x.timeIndex ≤ c
    · exact List.mem_append_left _ (h.complete x hx y hy z hz ht hc)
    · refine List.mem_append_right _ (h.emits ho hu hmin hreal hx hy hz ht (by omega) ?_)
      have hle : x.timeIndex ≤ cutoffTime cfg eps := by omega
      rw [cutoffTime] at hle
      omega

/-- A call on an empty buffer, which a negative threshold allows. -/
theorem Kept.call_empty (h : Kept cfg b P c eps fps) (ho : InOrder cfg now eps) (hidx : eps.eventPointIndex = 0) :
    Kept cfg b P c (compact cfg q (combined cfg eps [] b)) (fps ++ (combine cfg eps [] b).fingerprints) := by
  have hnone := ho.combine_empty (by omega) b
  have hlive : ∀ eps' : EventPoints V, eps'.eventPointIndex = 0 → eps'.live = [] := fun eps' h => by
    rw [EventPoints.live, h, List.take_zero]
  have hbelow := h.below.combined cfg [] b ho.index_le
  have hidx' : (compact cfg q (combined cfg eps [] b)).eventPointIndex = 0 := by
    have := (compact_spec cfg q (combined cfg eps [] b)).index
    have h0 : (combined cfg eps [] b).eventPointIndex = 0 := hidx
    omega
  have hlive0 := h.live
  rw [hlive eps hidx] at hlive0
  rw [hnone, List.append_nil]
  refine ⟨(compact_live (ho.combine [] b).shaped hbelow).2, ?_, h.cut, h.sound, h.complete⟩
  rw [hlive _ hidx']
  exact hlive0

omit [Sample V] in
theorem Kept.mono {b' : Int} (h : Kept cfg b P c eps fps) (hb : b ≤ b') : Kept cfg b' P c eps fps :=
  ⟨h.below, h.live, h.cut, fun f hf => by
    obtain ⟨x, hx, y, hy, z, hz, ht, ha, he⟩ := h.sound f hf
    exact ⟨x, hx, y, hy, z, hz, ht, by omega, he⟩, h.complete⟩

end Kept

/-! ## Runs -/

section Run
variable {cfg : Config V} {q : QSort (EventPoint V) EventPoint.timeIndex} {blocks : List (List (EventPoint V))}
  {new : List (EventPoint V)}

omit [Sample V] in
theorem Timely.inTime (h : Timely cfg blocks) : InTime cfg blocks := h.time

omit [Sample V] in
theorem Timely.init (h : Timely cfg (blocks ++ [new])) : Timely cfg blocks ∧
    ∀ p ∈ new, p.timeIndex = (blocks.length : Int) - cfg.halfFilterSizeTime ∧ p.usages = 0 := by
  have hold : ∀ p ∈ blocks.flatten, p ∈ (blocks ++ [new]).flatten := fun p hp => by
    rw [List.flatten_concat]; exact List.mem_append_left _ hp
  obtain ⟨ht, hnew⟩ := h.inTime.init
  exact ⟨⟨ht, fun p hp => h.unused p (hold p hp), fun p hp => h.real p (hold p hp)⟩,
    fun p hp => ⟨hnew p hp, h.unused p (by simp [hp])⟩⟩

/-- Block `i`, after the blocks `before`, reaches no limit. -/
structure NextUncapped (cfg : Config V) (q : QSort (EventPoint V) EventPoint.timeIndex) (i : Nat)
    (before : List (List (EventPoint V))) (new : List (EventPoint V)) : Prop where
  room : (Stream.run cfg q before).eventPoints.eventPointIndex + new.length < cfg.maxEventPoints
  call : (((Stream.run cfg q before).eventPoints.addPoints cfg new).eventPointIndex : Int) > cfg.eventPointThreshold →
    CallUncapped cfg i ((Stream.run cfg q before).eventPoints.addPoints cfg new)

theorem loopUncapped_iff :
    LoopUncapped cfg q blocks ↔ ∀ i new, blocks[i]? = some new → NextUncapped cfg q i (blocks.take i) new := by
  rw [← each_getD (P := NextUncapped cfg q) []]
  constructor
  · intro h i hi
    exact ⟨h.room i hi, h.call i hi⟩
  · intro h
    exact ⟨fun i hi => (h i hi).room, fun i hi => (h i hi).call⟩

theorem LoopUncapped.init (h : LoopUncapped cfg q (blocks ++ [new])) :
    LoopUncapped cfg q blocks ∧ NextUncapped cfg q blocks.length blocks new := by
  rw [loopUncapped_iff] at h ⊢
  exact each_concat.1 h

omit [Sample V] in
theorem Whole.init (h : Whole cfg (blocks ++ [new])) : Whole cfg blocks := by
  intro x hx y hy z hz ht hxb w hw
  have hmem : ∀ p ∈ blocks.flatten, p ∈ (blocks ++ [new]).flatten := fun p hp => by
    rw [List.flatten_append]; exact List.mem_append_left _ hp
  have hlen : (blocks ++ [new]).length = blocks.length + 1 := by simp
  exact h x (hmem x hx) y (hmem y hy) z (hmem z hz) ht (by rw [hlen]; omega) w (hmem w hw)

/-- No point of a run reaches `freeTime` while the stream does not. -/
theorem run_below (cfg : Config V) (q : QSort (EventPoint V) EventPoint.timeIndex) (ht : InTime cfg blocks)
    (hshort : (blocks.length : Int) ≤ freeTime) : Below (Stream.run cfg q blocks).eventPoints := by
  induction blocks using List.reverseRecOn with
  | nil =>
    refine ⟨fun p hp => ?_, fun p hp => ?_⟩
    · simp at hp
    · rw [Stream.run_nil_eventPoints, EventPoints.spare_init] at hp
      rw [List.eq_of_mem_replicate hp]
      rfl
  | append_singleton blocks new ih =>
    rw [List.length_append, List.length_singleton] at hshort
    rw [Stream.run_append]
    exact (run_ordered cfg q ht.init.1).below_step ht.init.2 (ih ht.init.1 (by omega)) (by omega)

/-- **Every state of a run that reaches no limit keeps the points after its cutoff.** -/
theorem run_kept (hmin : 1 ≤ cfg.minTimeDistance) (hmax : 0 ≤ cfg.maxTimeDistance)
    (hshort : (blocks.length : Int) ≤ freeTime) (ht : Timely cfg blocks) (hw : Whole cfg blocks)
    (hu : LoopUncapped cfg q blocks) :
    ∃ c, Kept cfg blocks.length blocks.flatten c (Stream.run cfg q blocks).eventPoints
      (Stream.run cfg q blocks).batches.flatten := by
  induction blocks using List.reverseRecOn with
  | nil =>
    have hb := run_below cfg q ht.inTime hshort
    refine ⟨-cfg.halfFilterSizeTime - 1, hb, ?_, Or.inl (by omega), ?_, ?_⟩
    · simp
    · simp
    · simp
  | append_singleton blocks new ih =>
    have hlast := ht.init.2
    have hlen : (blocks ++ [new]).length = blocks.length + 1 := by simp
    rw [hlen] at hshort
    have ho := run_ordered cfg q ht.init.1.inTime
    obtain ⟨c, hk⟩ := ih (by omega) ht.init.1 hw.init hu.init.1
    obtain ⟨hroom, hcall⟩ := hu.init.2
    have hloaded := ho.loaded fun p hp => (hlast p hp).1
    have hflat : (blocks ++ [new]).flatten = blocks.flatten ++ new := List.flatten_concat
    have hadd := hk.add ho.buffer.shaped hmax hmin (by omega) hlast (by omega) (by omega) (fun p hp => ht.init.1.inTime.mem hp)
      (fun x hx y hy z hz htr w hwP hxw => hw x (hflat ▸ hx) y (hflat ▸ hy) z (hflat ▸ hz) htr
        (by have := (ht.init.1.inTime.mem hwP).2; rw [hlen]; omega) w (hflat ▸ List.mem_append_left _ hwP) hxw)
    rw [Stream.run_append, hlen, hflat]
    obtain ⟨_, he⟩ | ⟨hc, he⟩ := ho.step_cases q new <;> rw [he]
    · exact ⟨c, hadd.mono (by omega)⟩
    · simp only [List.flatten_concat]
      by_cases hidx : ((Stream.run cfg q blocks).eventPoints.addPoints cfg new).eventPointIndex = 0
      · exact ⟨c, (hadd.call_empty hloaded hidx).mono (by omega)⟩
      · exact ⟨_, (hadd.call hloaded (by omega) (hcall hc) hmin (hflat ▸ ht.real) (by omega)).mono (by omega)⟩

/-- The first two points of a fingerprint keep the distance limits. -/
theorem combine_near {eps : EventPoints V} {b : Int} (hn : eps.eventPointIndex ≤ eps.eventPoints.length)
    {f : Fingerprint V} (hf : f ∈ (combine cfg eps [] b).fingerprints) :
    cfg.minTimeDistance ≤ f.timeIndex2 - f.timeIndex1 ∧ f.timeIndex2 - f.timeIndex1 ≤ cfg.maxTimeDistance := by
  obtain ⟨x, _, y, _, z, _, htr, _, rfl⟩ := combine_sound hn hf
  exact ⟨htr.1.1, htr.1.2.1⟩

theorem delivered_near (ht : InTime cfg blocks) {f : Fingerprint V}
    (hf : f ∈ Stream.delivered cfg q (Stream.run cfg q blocks)) :
    cfg.minTimeDistance ≤ f.timeIndex2 - f.timeIndex1 ∧ f.timeIndex2 - f.timeIndex1 ≤ cfg.maxTimeDistance := by
  have ho := run_ordered cfg q ht
  rw [ho.delivered, List.mem_append] at hf
  rcases hf with hf | hf
  · obtain ⟨fps, hfps, hf⟩ := List.mem_flatten.1 hf
    obtain ⟨i, new, hi, rfl⟩ := run_calls cfg q ht fps hfps
    exact combine_near (run_loaded cfg q ht hi).index_le hf
  · exact combine_near ho.buffer.index_le hf

/-- **What a run that reaches no limit delivers**: every triple of the stream whose anchor is old enough for the
final call, wherever the batches were cut. -/
theorem delivered_iff (hmin : 1 ≤ cfg.minTimeDistance) (hshort : (blocks.length : Int) ≤ freeTime)
    (ht : Timely cfg blocks) (hw : Whole cfg blocks) (hu : Uncapped cfg q blocks) (f : Fingerprint V) :
    f ∈ Stream.delivered cfg q (Stream.run cfg q blocks) ↔
      ∃ x ∈ blocks.flatten, ∃ y ∈ blocks.flatten, ∃ z ∈ blocks.flatten, Triple cfg x y z ∧
        x.timeIndex ≤ blocks.length - cfg.maxTimeDistance ∧ f = fingerprint x y z := by
  by_cases hmax : 0 ≤ cfg.maxTimeDistance
  swap
  · -- no two points are near
    constructor
    · intro hf
      have := delivered_near ht.inTime hf
      omega
    · rintro ⟨x, _, y, _, z, _, htr, _⟩
      have := htr.1.1; have := htr.1.2.1
      omega
  have ho := run_ordered cfg q ht.inTime
  obtain ⟨c, hk⟩ := run_kept hmin hmax hshort ht hw hu.loop
  rw [ho.delivered, List.mem_append]
  constructor
  · rintro (hf | hf)
    · exact hk.sound f hf
    · obtain ⟨x, hx, y, hy, z, hz, htr, ha, rfl⟩ := combine_sound ho.buffer.index_le hf
      exact ⟨_, (hk.of_live hx).1, _, (hk.of_live hy).1, _, (hk.of_live hz).1, htr, ha, rfl⟩
  · rintro ⟨x, hx, y, hy, z, hz, htr, ha, rfl⟩
    by_cases hc : x.timeIndex ≤ c
    · exact Or.inl (hk.complete x hx y hy z hz htr hc)
    · exact Or.inr (hk.emits ho.buffer hu.last hmin ht.real hx hy hz htr (by omega) ha)

end Run

/-! ## Two thresholds -/

/-- `cfg` with another `eventPointThreshold`. -/
def withThreshold (cfg : Config V) (threshold : Int) : Config V := { cfg with eventPointThreshold := threshold }

/-- Runs on one stream that reach no limit deliver the same fingerprints, whatever the threshold. -/
def Indifferent (cfg : Config V) (q : QSort (EventPoint V) EventPoint.timeIndex) (blocks : List (List (EventPoint V))) :
    Prop :=
  ∀ threshold threshold' : Int, Uncapped (withThreshold cfg threshold) q blocks →
    Uncapped (withThreshold cfg threshold') q blocks → ∀ f,
      f ∈ Stream.delivered (withThreshold cfg threshold) q (Stream.run (withThreshold cfg threshold) q blocks) ↔
      f ∈ Stream.delivered (withThreshold cfg threshold') q (Stream.run (withThreshold cfg threshold') q blocks)

/-- No batch boundary can cut a combination: times stay below the mark of a free slot, points of one time do
not combine, and every combination is complete in time. -/
structure Seamless (cfg : Config V) (blocks : List (List (EventPoint V))) : Prop where
  short : (blocks.length : Int) ≤ freeTime
  order : 1 ≤ cfg.minTimeDistance
  whole : Whole cfg blocks

section Thresholds
variable {cfg : Config V} {q : QSort (EventPoint V) EventPoint.timeIndex} {blocks : List (List (EventPoint V))}
  {new : List (EventPoint V)}

omit [Sample V] in
/-- A block whose points all fit. -/
theorem addPoints_all (new : List (EventPoint V)) {eps : EventPoints V} (h : eps.Shaped cfg)
    (hroom : eps.eventPointIndex + new.length ≤ cfg.maxEventPoints) :
    (eps.addPoints cfg new).live = eps.live ++ new := by
  rw [(EventPoints.addPoints_live new h).1, List.take_of_length_le (by omega)]

/-- Above all points of the stream: everything is left to the final call. -/
theorem run_one_batch (ht : Timely cfg blocks) (hu : LoopUncapped cfg q blocks)
    (hbig : (blocks.flatten.length : Int) ≤ cfg.eventPointThreshold) :
    (Stream.run cfg q blocks).batches = [] ∧ (Stream.run cfg q blocks).eventPoints.live = blocks.flatten := by
  induction blocks using List.reverseRecOn with
  | nil => simp
  | append_singleton blocks new ih =>
    have hflat : (blocks ++ [new]).flatten = blocks.flatten ++ new := List.flatten_concat
    rw [hflat, List.length_append] at hbig
    obtain ⟨hb, hl⟩ := ih ht.init.1 hu.init.1 (by omega)
    have ho := run_ordered cfg q ht.init.1.inTime
    have hroom := hu.init.2.room
    have hlive := addPoints_all new ho.buffer.shaped (by omega)
    have hlen := (ho.loaded fun p hp => (ht.init.2 p hp).1).shaped.live_length
    rw [Stream.run_append, hflat]
    obtain ⟨_, he⟩ | ⟨hc, _⟩ := ho.step_cases q new
    · rw [he]
      exact ⟨hb, by rw [hlive, hl]⟩
    · -- a call needs more points than the stream has
      rw [hlive, hl, List.length_append] at hlen
      omega

/-- What the smallest batches do to a combination from time `x` to time `z` once a point of time `w` has arrived. -/
structure Cut (x w z : Int) (cfg : Config V) (b : Nat) (s : Stream V) : Prop where
  gone : w < b - cfg.halfFilterSizeTime → ∀ p ∈ s.eventPoints.live, x < p.timeIndex
  missed : ∀ f ∈ s.batches.flatten, f.timeIndex1 = x → f.timeIndex3 ≠ z

theorem Cut.step {x w z : Int} {b : Nat} {s : Stream V} (h : Cut x w z cfg b s) (ho : Ordered cfg b s)
    (hb : Below s.eventPoints) (hfree : (b : Int) < freeTime) (hzero : cfg.eventPointThreshold = 0)
    (hroom : s.eventPoints.eventPointIndex + new.length ≤ cfg.maxEventPoints)
    (hnew : ∀ p ∈ new, p.timeIndex = b - cfg.halfFilterSizeTime) (hmax : 0 ≤ cfg.maxTimeDistance)
    (hxw : x + cfg.maxTimeDistance ≤ w) (hwz : w < z) (hw : w = b - cfg.halfFilterSizeTime → new ≠ []) :
    Cut x w z cfg (b + 1) (Stream.step cfg q s new) := by
  have hloaded := ho.loaded hnew
  have hlive := addPoints_all new ho.buffer.shaped hroom
  have hn := hloaded.index_le
  have hlater : w < b - cfg.halfFilterSizeTime → ∀ p ∈ (s.eventPoints.addPoints cfg new).live, x < p.timeIndex := by
    intro hlt p hp
    rw [hlive] at hp
    rcases List.mem_append.1 hp with hp | hp
    · exact h.gone hlt p hp
    · rw [hnew p hp]; omega
  obtain ⟨hc, he⟩ | ⟨hc, he⟩ := ho.step_cases q new <;> rw [he]
  · -- the buffer is empty
    have hnil : (s.eventPoints.addPoints cfg new).live = [] := by
      rw [EventPoints.live, show (s.eventPoints.addPoints cfg new).eventPointIndex = 0 by omega, List.take_zero]
    exact ⟨fun _ p hp => by simp [hnil] at hp, h.missed⟩
  refine ⟨fun hlt p hp => ?_, fun f hf hx => ?_⟩
  · have hadd := (ho.below_add hnew hb hfree).combined cfg [] b hn
    have hperm := (compact_live (q := q) (hloaded.combine [] b).shaped hadd).1
    obtain ⟨hmem, hkept⟩ := List.mem_filter.1 (hperm.mem_iff.1 hp)
    have hcut : cutoffTime cfg (s.eventPoints.addPoints cfg new) < p.timeIndex := by
      rw [combined_cutoff cfg [] b hn, Bool.not_eq_true', ← Bool.not_eq_true, evicted_iff] at hkept
      omega
    rcases lt_or_ge w (b - cfg.halfFilterSizeTime) with hw' | hw'
    · obtain ⟨p', hp', hag⟩ := combined_live hn hmem
      rw [hag.time]; exact hlater hw' p' hp'
    · -- the point of time `w` has just arrived and gives the cutoff
      push_cast at hlt
      obtain ⟨p', hp'⟩ := List.exists_mem_of_ne_nil _ (hw (by omega))
      have hle := hloaded.le_cutoff (hlive ▸ List.mem_append_right _ hp' : p' ∈ _)
      rw [hnew p' hp'] at hle
      omega
  · rw [List.flatten_concat] at hf
    rcases List.mem_append.1 hf with hf | hf
    · exact h.missed f hf hx
    · obtain ⟨x', hx', _, _, z', hz', _, _, rfl⟩ := combine_sound hn hf
      have hz := hloaded.live z' hz'
      rcases lt_or_ge w (b - cfg.halfFilterSizeTime) with hw' | hw'
      · have hne := hlater hw' x' hx'
        have hx : x'.timeIndex = x := hx
        omega
      · exact fun hzz : z'.timeIndex = z => by omega

theorem run_cut {x w z : Int} (ht : Timely cfg blocks) (hshort : (blocks.length : Int) ≤ freeTime)
    (hu : LoopUncapped cfg q blocks) (hzero : cfg.eventPointThreshold = 0) (hmax : 0 ≤ cfg.maxTimeDistance)
    (hxw : x + cfg.maxTimeDistance ≤ w) (hwz : w < z) (hhalf : -cfg.halfFilterSizeTime ≤ w)
    (hw : w < blocks.length - cfg.halfFilterSizeTime → ∃ p ∈ blocks.flatten, p.timeIndex = w) :
    Cut x w z cfg blocks.length (Stream.run cfg q blocks) := by
  induction blocks using List.reverseRecOn with
  | nil =>
    refine ⟨fun h => ?_, by simp⟩
    simp only [List.length_nil] at h; omega
  | append_singleton blocks new ih =>
    rw [List.length_append, List.length_singleton] at hshort hw ⊢
    have hflat : (blocks ++ [new]).flatten = blocks.flatten ++ new := List.flatten_concat
    rw [hflat] at hw
    have hlast := ht.init.2
    have hroom := hu.init.2.room
    have ho := run_ordered cfg q ht.init.1.inTime
    have hb := run_below cfg q ht.init.1.inTime (by omega)
    rw [Stream.run_append]
    refine (ih ht.init.1 (by omega) hu.init.1 fun hlt => ?_).step ho hb (by omega) hzero (by omega)
      (fun p hp => (hlast p hp).1) hmax hxw hwz fun hwb hnil => ?_
    · obtain ⟨p, hp, rfl⟩ := hw (by omega)
      refine ⟨p, (List.mem_append.1 hp).resolve_right fun hpn => ?_, rfl⟩
      have := (hlast p hpn).1; omega
    · obtain ⟨p, hp, rfl⟩ := hw (by omega)
      rw [hnil, List.append_nil] at hp
      have := (ht.init.1.inTime.mem hp).2; omega

/-- A run in one batch delivers every triple whose anchor is old enough for the final call. -/
theorem one_batch_delivers (hmin : 1 ≤ cfg.minTimeDistance) (ht : Timely cfg blocks) (hu : Uncapped cfg q blocks)
    (hbig : (blocks.flatten.length : Int) ≤ cfg.eventPointThreshold) {x y z : EventPoint V} (hx : x ∈ blocks.flatten)
    (hy : y ∈ blocks.flatten) (hz : z ∈ blocks.flatten) (htr : Triple cfg x y z)
    (ha : x.timeIndex ≤ blocks.length - cfg.maxTimeDistance) :
    fingerprint x y z ∈ Stream.delivered cfg q (Stream.run cfg q blocks) := by
  have ho := run_ordered cfg q ht.inTime
  have hl := (run_one_batch ht hu.loop hbig).2
  rw [ho.delivered, List.mem_append]
  refine Or.inr (combine_complete ho.buffer hu.last hmin ?_ (hl ▸ hx) (hl ▸ hy) (hl ▸ hz) htr ha)
  rw [hl]; exact ht.real

/-- A run in the smallest batches does not deliver a triple that is still open when its anchor is dropped. -/
theorem smallest_batches_miss (ht : Timely cfg blocks) (hshort : (blocks.length : Int) ≤ freeTime)
    (hu : LoopUncapped cfg q blocks) (hzero : cfg.eventPointThreshold = 0) (hmax : 0 ≤ cfg.maxTimeDistance)
    {x z : Int} {w : EventPoint V} (hw : w ∈ blocks.flatten) (hxw : x + cfg.maxTimeDistance ≤ w.timeIndex)
    (hwz : w.timeIndex < z) {f : Fingerprint V} (hf : f ∈ Stream.delivered cfg q (Stream.run cfg q blocks)) :
    f.timeIndex1 = x → f.timeIndex3 ≠ z := by
  have ho := run_ordered cfg q ht.inTime
  have hwt := ht.inTime.mem hw
  have hcut := run_cut ht hshort hu hzero hmax hxw hwz (by omega) fun _ => ⟨w, hw, rfl⟩
  rw [ho.delivered, List.mem_append] at hf
  rcases hf with hf | hf
  · exact hcut.missed f hf
  · obtain ⟨x', hx', _, _, z', _, _, _, rfl⟩ := combine_sound ho.buffer.index_le hf
    intro hx
    have hgone := hcut.gone (by omega) x' hx'
    have hx : x'.timeIndex = x := hx
    omega

/-- **The threshold has no effect on a stream without a combination that is open across a boundary, and only
there**: where the threshold `0` and one that all points fit under reach no limit, it has an effect on every
other stream. -/
theorem batching_iff (cfg : Config V) (q : QSort (EventPoint V) EventPoint.timeIndex) (S : EventStream cfg) :
    (Seamless cfg S.blocks → Indifferent cfg q S.blocks) ∧
    ((S.blocks.length : Int) ≤ freeTime → 1 ≤ cfg.minTimeDistance → Uncapped (withThreshold cfg 0) q S.blocks →
      Uncapped (withThreshold cfg S.blocks.flatten.length) q S.blocks →
      Indifferent cfg q S.blocks → Whole cfg S.blocks) := by
  have ht : ∀ threshold, Timely (withThreshold cfg threshold) S.blocks := fun _ =>
    ⟨S.timely.time, S.timely.unused, S.timely.real⟩
  refine ⟨fun hs threshold threshold' hu hu' f => ?_, fun hshort hmin hu0 hu1 hsame => ?_⟩
  · have hs' : ∀ threshold, Seamless (withThreshold cfg threshold) S.blocks := fun _ => ⟨hs.short, hs.order, hs.whole⟩
    rw [delivered_iff (hs' _).order hs.short (ht threshold) (hs' _).whole hu f,
      delivered_iff (hs' _).order hs.short (ht threshold') (hs' _).whole hu' f]
    rfl
  · intro x hx y hy z hz htr ha w hw hxw
    by_contra hwz
    have hmax : 0 ≤ cfg.maxTimeDistance := by have := htr.1.1; have := htr.1.2.1; omega
    have hmin' : 1 ≤ (withThreshold cfg S.blocks.flatten.length).minTimeDistance := hmin
    have hdel := one_batch_delivers hmin' (ht _) hu1 (Int.le_refl _) hx hy hz htr ha
    have hmax' : 0 ≤ (withThreshold cfg 0).maxTimeDistance := hmax
    exact smallest_batches_miss (ht 0) hshort hu0.loop rfl hmax' hw hxw (Int.not_le.1 hwz)
      ((hsame _ _ hu1 hu0 _).1 hdel) rfl rfl

end Thresholds

/-! ## A combination and a point between its last two -/

/-- Three points that combine, and a point of another bin in block `w`. -/
def interrupted (w : Nat) : List (List (EventPoint ℚ)) :=
  (List.range 84).map fun b =>
    if b = 23 then [⟨10, 11, 1, 0⟩] else if b = 53 then [⟨20, 41, 1, 0⟩] else if b = 83 then [⟨30, 71, 1, 0⟩]
    else if b = w then [⟨200, w - 12, 1, 0⟩] else []

theorem interrupted_timely {w : Nat} (h : w = 30 ∨ w = 62) : Timely (.default ℚ) (interrupted w) := by
  refine ⟨fun b new hnew => ?_, ?_, ?_⟩
  · have hb : b < 84 := by simpa [interrupted] using (List.getElem?_eq_some_iff.1 hnew).1
    have hall : ∀ b, b < 84 → ∀ p ∈ (interrupted w).getD b [],
        p.timeIndex = b - (Config.default ℚ).halfFilterSizeTime := by
      rcases h with rfl | rfl <;> decide +kernel
    have := hall b hb
    rwa [List.getD_eq_getElem?_getD, hnew, Option.getD_some] at this
  · rcases h with rfl | rfl <;> decide +kernel
  · unfold EmptyPoint
    rcases h with rfl | rfl <;> decide +kernel

/-- In block 30 the point comes less than `maxTimeDistance` after the first of the three. -/
def closedStream : EventStream (.default ℚ) := ⟨interrupted 30, interrupted_timely (.inl rfl)⟩

/-- In block 62 it comes later than that and before the last. -/
def openStream : EventStream (.default ℚ) := ⟨interrupted 62, interrupted_timely (.inr rfl)⟩

theorem openStream_uncapped {threshold : Int} (h : threshold = 0 ∨ threshold = 4 ∨ threshold = 30) :
    Uncapped (withThreshold (.default ℚ) threshold) (.insertion _ EventPoint.timeIndex) openStream.blocks := by
  have hcalls : ∀ i, i < openStream.blocks.length →
      let eps := (Stream.run (withThreshold (.default ℚ) threshold) (.insertion _ EventPoint.timeIndex)
        (openStream.blocks.take i)).eventPoints.addPoints (withThreshold (.default ℚ) threshold) (openStream.blocks.getD i [])
      (combine (withThreshold (.default ℚ) threshold) eps [] i).fingerprints.length < 300 ∧
        ∀ p ∈ (combined (withThreshold (.default ℚ) threshold) eps [] i).live, p.usages < 10 := by
    rcases h with rfl | rfl | rfl <;> decide +kernel
  refine ⟨⟨?_, fun i hi _ => ⟨(hcalls i hi).1, (hcalls i hi).2⟩⟩, ?_, ?_⟩ <;>
    rcases h with rfl | rfl | rfl <;> decide +kernel

/-- The threshold has no effect on the first stream and an effect on the second. -/
theorem batching_iff_interrupted :
    Indifferent (.default ℚ) (.insertion _ EventPoint.timeIndex) closedStream.blocks ∧
      ¬ Indifferent (.default ℚ) (.insertion _ EventPoint.timeIndex) openStream.blocks := by
  constructor
  · refine (batching_iff _ _ closedStream).1 ⟨by decide +kernel, by decide, ?_⟩
    unfold Whole Triple Near
    decide +kernel
  · intro h
    have hwhole := (batching_iff _ _ openStream).2 (by decide +kernel) (by decide) (openStream_uncapped (.inl rfl))
      (openStream_uncapped (.inr (.inl rfl))) h
    revert hwhole
    unfold Whole Triple Near
    decide +kernel

/-- The default threshold delivers the combination, the threshold `0` drops its anchor at block 62. -/
theorem open_combination_lost :
    ¬ ∀ S : EventStream (.default ℚ), Indifferent (.default ℚ) (.insertion _ EventPoint.timeIndex) S.blocks := by
  intro h
  have hsame := h openStream 30 0 (openStream_uncapped (.inr (.inr rfl))) (openStream_uncapped (.inl rfl))
    (fingerprint ⟨10, 11, 1, 0⟩ ⟨20, 41, 1, 0⟩ ⟨30, 71, 1, 0⟩)
  revert hsame
  decide +kernel

end Olaf.StreamProcessor
