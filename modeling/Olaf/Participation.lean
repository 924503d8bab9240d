import Olaf.Repeats
import Olaf.UsageCap
/-!
# The usage cap over a run

The counter of an event point is exact: in every state of a run it is the number of fingerprints so far that the point is
part of (`run_counted`). But the cap is only tested before a loop is entered, the anchor's and the second point's counters not
at all while the inner loop raises them. So a run respects the cap if and only if no call ever had more to combine than the cap
leaves (`usage_cap_iff`); `crowd_uses_often` is a run of the default configuration that uses one point 29 times.
-/

namespace Olaf.StreamProcessor
open FpExtractor Sorting EpExtractor Growing

variable {V : Type} [Sample V]

/-- How many fingerprints an event point is part of. -/
def participations (k : Int × Int) (fps : List (Fingerprint V)) : Nat :=
  fps.countP fun f => (combination f).1 = k ∨ (combination f).2.1 = k ∨ (combination f).2.2 = k

section Counting
variable {cfg : Config V} {eps : EventPoints V} {b : Int} {k : Int × Int} {fps fps' : List (Fingerprint V)}

omit [Sample V] in
theorem participations_append : participations k (fps ++ fps') = participations k fps + participations k fps' :=
  List.countP_append

omit [Sample V] in
theorem participations_eq_zero (h : ∀ f ∈ fps, (combination f).1 ≠ k ∧ (combination f).2.1 ≠ k ∧ (combination f).2.2 ≠ k) :
    participations k fps = 0 := by
  apply List.countP_eq_zero.2
  intro f hf
  simpa using h f hf

/-- The fingerprints with a live point are the combinations with its slot. -/
theorem participations_combos (hn : eps.eventPointIndex ≤ eps.eventPoints.length) (hk : (eps.live.map key).Nodup)
    {L : List Combo} (hL : ∀ c ∈ L, c.1 < eps.eventPointIndex ∧ c.2.1 < eps.eventPointIndex ∧ c.2.2 < eps.eventPointIndex)
    {m : Nat} (hm : m < eps.eventPointIndex) :
    participations (key (point eps.eventPoints m)) (L.map (fingerprintOf eps.eventPoints)) = hits m L := by
  rw [participations, List.countP_map, hits]
  apply List.countP_congr
  intro c hc
  obtain ⟨h1, h2, h3⟩ := hL c hc
  have hslot : ∀ m', m' < eps.eventPointIndex →
      (key (point eps.eventPoints m') = key (point eps.eventPoints m) ↔ m' = m) := fun m' hm' =>
    ⟨slot_of_key hn hk hm' hm, fun h => h ▸ rfl⟩
  simp only [Function.comp_apply, decide_eq_true_eq]
  exact or_congr (hslot _ h1) (or_congr (hslot _ h2) (hslot _ h3))

/-- A call only makes fingerprints of live points. -/
theorem participations_combine (hn : eps.eventPointIndex ≤ eps.eventPoints.length) (hout : k ∉ eps.live.map key) :
    participations k (combine cfg eps [] b).fingerprints = 0 := by
  apply participations_eq_zero
  intro f hf
  obtain ⟨c, hc, rfl⟩ := mem_combine hn hf
  have hlt := hc.lt
  have hle := hc.le
  have hb := hc.bound
  have hlive : ∀ m, m < eps.eventPointIndex → key (point eps.eventPoints m) ≠ k := fun m hm he =>
    hout (he ▸ key_mem_live hn hm)
  exact ⟨hlive c.1 (by omega), hlive c.2.1 (by omega), hlive c.2.2 hb⟩

/-- What a call adds to the counter of a slot is what it adds to the participations of its point. -/
theorem combine_usages (hn : eps.eventPointIndex ≤ eps.eventPoints.length) (hk : (keys eps).Nodup) {m : Nat}
    (hm : m < eps.eventPoints.length)
    (hheld : m < eps.eventPointIndex ∨ (point eps.eventPoints m).timeIndex ≠ freeTime) :
    (point (combine cfg eps [] b).eventPoints m).usages = (point eps.eventPoints m).usages +
      participations (key (point eps.eventPoints m)) (combine cfg eps [] b).fingerprints := by
  obtain ⟨h1, h2, h3⟩ := List.nodup_append.1 hk
  obtain ⟨L, he, _, hmay, _⟩ := combine_yields cfg eps [] b hn
  have hL : ∀ c ∈ L, c.1 < eps.eventPointIndex ∧ c.2.1 < eps.eventPointIndex ∧ c.2.2 < eps.eventPointIndex := by
    intro c hc
    have hlt := (hmay c hc).lt
    have hle := (hmay c hc).le
    have hb := (hmay c hc).bound
    omega
  rw [he.points m hm]
  by_cases hlive : m < eps.eventPointIndex
  · rw [he.fingerprints, List.nil_append, participations_combos hn h1 hL hlive]
    rfl
  · -- a spare slot takes no part
    have hnone : hits m L = 0 := by
      apply List.countP_eq_zero.2
      intro c hc
      have := hL c hc
      simp only [decide_eq_true_eq]
      omega
    have hspare : key (point eps.eventPoints m) ∈ (eps.spare.map key).filter fun k => decide (k.1 ≠ freeTime) := by
      refine List.mem_filter.2 ⟨List.mem_map_of_mem (mem_spare.2 ⟨m, by omega, hm, rfl⟩), ?_⟩
      exact decide_eq_true (hheld.resolve_left hlive)
    rw [hnone, participations_combine hn fun hin => h3 _ hin _ hspare rfl]
    rfl

end Counting

/-- The counters after the fingerprints `fps`. -/
structure Counted (fps : List (Fingerprint V)) (eps : EventPoints V) : Prop where
  keys : (keys eps).Nodup
  made : Made (fun p => p.usages = participations (key p) fps) eps

section Run
variable {cfg : Config V} {q : QSort (EventPoint V) EventPoint.timeIndex} {b : Nat} {s : Stream V}
  {eps : EventPoints V} {fps : List (Fingerprint V)} {new : List (EventPoint V)} {blocks : List (List (EventPoint V))}

omit [Sample V] in
/-- New points are in no fingerprint yet. -/
theorem Counted.loaded (h : Counted fps eps) {now : Int} (ho : InOrder cfg now eps) (hnow : now < b - cfg.halfFilterSizeTime)
    (hnew : Block cfg b new) (hpast : ∀ f ∈ fps, FromPoints (fun p => p.timeIndex < b - cfg.halfFilterSizeTime) f) :
    Counted fps (eps.addPoints cfg new) := by
  refine ⟨keys_addPoints ho hnow h.keys hnew, h.made.addPoints ho.shaped fun p hp => ?_⟩
  rw [hnew.unused p hp, participations_eq_zero fun f hf => ?_]
  · rfl
  · obtain ⟨x, y, z, hx, hy, hz, rfl⟩ := hpast f hf
    have ht := hnew.time p hp
    simp only [combination, fingerprint, key, ne_eq, Prod.mk.injEq]
    omega

/-- **A call counts what it emits.** -/
theorem Counted.combine (h : Counted fps eps) (hn : eps.eventPointIndex ≤ eps.eventPoints.length) (b : Int) :
    Counted (fps ++ (combine cfg eps [] b).fingerprints) (combined cfg eps [] b) := by
  have hs := combined_same cfg [] b hn
  have hslot : ∀ m, m < eps.eventPoints.length →
      (m < eps.eventPointIndex ∨ (point eps.eventPoints m).timeIndex ≠ freeTime) →
      (point eps.eventPoints m).usages = participations (key (point eps.eventPoints m)) fps →
      (point (combined cfg eps [] b).eventPoints m).usages = participations
        (key (point (combined cfg eps [] b).eventPoints m)) (fps ++ (FpExtractor.combine cfg eps [] b).fingerprints) := by
    intro m hm hheld hu
    have hag := hs.agree m
    have hkey : key (point (combined cfg eps [] b).eventPoints m) = key (point eps.eventPoints m) :=
      Prod.ext hag.time hag.bin
    rw [hkey, participations_append, Nat.cast_add, ← hu]
    exact combine_usages hn h.keys hm hheld
  refine ⟨(keys_combined cfg hn [] b).2 ▸ h.keys, fun p hp => ?_, fun p hp => ?_⟩
  · obtain ⟨m, h1, h2, rfl⟩ := mem_live.1 hp
    have hm : m < eps.eventPoints.length := hs.length ▸ h2
    exact hslot m hm (Or.inl h1) (h.made.live _ (mem_live.2 ⟨m, h1, hm, rfl⟩))
  · obtain ⟨m, h1, h2, rfl⟩ := mem_spare.1 hp
    have hm : m < eps.eventPoints.length := hs.length ▸ h2
    by_cases hfree : (point eps.eventPoints m).timeIndex = freeTime
    · exact Or.inl ((hs.time m).trans hfree)
    · exact Or.inr (hslot m hm (Or.inr hfree) ((h.made.spare _ (mem_spare.2 ⟨m, h1, hm, rfl⟩)).resolve_left hfree))

theorem Counted.compact (h : Counted fps eps) (q : QSort (EventPoint V) EventPoint.timeIndex) :
    Counted fps (compact cfg q eps) := ⟨(keys_compact cfg q h.keys).1, h.made.compact q⟩

/-- The points of the fingerprints of a run are earlier than the next block. -/
theorem batches_past (ht : InTime cfg blocks) : ∀ f ∈ (Stream.run cfg q blocks).batches.flatten,
    FromPoints (fun p => p.timeIndex < blocks.length - cfg.halfFilterSizeTime) f :=
  batches_made (fun _ _ hag h => hag.time ▸ h) ht fun _ hp => (ht.mem hp).2

/-- **The counters of a run are exact.** -/
theorem run_counted (cfg : Config V) (q : QSort (EventPoint V) EventPoint.timeIndex) (ht : Timed cfg blocks) :
    Counted (Stream.run cfg q blocks).batches.flatten (Stream.run cfg q blocks).eventPoints := by
  induction blocks using List.reverseRecOn with
  | nil =>
    refine ⟨?_, made_init cfg _⟩
    rw [Stream.run_nil_eventPoints, keys_init]
    exact List.nodup_nil
  | append_singleton blocks new ih =>
    obtain ⟨ht, hnew⟩ := ht.init
    have ho := run_ordered cfg q ht.inTime
    have hl := (ih ht).loaded ho.buffer (by omega) hnew (batches_past ht.inTime)
    rw [Stream.run_append]
    obtain ⟨_, he⟩ | ⟨_, he⟩ := ho.step_cases q new <;> rw [he]
    · exact hl
    · rw [List.flatten_concat]
      exact (hl.combine (ho.loaded hnew.time).index_le blocks.length).compact q

/-- A call keeps to the cap exactly when its points are in no more fingerprints than that. -/
theorem Counted.withinCap_iff (h : Counted fps eps) {now : Int} (ho : InOrder cfg now eps) (b : Int) :
    WithinCap cfg eps b ↔ ∀ k ∈ eps.live.map key,
      (participations k (fps ++ (FpExtractor.combine cfg eps [] b).fingerprints) : Int) ≤ cfg.maxEventPointUsages := by
  have hn := ho.index_le
  rw [← combine_capped cfg eps b hn ho.slots]
  have husages : ∀ m, m < eps.eventPointIndex → (point (FpExtractor.combine cfg eps [] b).eventPoints m).usages =
      participations (key (point eps.eventPoints m)) (fps ++ (FpExtractor.combine cfg eps [] b).fingerprints) := by
    intro m hm
    have hm' : m < eps.eventPoints.length := by omega
    rw [combine_usages hn h.keys hm' (Or.inl hm), h.made.live _ (mem_live.2 ⟨m, hm, hm', rfl⟩), participations_append,
      Nat.cast_add]
  constructor
  · intro hcap k hk
    obtain ⟨p, hp, rfl⟩ := List.mem_map.1 hk
    obtain ⟨m, hm, _, rfl⟩ := mem_live.1 hp
    rw [← husages m hm]
    exact hcap m hm
  · intro hcap m hm
    rw [husages m hm]
    exact hcap _ (key_mem_live hn hm)

/-- A call within the cap brings no point beyond it. -/
theorem Counted.capped (h : Counted fps eps) {now : Int} (ho : InOrder cfg now eps) {b : Int} (hcap : WithinCap cfg eps b)
    (hold : ∀ k, (participations k fps : Int) ≤ cfg.maxEventPointUsages) (k : Int × Int) :
    (participations k (fps ++ (FpExtractor.combine cfg eps [] b).fingerprints) : Int) ≤ cfg.maxEventPointUsages := by
  by_cases hk : k ∈ eps.live.map key
  · exact (h.withinCap_iff ho b).1 hcap k hk
  · rw [participations_append, participations_combine ho.index_le hk]
    exact hold k

/-- The state of a run at a call: its counters, and its buffer in order. -/
theorem run_call (cfg : Config V) (q : QSort (EventPoint V) EventPoint.timeIndex) (ht : Timed cfg (blocks ++ [new])) :
    Counted (Stream.run cfg q blocks).batches.flatten ((Stream.run cfg q blocks).eventPoints.addPoints cfg new) ∧
      InOrder cfg (blocks.length - cfg.halfFilterSizeTime) ((Stream.run cfg q blocks).eventPoints.addPoints cfg new) := by
  obtain ⟨ht, hnew⟩ := ht.init
  have ho := run_ordered cfg q ht.inTime
  exact ⟨(run_counted cfg q ht).loaded ho.buffer (by omega) hnew (batches_past ht.inTime), ho.loaded hnew.time⟩

/-- **A run whose calls keep within the cap uses no point more often.** -/
theorem run_capped (cfg : Config V) (q : QSort (EventPoint V) EventPoint.timeIndex) (ht : Timed cfg blocks)
    (hmax : 0 ≤ cfg.maxEventPointUsages)
    (hcalls : ∀ i new, blocks[i]? = some new →
      (((Stream.run cfg q (blocks.take i)).eventPoints.addPoints cfg new).eventPointIndex : Int) > cfg.eventPointThreshold →
      WithinCap cfg ((Stream.run cfg q (blocks.take i)).eventPoints.addPoints cfg new) i) :
    ∀ k, (participations k (Stream.run cfg q blocks).batches.flatten : Int) ≤ cfg.maxEventPointUsages := by
  induction blocks using List.reverseRecOn with
  | nil => exact fun k => hmax
  | append_singleton blocks new ih =>
    obtain ⟨hinit, hlast⟩ := (each_concat (P := fun i before ps =>
      (((Stream.run cfg q before).eventPoints.addPoints cfg ps).eventPointIndex : Int) > cfg.eventPointThreshold →
        WithinCap cfg ((Stream.run cfg q before).eventPoints.addPoints cfg ps) i)).1 hcalls
    have hold := ih ht.init.1 hinit
    obtain ⟨hcounted, hbuffer⟩ := run_call cfg q ht
    rw [Stream.run_append]
    obtain ⟨_, he⟩ | ⟨hcall, he⟩ := (run_ordered cfg q ht.init.1.inTime).step_cases q new <;> rw [he]
    · exact hold
    · intro k
      rw [List.flatten_concat]
      exact hcounted.capped hbuffer (hlast hcall) hold k

/-- What a run has delivered stays delivered. -/
theorem run_prefix (cfg : Config V) (q : QSort (EventPoint V) EventPoint.timeIndex) (ht : InTime cfg blocks) (i : Nat) :
    (Stream.run cfg q (blocks.take i)).batches <+: (Stream.run cfg q blocks).batches := by
  induction blocks using List.reverseRecOn with
  | nil => simp only [List.take_nil, List.prefix_rfl]
  | append_singleton blocks new ih =>
    rcases Nat.lt_or_ge blocks.length i with hi | hi
    · have hall : (blocks ++ [new]).length ≤ i := by
        rw [List.length_append, List.length_singleton]
        omega
      simp only [List.take_of_length_le hall, List.prefix_rfl]
    · rw [List.take_append_of_le_length hi]
      refine (ih ht.init.1).trans ?_
      rw [Stream.run_append]
      obtain ⟨_, he⟩ | ⟨_, he⟩ := (run_ordered cfg q ht.init.1).step_cases q new
      · simp only [he, List.prefix_rfl]
      · simp only [he, List.prefix_append]

omit [Sample V] in
theorem participations_sublist {k : Int × Int} {fps fps' : List (Fingerprint V)} (h : fps.Sublist fps') :
    participations k fps ≤ participations k fps' := h.countP_le

/-- What a call of a run has in hand is part of what the run delivers. -/
theorem call_delivered (ht : Timed cfg blocks) {i : Nat} (hi : blocks[i]? = some new)
    (hcall : (((Stream.run cfg q (blocks.take i)).eventPoints.addPoints cfg new).eventPointIndex : Int) >
      cfg.eventPointThreshold) :
    ((Stream.run cfg q (blocks.take i)).batches.flatten ++ (FpExtractor.combine cfg
      ((Stream.run cfg q (blocks.take i)).eventPoints.addPoints cfg new) [] i).fingerprints).Sublist
        (Stream.delivered cfg q (Stream.run cfg q blocks)) := by
  have hlt := (List.getElem?_eq_some_iff.1 hi).1
  have ho := run_ordered cfg q (ht.inTime.take i)
  rw [List.length_take, Nat.min_eq_left (by omega)] at ho
  have hnext := run_prefix cfg q ht.inTime (i + 1)
  rw [List.take_add_one, hi, Option.toList_some, Stream.run_append] at hnext
  obtain ⟨h, _⟩ | ⟨_, he⟩ := ho.step_cases q new
  · omega
  · rw [he] at hnext
    obtain ⟨rest, hrest⟩ := hnext
    rw [Stream.delivered, ← hrest, List.flatten_append, List.flatten_concat, List.append_assoc]
    exact List.sublist_append_left _ _

/-- **When a run on event points respects the cap.** -/
theorem delivered_within_iff (cfg : Config V) (q : QSort (EventPoint V) EventPoint.timeIndex) (ht : Timed cfg blocks) :
    (∀ p ∈ blocks.flatten,
      (participations (key p) (Stream.delivered cfg q (Stream.run cfg q blocks)) : Int) ≤ cfg.maxEventPointUsages) ↔
    (∀ p ∈ blocks.flatten, 0 ≤ cfg.maxEventPointUsages) ∧
      (∀ i new, blocks[i]? = some new →
        (((Stream.run cfg q (blocks.take i)).eventPoints.addPoints cfg new).eventPointIndex : Int) > cfg.eventPointThreshold →
        WithinCap cfg ((Stream.run cfg q (blocks.take i)).eventPoints.addPoints cfg new) i) ∧
      WithinCap cfg (Stream.run cfg q blocks).eventPoints blocks.length := by
  have ho := run_ordered cfg q ht.inTime
  constructor
  · intro hall
    -- every key in the buffer is one of the run
    have hmade : ∀ i, Made (fun p => ∃ p' ∈ blocks.flatten, key p' = key p) (Stream.run cfg q (blocks.take i)).eventPoints :=
      fun i => by
        refine run_made (fun p p' hag ⟨p0, hp0, he⟩ => ⟨p0, hp0, he.trans (Prod.ext hag.time hag.bin).symm⟩) (ht.inTime.take i)
          fun p hp => ⟨p, ?_, rfl⟩
        obtain ⟨ps, hps, hp⟩ := List.mem_flatten.1 hp
        exact List.mem_flatten_of_mem (List.mem_of_mem_take hps) hp
    have hcap : ∀ {k fps}, (∃ p ∈ blocks.flatten, key p = k) →
        fps.Sublist (Stream.delivered cfg q (Stream.run cfg q blocks)) →
        (participations k fps : Int) ≤ cfg.maxEventPointUsages := by
      rintro _ fps ⟨p, hp, rfl⟩ hsub
      have := participations_sublist (k := key p) hsub
      have := hall p hp
      omega
    refine ⟨fun p hp => Int.le_trans (Int.natCast_nonneg _) (hall p hp), fun i new hi hcall => ?_, ?_⟩
    · have hlt := (List.getElem?_eq_some_iff.1 hi).1
      have hti : Timed cfg (blocks.take i ++ [new]) := by
        have := ht.take (i + 1)
        rwa [List.take_add_one, hi, Option.toList_some] at this
      obtain ⟨hcounted, hbuffer⟩ := run_call cfg q hti
      have hm := (hmade i).addPoints (run_ordered cfg q (ht.inTime.take i)).buffer.shaped fun p hp =>
        ⟨p, List.mem_flatten_of_mem (List.mem_of_getElem? hi) hp, rfl⟩
      apply (hcounted.withinCap_iff hbuffer i).2
      intro k hk
      obtain ⟨p, hp, rfl⟩ := List.mem_map.1 hk
      exact hcap (hm.live p hp) (call_delivered ht hi hcall)
    · have hm := hmade blocks.length
      rw [List.take_length] at hm
      apply ((run_counted cfg q ht).withinCap_iff ho.buffer _).2
      intro k hk
      obtain ⟨p, hp, rfl⟩ := List.mem_map.1 hk
      exact hcap (hm.live p hp) (by rw [ho.delivered])
  · rintro ⟨h0, hcalls, hlast⟩ p hp
    rw [ho.delivered]
    exact (run_counted cfg q ht).capped ho.buffer hlast (run_capped cfg q ht (h0 p hp) hcalls) (key p)

/-- **When a run respects the cap**: exactly when, at every call, what was used so far and what is admitted together leave
every buffered point within it. -/
theorem usage_cap_iff (cfg : Config V) (q : QSort (EventPoint V) EventPoint.timeIndex) (frames : List (Frame V)) :
    (∀ p ∈ (detected cfg frames).flatten,
      (participations (key p) ((loop cfg q collect [] frames).sink.flatten ++
        ((finish cfg q (loop cfg q collect [] frames)).fingerprints.getD [])) : Int) ≤ cfg.maxEventPointUsages) ↔
    (∀ p ∈ (detected cfg frames).flatten, 0 ≤ cfg.maxEventPointUsages) ∧
      (∀ i fr, frames[i]? = some fr →
        let eps := (EpExtractor.extract cfg (loop cfg q collect [] (frames.take i)).epExtractor fr i).eventPoints
        eps.eventPointIndex > cfg.eventPointThreshold → WithinCap cfg eps i) ∧
      WithinCap cfg (loop cfg q collect [] frames).epExtractor.eventPoints frames.length := by
  rw [loop_delivered, delivered_within_iff cfg q (detected_timed cfg frames), detected_length, loop_eventPoints]
  refine and_congr_right fun _ => and_congr_left fun _ => ?_
  exact each_call cfg q collect [] frames fun i eps => (eps.eventPointIndex : Int) > cfg.eventPointThreshold → WithinCap cfg eps i

end Run

/-! ## A crowd of points -/

/-- Two points and, 19 frames later, 29 that each combine with both. -/
def crowd : List (List Nat) :=
  (List.range 45).map fun k => if k = 12 then [200] else if k = 14 then [210] else if k = 33 then List.range' 220 29 else []

/-- The first of the two becomes part of 29 fingerprints, with a cap of ten. -/
theorem crowd_uses_often :
    ¬ ∀ p ∈ (detected (.default ℚ) (crowd.map impulses)).flatten,
      (participations (key p) ((loop (.default ℚ) (.insertion _ _) collect [] (crowd.map impulses)).sink.flatten ++
        ((finish (.default ℚ) (.insertion _ _)
          (loop (.default ℚ) (.insertion _ _) collect [] (crowd.map impulses))).fingerprints.getD [])) : Int) ≤
            (Config.default ℚ).maxEventPointUsages := by
  rw [loop_delivered, detected_impulses]
  decide +kernel

end Olaf.StreamProcessor
