import Olaf.Repeats
/-!
# When the event point buffer discards a point

A point found while the buffer is full is ignored. Room is made by `olaf_fp_extractor_extract` only, and
its cutoff lies `maxTimeDistance` before the *last buffered* point: once the buffer is full of points that
are never combined, no later point gets in, so the cutoff never moves and nothing is ever dropped
(`Jammed.step`).

Room is made as long as a point of every block gets in. The call that follows leaves no more points than are later than its
cutoff (`Held.step`), and these are within reach of the next block unless the stream has event points in between (`Recent.step`).
So a run never discards a point for one out of reach if its event points are few enough (`Sparse`) or, where a block finds too
little room, near enough (`Steady`): `noJam_of_sparse`.
-/

namespace Olaf.StreamProcessor
open FpExtractor Sorting EpExtractor Growing

variable {V : Type} [Sample V] {σ : Type}

/-- While the points `new` of a block are added, one is discarded only when all slots hold points at most
`maxTimeDistance` older than it. -/
def NoJam (cfg : Config V) (eps : EventPoints V) (new : List (EventPoint V)) : Prop :=
  ∀ before p after, new = before ++ p :: after → (eps.addPoints cfg before).eventPointIndex = cfg.maxEventPoints →
    (eps.addPoints cfg before).live.length = cfg.maxEventPoints ∧
      ∀ r ∈ (eps.addPoints cfg before).live, p.timeIndex - r.timeIndex ≤ cfg.maxTimeDistance

/-! ## What is asked of the event points -/

/-- How many event points are later than `t`. -/
def after (blocks : List (List (EventPoint V))) (t : Int) : Nat :=
  blocks.flatten.countP fun p => t < p.timeIndex

/-- The most slots that the blocks can leave taken: the cutoff of their last event point spares no more, unless they are
too few for a call. -/
def mostHeld (cfg : Config V) (blocks : List (List (EventPoint V))) : Nat :=
  match blocks.flatten.getLast? with
  | none => 0
  | some last => max (min cfg.eventPointThreshold.toNat blocks.flatten.length)
    (after blocks (last.timeIndex - cfg.maxTimeDistance))

/-- The next block has no more points than are left beside them. -/
def Sparse (cfg : Config V) (blocks : List (List (EventPoint V))) (new : List (EventPoint V)) : Prop :=
  new = [] ∨ mostHeld cfg blocks + new.length ≤ cfg.maxEventPoints

/-- A free slot is left for the next block, the last block with event points was followed by a call, and no event point
after the cutoff of that call is out of reach of the next block. -/
structure InReach (cfg : Config V) (blocks : List (List (EventPoint V))) (eps : EventPoints V) : Prop where
  room : eps.eventPointIndex < cfg.maxEventPoints
  distance : 0 ≤ cfg.maxTimeDistance
  called : ∀ last ∈ blocks.flatten.getLast?, cfg.eventPointThreshold < eps.eventPointIndex
  early : ∀ last ∈ blocks.flatten.getLast?, (blocks.length : Int) - cfg.halfFilterSizeTime ≤ freeTime
  reach : ∀ last ∈ blocks.flatten.getLast?, ∀ x ∈ blocks.flatten, x.timeIndex ≤ last.timeIndex - cfg.maxTimeDistance ∨
    (blocks.length : Int) - cfg.halfFilterSizeTime - cfg.maxTimeDistance ≤ x.timeIndex

/-- The next block fits in the free slots, or whatever may be left in the others is within reach of it. -/
def Steady (cfg : Config V) (blocks : List (List (EventPoint V))) (eps : EventPoints V) (new : List (EventPoint V)) : Prop :=
  eps.eventPointIndex + new.length ≤ cfg.maxEventPoints ∨ InReach cfg blocks eps

/-! ## What the buffer holds -/

section Held
variable {cfg : Config V} {q : QSort (EventPoint V) EventPoint.timeIndex} {blocks : List (List (EventPoint V))}
  {new : List (EventPoint V)} {eps : EventPoints V}

omit [Sample V] in
theorem after_append (blocks : List (List (EventPoint V))) (new : List (EventPoint V)) (t : Int) :
    after (blocks ++ [new]) t = after blocks t + new.countP fun p => t < p.timeIndex := by
  rw [after, List.flatten_concat, List.countP_append, after]

omit [Sample V] in
theorem mostHeld_le (cfg : Config V) (blocks : List (List (EventPoint V))) : mostHeld cfg blocks ≤ blocks.flatten.length := by
  unfold mostHeld
  split
  · exact Nat.zero_le _
  · exact Nat.max_le.2 ⟨Nat.min_le_right _ _, List.countP_le_length⟩

omit [Sample V] in
/-- A block without event points changes nothing. -/
theorem mostHeld_nil (cfg : Config V) (blocks : List (List (EventPoint V))) :
    mostHeld cfg (blocks ++ [[]]) = mostHeld cfg blocks := by
  simp only [mostHeld, after, List.flatten_concat, List.append_nil]

omit [Sample V] in
/-- The last event point after a block that has some. -/
theorem getLast_time (blocks : List (List (EventPoint V))) (hne : new ≠ []) {t : Int} (hnew : ∀ p ∈ new, p.timeIndex = t) :
    ∃ last, (blocks ++ [new]).flatten.getLast? = some last ∧ last.timeIndex = t := by
  refine ⟨new.getLast hne, ?_, hnew _ (List.getLast_mem hne)⟩
  rw [List.flatten_concat, List.getLast?_append, List.getLast?_eq_some_getLast hne, Option.some_or]

/-- The cutoff of a call after a block of which a point got into the buffer. -/
theorem loaded_cutoff (hs : eps.Shaped cfg) (hroom : eps.eventPointIndex < cfg.maxEventPoints) (hne : new ≠ []) {t : Int}
    (hnew : ∀ p ∈ new, p.timeIndex = t) : cutoffTime cfg (eps.addPoints cfg new) = t - cfg.maxTimeDistance := by
  obtain ⟨hlive, hidx, _⟩ := EventPoints.addPoints_live new hs
  have hlen := (hs.addPoints new).live_length
  have hpos := List.length_pos_iff.2 hne
  have hold := hs.live_length
  have hm : (eps.addPoints cfg new).eventPointIndex - 1 < (eps.addPoints cfg new).live.length := by omega
  rw [cutoffTime, point_live hm]
  -- the last live slot holds a point of the block
  have hmem : (eps.addPoints cfg new).live[(eps.addPoints cfg new).eventPointIndex - 1] ∈ new := by
    simp only [hlive]
    rw [List.getElem_append_right (by omega)]
    exact List.mem_of_mem_take (List.getElem_mem _)
  rw [hnew _ hmem]

/-- Taken slots are counted among the event points, and there are no more than the blocks can leave taken. -/
structure Held (cfg : Config V) (blocks : List (List (EventPoint V))) (eps : EventPoints V) : Prop where
  late : Late eps
  counted : ∀ t, eps.eventPoints.countP (fun p => t < p.timeIndex ∧ p.timeIndex ≠ freeTime) ≤ after blocks t
  most : eps.eventPointIndex ≤ mostHeld cfg blocks

theorem held_init (cfg : Config V) : Held cfg [] (.init cfg) := by
  have hfree : ∀ p ∈ (EventPoints.init cfg : EventPoints V).eventPoints, p.timeIndex = freeTime := fun p hp => by
    rw [List.eq_of_mem_replicate hp]; rfl
  refine ⟨fun p hp => Int.le_of_eq (hfree p (List.mem_of_mem_drop hp)).symm, fun t => ?_, Nat.le_refl _⟩
  rw [List.countP_eq_zero.2 fun p hp => by simp [hfree p hp]]
  exact Nat.zero_le _

omit [Sample V] in
theorem Held.counted_addPoints (h : Held cfg blocks eps) (hs : eps.Shaped cfg) (new : List (EventPoint V)) (t : Int) :
    (eps.addPoints cfg new).eventPoints.countP (fun p => t < p.timeIndex ∧ p.timeIndex ≠ freeTime) ≤
      after (blocks ++ [new]) t := by
  obtain ⟨hlive, _, hspare⟩ := EventPoints.addPoints_live new hs
  have hold := h.counted t
  rw [← EventPoints.live_append_spare, List.countP_append] at hold ⊢
  rw [hlive, List.countP_append, after_append]
  have hrest := hspare.countP_le (p := fun p => decide (t < p.timeIndex ∧ p.timeIndex ≠ freeTime))
  have htake := (List.take_sublist (cfg.maxEventPoints - eps.eventPointIndex) new).countP_le
    (p := fun p => decide (t < p.timeIndex ∧ p.timeIndex ≠ freeTime))
  have hnew : new.countP (fun p => decide (t < p.timeIndex ∧ p.timeIndex ≠ freeTime)) ≤
      new.countP fun p => decide (t < p.timeIndex) :=
    List.countP_mono_left fun p _ hp => by simp only [decide_eq_true_eq] at hp ⊢; exact hp.1
  omega

/-- The combination stage does not change the times. -/
theorem countP_combined (cfg : Config V) (fps : List (Fingerprint V)) (b : Int) (hn : eps.eventPointIndex ≤ eps.eventPoints.length)
    (P : Int → Bool) : (combined cfg eps fps b).eventPoints.countP (fun p => P p.timeIndex) =
      eps.eventPoints.countP fun p => P p.timeIndex := by
  obtain ⟨hlive, hspare⟩ := combined_map cfg fps b hn EventPoint.timeIndex fun _ _ hag => hag.time
  have hmap : (combined cfg eps fps b).eventPoints.map EventPoint.timeIndex = eps.eventPoints.map EventPoint.timeIndex := by
    rw [← EventPoints.live_append_spare, List.map_append, hlive, hspare, ← List.map_append, EventPoints.live_append_spare]
  have hcount := congrArg (List.countP P) hmap
  rwa [List.countP_map, List.countP_map] at hcount

/-- A call takes no slot. -/
theorem countP_compact (q : QSort (EventPoint V) EventPoint.timeIndex) (eps : EventPoints V) (t : Int) :
    (compact cfg q eps).eventPoints.countP (fun p => t < p.timeIndex ∧ p.timeIndex ≠ freeTime) ≤
      eps.eventPoints.countP fun p => t < p.timeIndex ∧ p.timeIndex ≠ freeTime := by
  rw [compact_eq, (q.perm _).countP_eq, marked, List.countP_append, List.countP_map, ← EventPoints.live_append_spare eps,
    List.countP_append]
  refine Nat.add_le_add_right (List.countP_mono_left fun p _ hp => ?_) _
  simp only [Function.comp_apply, decide_eq_true_eq] at hp ⊢
  rwa [(markOld_time hp.2).1] at hp

/-- The slots that a call leaves taken are later than its cutoff. -/
theorem compact_most (q : QSort (EventPoint V) EventPoint.timeIndex) (hs : eps.Shaped cfg) (hl : Late eps) :
    (compact cfg q eps).eventPointIndex ≤
      eps.eventPoints.countP fun p => cutoffTime cfg eps < p.timeIndex ∧ p.timeIndex ≠ freeTime := by
  refine (compact_late q hs hl).2.trans ?_
  have hkept : ∀ p ∈ (kept cfg eps).filter (fun p => p.timeIndex ≠ freeTime),
      decide (cutoffTime cfg eps < p.timeIndex ∧ p.timeIndex ≠ freeTime) = true := fun p hp => by
    obtain ⟨hp, hne⟩ := List.mem_filter.1 hp
    have hev := (List.mem_filter.1 hp).2
    simp only [Bool.not_eq_true', ← Bool.not_eq_true, evicted_iff, not_or, decide_eq_true_eq] at hev hne ⊢
    exact ⟨by omega, hne⟩
  rw [← List.countP_eq_length.2 hkept]
  exact ((List.filter_sublist.trans List.filter_sublist).trans (List.take_sublist _ _)).countP_le

/-- **One block**, of which a point gets into the buffer if it has any. -/
theorem Held.step {s : Stream V} (h : Held cfg blocks s.eventPoints) (ho : Ordered cfg blocks.length s)
    (hnew : ∀ p ∈ new, p.timeIndex = blocks.length - cfg.halfFilterSizeTime)
    (hroom : new = [] ∨ s.eventPoints.eventPointIndex < cfg.maxEventPoints) :
    Held cfg (blocks ++ [new]) (Stream.step cfg q s new).eventPoints := by
  have hs := ho.buffer.shaped
  have hload := ho.loaded hnew
  have hcounted := h.counted_addPoints hs new
  obtain ⟨_, hidx, hspare⟩ := EventPoints.addPoints_live new hs
  have hlate : Late (s.eventPoints.addPoints cfg new) := fun p hp => h.late p (hspare.mem hp)
  have hmost := h.most
  obtain ⟨hfew, he⟩ | ⟨_, he⟩ := ho.step_cases q new <;> rw [he]
  · refine ⟨hlate, hcounted, ?_⟩
    rcases eq_or_ne new [] with rfl | hne
    · rw [mostHeld_nil]
      exact hmost
    · obtain ⟨last, hlast, _⟩ := getLast_time blocks hne hnew
      have htotal := mostHeld_le cfg blocks
      simp only [mostHeld, hlast]
      refine le_max_of_le_left (le_min ?_ ?_)
      · omega
      · rw [List.flatten_concat, List.length_append]
        omega
  · have hn := hload.index_le
    have hcs := (hload.combine [] blocks.length).shaped
    have hclate : Late (combined cfg (s.eventPoints.addPoints cfg new) [] blocks.length) := fun p hp => by
      obtain ⟨p', hp', hag⟩ := combined_spare hn hp
      rw [hag.time]
      exact hlate p' hp'
    have hsame := fun t => countP_combined cfg [] blocks.length hn fun x => decide (t < x ∧ x ≠ freeTime)
    refine ⟨(compact_late q hcs hclate).1, fun t => ?_, ?_⟩
    · exact ((countP_compact q _ t).trans_eq (hsame t)).trans (hcounted t)
    · rcases eq_or_ne new [] with rfl | hne
      · rw [mostHeld_nil]
        exact (compact_spec cfg q _).index.trans hmost
      · obtain ⟨last, hlast, htime⟩ := getLast_time blocks hne hnew
        have hcut := loaded_cutoff hs (hroom.resolve_left hne) hne hnew
        have hkept := compact_most q hcs hclate
        rw [combined_cutoff cfg _ _ hn, hcut] at hkept
        have hkept := (hkept.trans_eq (hsame _)).trans (hcounted _)
        simp only [mostHeld, hlast, htime]
        exact le_max_of_le_right hkept

/-- What is left of the run after the last block with event points: the buffer made no call, or holds what its cutoff
spares. -/
structure Recent (cfg : Config V) (blocks : List (List (EventPoint V))) (eps : EventPoints V) : Prop where
  below : Below eps
  made : Made (fun p => ∃ x ∈ blocks.flatten, x.timeIndex = p.timeIndex) eps
  cut : ∀ last ∈ blocks.flatten.getLast?, (eps.eventPointIndex : Int) ≤ cfg.eventPointThreshold ∨
    ∀ p ∈ eps.live, last.timeIndex - cfg.maxTimeDistance < p.timeIndex

theorem recent_init (cfg : Config V) : Recent cfg [] (.init cfg) := by
  refine ⟨⟨by simp, fun p hp => ?_⟩, made_init cfg _, by simp⟩
  rw [EventPoints.spare_init] at hp
  rw [List.eq_of_mem_replicate hp]
  rfl

/-- **One block**, of which a point gets into the buffer if it has any. -/
theorem Recent.step {s : Stream V} (h : Recent cfg blocks s.eventPoints) (ho : Ordered cfg blocks.length s)
    (hnew : ∀ p ∈ new, p.timeIndex = blocks.length - cfg.halfFilterSizeTime)
    (hearly : (blocks.length : Int) - cfg.halfFilterSizeTime < freeTime)
    (hroom : new = [] ∨ s.eventPoints.eventPointIndex < cfg.maxEventPoints) :
    Recent cfg (blocks ++ [new]) (Stream.step cfg q s new).eventPoints := by
  have hs := ho.buffer.shaped
  have hload := ho.loaded hnew
  have hn := hload.index_le
  obtain ⟨hlive, _, hspare⟩ := EventPoints.addPoints_live new hs
  have hbelow : Below (s.eventPoints.addPoints cfg new) :=
    ⟨fun p hp => lt_of_le_of_lt (hload.live p hp) hearly, fun p hp => h.below.spare p (hspare.mem hp)⟩
  have hmade : Made (fun p => ∃ x ∈ (blocks ++ [new]).flatten, x.timeIndex = p.timeIndex)
      (s.eventPoints.addPoints cfg new) := by
    rw [List.flatten_concat]
    refine (h.made.mono fun p hp => ?_).addPoints hs fun p hp => ⟨p, List.mem_append_right _ hp, rfl⟩
    obtain ⟨x, hx, ht⟩ := hp
    exact ⟨x, List.mem_append_left _ hx, ht⟩
  obtain ⟨hfew, he⟩ | ⟨hmany, he⟩ := ho.step_cases q new <;> rw [he]
  · exact ⟨hbelow, hmade, fun _ _ => Or.inl hfew⟩
  · have hcs := (hload.combine [] blocks.length).shaped
    obtain ⟨hkept, hbelow'⟩ := compact_live (q := q) hcs (hbelow.combined cfg [] blocks.length hn)
    refine ⟨hbelow', (hmade.combine (fun p p' hag hp => hag.time ▸ hp) _ _ hn).compact q,
      fun last hlast => Or.inr fun p hp => ?_⟩
    obtain ⟨hpc, hev⟩ := List.mem_filter.1 (hkept.mem_iff.1 hp)
    rcases eq_or_ne new [] with rfl | hne
    · -- the buffer was above the threshold before, so the last call has spared what it holds
      rw [List.flatten_concat, List.append_nil] at hlast
      obtain ⟨p', hp', hag⟩ := combined_live hn hpc
      rw [hag.time]
      exact (h.cut last hlast).resolve_left (Int.not_le.2 hmany) p' hp'
    · obtain ⟨last', hlast', htime⟩ := getLast_time blocks hne hnew
      obtain rfl : last = last' := by rw [Option.mem_def, hlast', Option.some.injEq] at hlast; exact hlast.symm
      rw [combined_cutoff cfg _ _ hn, loaded_cutoff hs (hroom.resolve_left hne) hne hnew] at hev
      simp only [Bool.not_eq_true', ← Bool.not_eq_true, evicted_iff, not_or] at hev
      rw [htime]
      exact Int.not_le.1 hev.1

end Held

/-! ## Runs -/

section Run
variable {cfg : Config V} {q : QSort (EventPoint V) EventPoint.timeIndex} {blocks : List (List (EventPoint V))}
  {new : List (EventPoint V)}

omit [Sample V] in
theorem Sparse.fits {eps : EventPoints V} (h : Sparse cfg blocks new) (hheld : eps.eventPointIndex ≤ mostHeld cfg blocks)
    (hidx : eps.eventPointIndex ≤ cfg.maxEventPoints) : eps.eventPointIndex + new.length ≤ cfg.maxEventPoints := by
  rcases h with rfl | h
  · exact hidx
  · omega

omit [Sample V] in
theorem room_of_fits {eps : EventPoints V} (h : eps.eventPointIndex + new.length ≤ cfg.maxEventPoints) :
    new = [] ∨ eps.eventPointIndex < cfg.maxEventPoints := by
  refine or_iff_not_imp_left.2 fun hne => ?_
  have := List.length_pos_iff.2 hne
  omega

omit [Sample V] in
theorem Steady.room {eps : EventPoints V} (h : Steady cfg blocks eps new) :
    new = [] ∨ eps.eventPointIndex < cfg.maxEventPoints := h.elim room_of_fits fun h => Or.inr h.room

/-- **The buffer of a run on sparse blocks.** -/
theorem run_held (ht : InTime cfg blocks) (h : ∀ i new, blocks[i]? = some new → Sparse cfg (blocks.take i) new) :
    Held cfg blocks (Stream.run cfg q blocks).eventPoints := by
  induction blocks using List.reverseRecOn with
  | nil => exact held_init cfg
  | append_singleton blocks new ih =>
    obtain ⟨ht, hnew⟩ := ht.init
    obtain ⟨h, hlast⟩ := (each_concat (P := fun _ before new => Sparse cfg before new)).1 h
    have ho := run_ordered cfg q ht
    have hheld := ih ht h
    rw [Stream.run_append]
    exact hheld.step ho hnew (room_of_fits (hlast.fits hheld.most ho.buffer.shaped.idx))

/-- **The buffer of a run in a steady state**, as long as times are below the mark of free slots. -/
theorem run_recent (ht : InTime cfg blocks)
    (h : ∀ i new, blocks[i]? = some new → Steady cfg (blocks.take i) (Stream.run cfg q (blocks.take i)).eventPoints new)
    (hearly : (blocks.length : Int) - cfg.halfFilterSizeTime ≤ freeTime) :
    Recent cfg blocks (Stream.run cfg q blocks).eventPoints := by
  induction blocks using List.reverseRecOn with
  | nil => exact recent_init cfg
  | append_singleton blocks new ih =>
    obtain ⟨ht, hnew⟩ := ht.init
    obtain ⟨h, hlast⟩ := (each_concat
      (P := fun _ before new => Steady cfg before (Stream.run cfg q before).eventPoints new)).1 h
    rw [List.length_append, List.length_singleton] at hearly
    rw [Stream.run_append]
    exact (ih ht h (by omega)).step (run_ordered cfg q ht) hnew (by omega) hlast.room

omit [Sample V] in
/-- One block: what is left in the buffer is within reach of the points that find no room. -/
theorem Steady.noJam {s : Stream V} (h : Steady cfg blocks s.eventPoints new) (ho : Ordered cfg blocks.length s)
    (hnew : ∀ p ∈ new, p.timeIndex = blocks.length - cfg.halfFilterSizeTime)
    (hrecent : (blocks.length : Int) - cfg.halfFilterSizeTime ≤ freeTime → Recent cfg blocks s.eventPoints)
    (hfirst : blocks.flatten = [] → s.eventPoints.live = []) : NoJam cfg s.eventPoints new := by
  intro before p after hsplit hfull
  have hs := ho.buffer.shaped
  obtain ⟨hlive, hidx, _⟩ := EventPoints.addPoints_live before hs
  refine ⟨((hs.addPoints before).live_length).trans hfull, fun r hr => ?_⟩
  have hlen : new.length = before.length + (after.length + 1) := by rw [hsplit, List.length_append, List.length_cons]
  have hreach := h.resolve_left (by omega)
  have hp := hnew p (hsplit ▸ List.mem_append_right _ List.mem_cons_self)
  rw [hlive] at hr
  rcases List.mem_append.1 hr with hr | hr
  · -- an old point: the last call has spared it
    cases hlast : blocks.flatten.getLast? with
    | none =>
      rw [hfirst (List.getLast?_eq_none_iff.1 hlast)] at hr
      cases hr
    | some last =>
      have hrec := hrecent (hreach.early last hlast)
      have hcut := (hrec.cut last hlast).resolve_left (Int.not_le.2 (hreach.called last hlast)) r hr
      obtain ⟨x, hx, htime⟩ := hrec.made.live r hr
      have hwindow := hreach.reach last hlast x hx
      omega
  · -- a point of the same block
    have hr := hnew r (hsplit ▸ List.mem_append_left _ (List.mem_of_mem_take hr))
    have := hreach.distance
    omega

/-- A run without event points leaves the buffer empty. -/
theorem run_no_points (ht : InTime cfg blocks) (h : blocks.flatten = []) : (Stream.run cfg q blocks).eventPoints.live = [] := by
  have hsparse : ∀ i new, blocks[i]? = some new → Sparse cfg (blocks.take i) new := fun i new hi =>
    Or.inl (List.flatten_eq_nil_iff.1 h new (List.mem_of_getElem? hi))
  have hmost := (run_held (q := q) ht hsparse).most
  have hzero := mostHeld_le cfg blocks
  rw [h, List.length_nil] at hzero
  exact List.eq_nil_of_length_eq_zero (by rw [(run_ordered cfg q ht).buffer.shaped.live_length]; omega)

/-- **Runs on blocks in a steady state** never jam. -/
theorem run_noJam (ht : InTime cfg blocks)
    (h : ∀ i new, blocks[i]? = some new → Steady cfg (blocks.take i) (Stream.run cfg q (blocks.take i)).eventPoints new) :
    ∀ i new, blocks[i]? = some new → NoJam cfg (Stream.run cfg q (blocks.take i)).eventPoints new := by
  intro i new hi
  have hlt := (List.getElem?_eq_some_iff.1 hi).1
  have hlen : (blocks.take i).length = i := by rw [List.length_take]; omega
  have hti := ht.take i
  have hnew := ht i new hi
  rw [← hlen] at hnew
  exact (h i new hi).noJam (run_ordered cfg q hti) hnew (run_recent hti (each_take
    (P := fun _ before new => Steady cfg before (Stream.run cfg q before).eventPoints new) h i)) (run_no_points hti)

/-- Sparse blocks keep the buffer in a steady state. -/
theorem run_steady (ht : InTime cfg blocks) (h : ∀ i new, blocks[i]? = some new → Sparse cfg (blocks.take i) new) :
    ∀ i new, blocks[i]? = some new → Steady cfg (blocks.take i) (Stream.run cfg q (blocks.take i)).eventPoints new :=
  fun i new hi => Or.inl ((h i new hi).fits
    (run_held (ht.take i) (each_take (P := fun _ before new => Sparse cfg before new) h i)).most
    (run_ordered cfg q (ht.take i)).buffer.shaped.idx)

end Run

/-- **Runs on sparse event points, or in a steady state, discard only for points within reach.** -/
theorem noJam_of_sparse (cfg : Config V) (q : QSort (EventPoint V) EventPoint.timeIndex)
    (handle : σ → List (Fingerprint V) → σ) (sink : σ) (frames : List (Frame V)) :
    ((∀ i new, (detected cfg frames)[i]? = some new → Sparse cfg ((detected cfg frames).take i) new) →
      ∀ i fr, frames[i]? = some fr →
        NoJam cfg (loop cfg q handle sink (frames.take i)).epExtractor.eventPoints
          (found cfg (loop cfg q handle sink (frames.take i)).epExtractor fr i)) ∧
    ((∀ i fr, frames[i]? = some fr →
        Steady cfg ((detected cfg frames).take i) (loop cfg q handle sink (frames.take i)).epExtractor.eventPoints
          (found cfg (loop cfg q handle sink (frames.take i)).epExtractor fr i)) →
      ∀ i fr, frames[i]? = some fr →
        NoJam cfg (loop cfg q handle sink (frames.take i)).epExtractor.eventPoints
          (found cfg (loop cfg q handle sink (frames.take i)).epExtractor fr i)) := by
  have ht := (detected_timed cfg frames).inTime
  -- the buffer and the points of a block of the loop are those of the run on event points
  have hblock : ∀ i fr, frames[i]? = some fr →
      (detected cfg frames)[i]? = some (found cfg (loop cfg q handle sink (frames.take i)).epExtractor fr i) ∧
        (loop cfg q handle sink (frames.take i)).epExtractor.eventPoints =
          (Stream.run cfg q ((detected cfg frames).take i)).eventPoints := fun i fr hfr => by
    rw [(loop_ring cfg q handle sink (frames.take i)).1.found, loop_eventPoints, (detected_get cfg hfr).1]
    exact ⟨(detected_get cfg hfr).2, rfl⟩
  refine ⟨fun h i fr hfr => ?_, fun h i fr hfr => ?_⟩
  · obtain ⟨hnew, heps⟩ := hblock i fr hfr
    rw [heps]
    exact run_noJam ht (run_steady ht h) i _ hnew
  · obtain ⟨hnew, heps⟩ := hblock i fr hfr
    rw [heps]
    refine run_noJam ht (fun k new hk => ?_) i _ hnew
    have hlt := (List.getElem?_eq_some_iff.1 hk).1
    rw [detected_length] at hlt
    have hsteady := h k frames[k] (List.getElem?_eq_getElem hlt)
    obtain ⟨hnew, heps⟩ := hblock k frames[k] (List.getElem?_eq_getElem hlt)
    rw [hk, Option.some.injEq] at hnew
    rwa [← hnew, heps] at hsteady

instance (cfg : Config V) (blocks : List (List (EventPoint V))) (new : List (EventPoint V)) : Decidable (Sparse cfg blocks new) :=
  inferInstanceAs (Decidable (_ ∨ _))

/-- Three points and a busy block, whose call drops the three. -/
theorem noJam_of_sparse_busyAfter :
    (loop (.default ℚ) (.insertion _ EventPoint.timeIndex) collect []
        ((busyAfter 39).map impulses)).epExtractor.eventPoints.eventPointIndex = 28 ∧
      (∀ i fr, ((busyAfter 39).map impulses)[i]? = some fr →
        NoJam (.default ℚ) (loop (.default ℚ) (.insertion _ _) collect []
            (((busyAfter 39).map impulses).take i)).epExtractor.eventPoints
          (found (.default ℚ) (loop (.default ℚ) (.insertion _ _) collect []
            (((busyAfter 39).map impulses).take i)).epExtractor fr i)) := by
  refine ⟨?_, (noJam_of_sparse (.default ℚ) (.insertion _ _) collect [] ((busyAfter 39).map impulses)).1 ?_⟩
  · rw [loop_eventPoints, detected_impulses]
    decide +kernel
  · rw [detected_impulses]
    have hall : ∀ i, i < (busyAfter 39).length → Sparse (.default ℚ)
        (((List.range (busyAfter 39).length).map (impulseBlock (busyAfter 39))).take i) (impulseBlock (busyAfter 39) i) := by
      decide +kernel
    intro i new hi
    rw [List.getElem?_map] at hi
    obtain ⟨k, hk, rfl⟩ := Option.map_eq_some_iff.1 hi
    obtain ⟨hlt, rfl⟩ := List.getElem?_eq_some_iff.1 hk
    rw [List.length_range] at hlt
    rw [List.getElem_range]
    exact hall i hlt

/-! ## A buffer that never drains -/

/-- A full buffer of unused points of one time. -/
structure Jammed (cfg : Config V) (t : Int) (eps : EventPoints V) : Prop where
  shaped : eps.Shaped cfg
  full : eps.eventPointIndex = cfg.maxEventPoints
  same : ∀ p ∈ eps.live, p.timeIndex = t ∧ p.usages = 0

section Jammed
variable {cfg : Config V} {q : QSort (EventPoint V) EventPoint.timeIndex} {t : Int}

/-- Points of one time are never combined. -/
theorem Jammed.combined {eps : EventPoints V} (h : Jammed cfg t eps) (hmin : 1 ≤ cfg.minTimeDistance)
    (fps : List (Fingerprint V)) (audioBlockIndex : Int) : Jammed cfg t (combined cfg eps fps audioBlockIndex) := by
  have hn := h.shaped.index_le
  obtain ⟨L, he, _, hmay, _⟩ := combine_yields cfg eps fps audioBlockIndex hn
  have hL : L = [] := by
    refine List.eq_nil_iff_forall_not_mem.2 fun c hc => ?_
    have hc := hmay c hc
    have hlt := hc.lt; have hle := hc.le; have hb := hc.bound
    have h1 := (h.same _ (mem_live.2 ⟨c.1, by omega, by omega, rfl⟩)).1
    have h2 := (h.same _ (mem_live.2 ⟨c.2.1, by omega, by omega, rfl⟩)).1
    have := hc.near.1
    omega
  refine ⟨⟨he.length.trans h.shaped.len, h.shaped.idx⟩, h.full, fun p hp => ?_⟩
  obtain ⟨m, h1, h2, rfl⟩ := mem_live.1 hp
  have hm : m < eps.eventPoints.length := by rw [← he.length]; exact h2
  have hpoint := he.points m hm
  rw [hL] at hpoint
  have hsame := h.same _ (mem_live.2 ⟨m, h1, hm, rfl⟩)
  show (point (combine cfg eps fps audioBlockIndex).eventPoints m).timeIndex = t ∧ _
  rw [show (FpExtractor.combined cfg eps fps audioBlockIndex).eventPoints =
    (combine cfg eps fps audioBlockIndex).eventPoints from rfl, hpoint]
  simpa [use, hits] using hsame

/-- Nothing is old enough and nothing is used up, so nothing is dropped. -/
theorem Jammed.compact {eps : EventPoints V} (h : Jammed cfg t eps) (hmax : 0 < cfg.maxTimeDistance)
    (husage : cfg.maxEventPointUsages ≠ 0) (ht : t < freeTime) : Jammed cfg t (compact cfg q eps) := by
  have hlen := h.shaped.live_length
  have hsize := h.shaped.len; have hidx := h.shaped.idx
  have hbelow : Below eps := by
    refine ⟨fun p hp => by rw [(h.same p hp).1]; exact ht, fun p hp => ?_⟩
    rw [EventPoints.spare, h.full, ← h.shaped.len, List.drop_length] at hp
    cases hp
  have hnone : ∀ p ∈ eps.live, ¬ evicted cfg (cutoffTime cfg eps) p := by
    intro p hp
    obtain ⟨m, h1, h2, _⟩ := mem_live.1 hp
    have hlast := (h.same _ (mem_live.2 ⟨eps.eventPointIndex - 1, by omega, by omega, rfl⟩)).1
    obtain ⟨h3, h4⟩ := h.same p hp
    rw [evicted_iff, cutoffTime]
    omega
  obtain ⟨hperm, _⟩ := compact_live (q := q) h.shaped hbelow
  rw [List.filter_eq_self.2 (fun p hp => by simpa using hnone p hp)] at hperm
  have hsh := compact_shaped (q := q) h.shaped
  refine ⟨hsh, ?_, fun p hp => h.same p (hperm.mem_iff.1 hp)⟩
  rw [← hsh.live_length, hperm.length_eq, hlen, h.full]

/-- **A jammed buffer stays jammed**, whatever the next block brings. -/
theorem Jammed.step {s : Stream V} {new : List (EventPoint V)} (h : Jammed cfg t (s.eventPoints.addPoints cfg new))
    (hmin : 1 ≤ cfg.minTimeDistance) (hmax : 0 < cfg.maxTimeDistance) (husage : cfg.maxEventPointUsages ≠ 0)
    (ht : t < freeTime) : Jammed cfg t (Stream.step cfg q s new).eventPoints := by
  obtain ⟨_, he⟩ | ⟨_, he⟩ := step_cases cfg q s new <;> rw [he]
  · exact h
  · exact (h.combined hmin _ _).compact hmax husage ht

omit [Sample V] in
theorem Jammed.addPoints {eps : EventPoints V} (h : Jammed cfg t eps) (new : List (EventPoint V)) :
    eps.addPoints cfg new = eps := EventPoints.addPoints_full h.full new

omit [Sample V] in
/-- If a discard before a jammed buffer is for points within reach, the jam is. -/
theorem Jammed.reach {eps : EventPoints V} {p : EventPoint V} {new : List (EventPoint V)} (h : Jammed cfg t eps)
    (hno : NoJam cfg eps (p :: new)) (hmax : 0 < cfg.maxEventPoints) : p.timeIndex - t ≤ cfg.maxTimeDistance := by
  obtain ⟨_, hold⟩ := hno [] p new rfl h.full
  have hne : 0 < eps.live.length := by rw [h.shaped.live_length, h.full]; exact hmax
  have hp := hold _ (List.getElem_mem hne)
  rwa [(h.same _ (List.getElem_mem hne)).1] at hp

end Jammed

/-- The same frame over and over: every reportable bin is one. -/
def hum (n : Nat) : List (List Nat) := List.replicate n reportable

theorem impulseBlock_hum {n i : Nat} (hi : i < n) (h23 : 23 ≤ i) :
    impulseBlock (hum n) i = reportable.map fun j : Nat => ⟨j, i - 12, 1, 0⟩ := by
  have hget : (hum n).getD (i - 11) [] = reportable := by
    rw [hum, List.getD_eq_getElem?_getD, List.getElem?_replicate_of_lt (by omega)]; rfl
  rw [impulseBlock, if_pos h23, hget, List.filter_eq_self.2 (by simp)]

/-- From its first points on the buffer is jammed. -/
theorem hum_jams (q : QSort (EventPoint ℚ) EventPoint.timeIndex) (n : Nat) :
    Jammed (.default ℚ) 11
      (Stream.run (.default ℚ) q (detected (.default ℚ) ((hum (24 + n)).map impulses))).eventPoints := by
  have hsucc : ∀ k, hum (k + 1) = hum k ++ [reportable] := fun k => List.replicate_succ'
  have hlen : ∀ k, (hum k).length = k := fun k => List.length_replicate
  induction n with
  | zero =>
    rw [hsucc, run_impulses, ← hsucc, hlen, impulseBlock_hum (by omega) (by omega)]
    refine Jammed.step ?_ (by decide) (by decide) (by decide) (by decide)
    rw [run_quiet q (by rw [hlen])]
    obtain ⟨hlive, hidx, _⟩ := EventPoints.addPoints_live
      (reportable.map fun j : Nat => (⟨j, ((23 : Nat) : Int) - 12, 1, 0⟩ : EventPoint ℚ)) (EventPoints.shaped_init (.default ℚ))
    refine ⟨(EventPoints.shaped_init _).addPoints _, ?_, fun p hp => ?_⟩
    · rw [hidx, List.length_map]
      exact Nat.min_eq_right (by decide +kernel)
    · rw [hlive] at hp
      obtain ⟨j, _, rfl⟩ := List.mem_map.1 (List.mem_of_mem_take (by simpa [EventPoints.live, EventPoints.init] using hp))
      exact ⟨rfl, rfl⟩
  | succ n ih =>
    rw [show 24 + (n + 1) = 24 + n + 1 by omega, hsucc, run_impulses]
    exact (Jammed.addPoints ih _ ▸ ih).step (by decide) (by decide) (by decide) (by decide)

/-- The points of the 24th frame are 34 blocks old and still fill the buffer when the 58th arrives. -/
theorem hum_discards :
    ¬ ∀ i fr, ((hum 58).map impulses)[i]? = some fr →
      NoJam (.default ℚ) (loop (.default ℚ) (.insertion _ _) collect []
          (((hum 58).map impulses).take i)).epExtractor.eventPoints
        (found (.default ℚ) (loop (.default ℚ) (.insertion _ _) collect []
          (((hum 58).map impulses).take i)).epExtractor fr i) := by
  intro hall
  have hno := hall 57 (impulses reportable) (by simp [hum])
  have htake : ((hum 58).map impulses).take 57 = (hum 57).map impulses := by
    rw [← List.map_take, hum, List.take_replicate]; rfl
  obtain ⟨hbuf, _⟩ := loop_buffer (.default ℚ) (.insertion _ EventPoint.timeIndex) collect [] ((hum 57).map impulses)
  have hring := (loop_ring (.default ℚ) (.insertion _ EventPoint.timeIndex) collect [] ((hum 57).map impulses)).1
  have hd := detect_impulses (hum 57)
  have hfound := found_impulses hd.1 hd.2 reportable
  rw [show hum 57 ++ [reportable] = hum 58 from List.replicate_succ'.symm,
    show (hum 57).length = 57 from List.length_replicate, impulseBlock_hum (by omega) (by omega)] at hfound
  have hjam := hum_jams (.insertion _ EventPoint.timeIndex) 33
  rw [show 24 + 33 = 57 from rfl] at hjam
  rw [htake, hbuf, hring.found, hfound] at hno
  obtain ⟨rest, hfirst⟩ : ∃ rest, reportable = 9 :: rest := ⟨reportable.tail, by decide +kernel⟩
  rw [hfirst, List.map_cons] at hno
  exact absurd (hjam.reach hno (by decide)) (by decide)

end Olaf.StreamProcessor
