import Olaf.Impulses
import Olaf.InOrder
/-!
# When a combination of event points is emitted twice

A point is dropped once it lies `maxTimeDistance` before the *last buffered* point, but it is an anchor as
soon as it lies `maxTimeDistance` before the *current* block, and the current block is at least half a filter
ahead. An anchor in between is combined, kept, and combined again by the next call. `delivered_nodup` is the
other side: when every call of the loop retires the anchors it combines, nothing is emitted twice.

`keys` are the event points the array holds, each once whatever happens (`keys_addPoints`, `keys_compact`); an anchor that a call
retires is in none of the later ones (`Retired`).
-/

namespace Olaf.StreamProcessor
open FpExtractor Sorting EpExtractor Growing

variable {V : Type} [Sample V] {σ : Type}

/-- What makes two event points of a run the same: one bin yields one point at a time. -/
def key (p : EventPoint V) : Int × Int := (p.timeIndex, p.frequencyBin)

def combination (f : Fingerprint V) : (Int × Int) × (Int × Int) × (Int × Int) :=
  ((f.timeIndex1, f.frequencyBin1), (f.timeIndex2, f.frequencyBin2), (f.timeIndex3, f.frequencyBin3))

/-- Every event point in the array: the live ones, and those of the spare slots that are not free. -/
def keys (eps : EventPoints V) : List (Int × Int) :=
  eps.live.map key ++ (eps.spare.map key).filter fun k => k.1 ≠ freeTime

/-- Every anchor that a call at block `b` may combine is one that it drops. -/
def Retires (cfg : Config V) (b : Int) (eps : EventPoints V) : Prop :=
  ∀ c, Combination cfg eps.eventPoints eps.eventPointIndex b c →
    (point eps.eventPoints c.1).timeIndex ≤ cutoffTime cfg eps

section Keys
variable {cfg : Config V} {eps : EventPoints V}

omit [Sample V] in
/-- Points of a later time, in different bins, are new. -/
theorem keys_addPoints {now : Int} {b : Nat} (h : InOrder cfg now eps) (hnow : now < b - cfg.halfFilterSizeTime)
    (hk : (keys eps).Nodup) {new : List (EventPoint V)} (hnew : Block cfg b new) :
    (keys (eps.addPoints cfg new)).Nodup := by
  obtain ⟨hlive, _, hspare⟩ := EventPoints.addPoints_live new h.shaped
  have hsub := ((hspare.map key).filter fun k => decide (k.1 ≠ freeTime))
  have hold : ∀ k ∈ keys eps, k.1 ≤ now := by
    intro k hkm
    rcases List.mem_append.1 hkm with hm | hm
    · obtain ⟨p, hp, rfl⟩ := List.mem_map.1 hm
      exact h.live p hp
    · obtain ⟨hm, hne⟩ := List.mem_filter.1 hm
      obtain ⟨p, hp, rfl⟩ := List.mem_map.1 hm
      exact (h.made.spare p hp).resolve_left (of_decide_eq_true hne)
  have htake : (new.take (cfg.maxEventPoints - eps.eventPointIndex)).Sublist new := List.take_sublist _ _
  have hbins : ((new.take (cfg.maxEventPoints - eps.eventPointIndex)).map key).Nodup := by
    have hn := hnew.nodup.sublist (htake.map EventPoint.frequencyBin)
    rw [← show (Prod.snd ∘ key) = (EventPoint.frequencyBin : EventPoint V → Int) from rfl, ← List.map_map] at hn
    exact hn.of_map
  -- the new keys go between the old live and the old spare ones
  have hlater : ∀ k ∈ (new.take (cfg.maxEventPoints - eps.eventPointIndex)).map key, k ∉ keys eps := by
    intro k hkm hin
    obtain ⟨p, hp, rfl⟩ := List.mem_map.1 hkm
    have := hold _ hin
    have := hnew.time p (htake.mem hp)
    simp only [key] at *
    omega
  obtain ⟨h1, h2, h3⟩ := List.nodup_append.1 hk
  rw [keys, hlive, List.map_append, List.nodup_append]
  refine ⟨List.nodup_append.2 ⟨h1, hbins, fun a ha a' ha' e => ?_⟩, h2.sublist hsub, fun a ha a' ha' e => ?_⟩
  · exact hlater a' ha' (e ▸ List.mem_append_left _ ha)
  · rcases List.mem_append.1 ha with hm | hm
    · exact h3 a hm a' (hsub.mem ha') e
    · exact hlater a hm (e ▸ List.mem_append_right _ (hsub.mem ha'))

theorem keys_init (cfg : Config V) : keys (.init cfg) = [] := by
  simp [keys, key, EventPoint.free]

variable (cfg) in
theorem keys_combined (hn : eps.eventPointIndex ≤ eps.eventPoints.length) (fps : List (Fingerprint V)) (b : Int) :
    (combined cfg eps fps b).live.map key = eps.live.map key ∧ keys (combined cfg eps fps b) = keys eps := by
  obtain ⟨hl, hsp⟩ := combined_map cfg fps b hn key fun p p' h => by rw [key, key, h.time, h.bin]
  exact ⟨hl, by rw [keys, keys, hl, hsp]⟩

/-- Compaction adds no event point: what it keeps of the live ones and of the spare slots was there before. -/
theorem keys_compact (cfg : Config V) (q : QSort (EventPoint V) EventPoint.timeIndex) (hk : (keys eps).Nodup) :
    (keys (compact cfg q eps)).Nodup ∧
      ∀ k ∈ keys (compact cfg q eps), k ∈ keys eps ∧ (k ∈ eps.live.map key → cutoffTime cfg eps < k.1) := by
  have hc := compact_spec cfg q eps
  -- both sides of the permutation, without the free slots
  have hperm := (hc.perm.map key).filter fun k => decide (k.1 ≠ freeTime)
  have hleft : (((compact cfg q eps).live ++ (compact cfg q eps).spare).map key).filter
      (fun k => decide (k.1 ≠ freeTime)) = keys (compact cfg q eps) := by
    rw [List.map_append, List.filter_append, keys, List.filter_eq_self.2]
    intro k hk
    obtain ⟨p, hp, rfl⟩ := List.mem_map.1 hk
    exact decide_eq_true (hc.taken p hp)
  have hmark : ((eps.live.map (markOld cfg (cutoffTime cfg eps))).map key).filter (fun k => decide (k.1 ≠ freeTime)) =
      (eps.live.filter fun p => decide ((markOld cfg (cutoffTime cfg eps) p).timeIndex ≠ freeTime)).map key := by
    rw [List.map_map, List.filter_map]
    refine List.map_congr_left fun p hp => ?_
    rw [Function.comp_apply, (markOld_time (of_decide_eq_true (List.mem_filter.1 hp).2)).1]
  rw [hleft, List.map_append, List.filter_append, hmark] at hperm
  have hsub := ((List.filter_sublist (l := eps.live)
    (p := fun p => decide ((markOld cfg (cutoffTime cfg eps) p).timeIndex ≠ freeTime))).map key).append
    (List.Sublist.refl ((eps.spare.map key).filter fun k => decide (k.1 ≠ freeTime)))
  refine ⟨hperm.nodup_iff.2 (hk.sublist hsub), fun k hkm => ?_⟩
  have hkm' := hperm.mem_iff.1 hkm
  refine ⟨hsub.mem hkm', fun hlive => ?_⟩
  rcases List.mem_append.1 hkm' with hm | hm
  · obtain ⟨p, hp, rfl⟩ := List.mem_map.1 hm
    exact (markOld_time (of_decide_eq_true (List.mem_filter.1 hp).2)).2.1
  · -- a spare slot does not hold a live point
    exact absurd rfl ((List.nodup_append.1 hk).2.2 k hlive k hm)

end Keys

/-! ## One call -/

section Call
variable {cfg : Config V} {eps : EventPoints V} {b : Int}

theorem key_mem_live (hn : eps.eventPointIndex ≤ eps.eventPoints.length) {m : Nat} (hm : m < eps.eventPointIndex) :
    key (point eps.eventPoints m) ∈ eps.live.map key :=
  List.mem_map_of_mem (mem_live.2 ⟨m, hm, by omega, rfl⟩)

/-- Different slots hold different points. -/
theorem slot_of_key (hn : eps.eventPointIndex ≤ eps.eventPoints.length) (hk : (eps.live.map key).Nodup) {m m' : Nat}
    (hm : m < eps.eventPointIndex) (hm' : m' < eps.eventPointIndex)
    (he : key (point eps.eventPoints m) = key (point eps.eventPoints m')) : m = m' := by
  have hlen : eps.live.length = eps.eventPointIndex := by rw [EventPoints.live, List.length_take]; omega
  have h1 : m < (eps.live.map key).length := by rw [List.length_map]; omega
  have h2 : m' < (eps.live.map key).length := by rw [List.length_map]; omega
  have hget : (eps.live.map key)[m] = (eps.live.map key)[m'] := by
    rw [List.getElem_map, List.getElem_map, ← point_live, ← point_live, he]
  exact hk.getElem_inj_iff.1 hget

theorem combine_nodup (hn : eps.eventPointIndex ≤ eps.eventPoints.length) (hk : (eps.live.map key).Nodup) :
    ((combine cfg eps [] b).fingerprints.map combination).Nodup := by
  obtain ⟨L, he, hnd, hmay, _⟩ := combine_yields cfg eps [] b hn
  rw [he.fingerprints, List.nil_append, List.map_map]
  refine hnd.map_on fun c hc c' hc' heq => ?_
  have h1 := hmay c hc; have h2 := hmay c' hc'
  simp only [Function.comp_apply, combination, fingerprintOf, fingerprint, Prod.mk.injEq] at heq
  obtain ⟨⟨e1, e1'⟩, ⟨e2, e2'⟩, e3, e3'⟩ := heq
  have := h1.lt; have := h1.le; have := h1.bound
  have := h2.lt; have := h2.le; have := h2.bound
  refine Prod.ext ?_ (Prod.ext ?_ ?_)
  · exact slot_of_key hn hk (by omega) (by omega) (Prod.ext e1 e1')
  · exact slot_of_key hn hk (by omega) (by omega) (Prod.ext e2 e2')
  · exact slot_of_key hn hk (by omega) (by omega) (Prod.ext e3 e3')

end Call

/-! ## A run -/

def anchor (f : Fingerprint V) : Int × Int := (f.timeIndex1, f.frequencyBin1)

/-- What every state has after calls that retired their anchors. -/
structure Retired (s : Stream V) : Prop where
  keys : (keys s.eventPoints).Nodup
  once : (s.batches.flatten.map combination).Nodup
  gone : ∀ f ∈ s.batches.flatten, anchor f ∉ StreamProcessor.keys s.eventPoints

section Run
variable {cfg : Config V} {q : QSort (EventPoint V) EventPoint.timeIndex} {b : Nat} {s : Stream V}
  {new : List (EventPoint V)} {blocks : List (List (EventPoint V))}

/-- A batch from a buffer without the anchors of earlier ones repeats none of them. -/
theorem Retired.append {eps : EventPoints V} {batches : List (Fingerprint V)} {b : Int}
    (hn : eps.eventPointIndex ≤ eps.eventPoints.length) (hk : (StreamProcessor.keys eps).Nodup)
    (hold : (batches.map combination).Nodup) (hgone : ∀ f ∈ batches, anchor f ∉ StreamProcessor.keys eps) :
    ((batches ++ (combine cfg eps [] b).fingerprints).map combination).Nodup := by
  have hlive : (eps.live.map key).Nodup := (List.nodup_append.1 hk).1
  rw [List.map_append, List.nodup_append]
  refine ⟨hold, combine_nodup hn hlive, fun x hx y hy e => ?_⟩
  obtain ⟨f, hf, rfl⟩ := List.mem_map.1 hx
  obtain ⟨f', hf', rfl⟩ := List.mem_map.1 hy
  obtain ⟨c, hc, rfl⟩ := mem_combine hn hf'
  have hm := key_mem_live hn (m := c.1) (by have := hc.lt; have := hc.le; have := hc.bound; omega)
  refine hgone f hf (List.mem_append_left _ ?_)
  have he : anchor f = anchor (fingerprintOf eps.eventPoints c) := congrArg Prod.fst e
  rw [he]; exact hm

omit [Sample V] in
theorem Retired.loaded (h : Retired s) (ho : Ordered cfg b s) (hnew : Block cfg b new)
    (hpast : ∀ f ∈ s.batches.flatten, f.timeIndex1 < b - cfg.halfFilterSizeTime) :
    (StreamProcessor.keys (s.eventPoints.addPoints cfg new)).Nodup ∧
      ∀ f ∈ s.batches.flatten, anchor f ∉ StreamProcessor.keys (s.eventPoints.addPoints cfg new) := by
  refine ⟨keys_addPoints ho.buffer (by omega) h.keys hnew, fun f hf hin => ?_⟩
  obtain ⟨hlive, _, hspare⟩ := EventPoints.addPoints_live new ho.buffer.shaped
  rw [StreamProcessor.keys, hlive, List.map_append] at hin
  rcases List.mem_append.1 hin with hm | hm
  · rcases List.mem_append.1 hm with hm | hm
    · exact h.gone f hf (List.mem_append_left _ hm)
    · obtain ⟨p, hp, he⟩ := List.mem_map.1 hm
      have := hpast f hf
      have ht := hnew.time p (List.mem_of_mem_take hp)
      have := congrArg Prod.fst he
      simp only [key, anchor] at this
      omega
  · exact h.gone f hf (List.mem_append_right _ (((hspare.map key).filter _).mem hm))

theorem run_past (ht : InTime cfg blocks) :
    ∀ f ∈ (Stream.run cfg q blocks).batches.flatten, f.timeIndex1 < blocks.length - cfg.halfFilterSizeTime := by
  have hP : ∀ p p' : EventPoint V, Agree p p' → p'.timeIndex < blocks.length - cfg.halfFilterSizeTime →
      p.timeIndex < blocks.length - cfg.halfFilterSizeTime := fun p p' hag h => hag.time ▸ h
  intro f hf
  obtain ⟨x, y, z, hx, _, _, rfl⟩ := batches_made hP ht (fun p hp => (ht.mem hp).2) f hf
  exact hx

theorem Retired.step (h : Retired s) (ho : Ordered cfg b s) (hnew : Block cfg b new)
    (hpast : ∀ f ∈ s.batches.flatten, f.timeIndex1 < b - cfg.halfFilterSizeTime)
    (hret : ((s.eventPoints.addPoints cfg new).eventPointIndex : Int) > cfg.eventPointThreshold →
      Retires cfg b (s.eventPoints.addPoints cfg new)) :
    Retired (Stream.step cfg q s new) := by
  obtain ⟨hk, hgone⟩ := h.loaded ho hnew hpast
  have hn := (ho.loaded hnew.time).index_le
  obtain ⟨_, he⟩ | ⟨hcall, he⟩ := ho.step_cases q new <;> rw [he]
  · exact ⟨hk, h.once, hgone⟩
  · obtain ⟨hlive, hkeys⟩ := keys_combined cfg hn [] b
    have hk0 : (StreamProcessor.keys (combined cfg (s.eventPoints.addPoints cfg new) [] b)).Nodup := hkeys ▸ hk
    obtain ⟨hk', hsub⟩ := keys_compact cfg q hk0
    rw [hkeys, hlive] at hsub
    refine ⟨hk', ?_, fun f hf hin => ?_⟩
    · rw [List.flatten_concat]
      exact Retired.append hn hk h.once hgone
    · obtain ⟨hin, hcut⟩ := hsub _ hin
      rw [List.flatten_concat] at hf
      rcases List.mem_append.1 hf with hm | hm
      · exact hgone f hm hin
      · -- a new anchor lies at or before the cutoff
        obtain ⟨c, hc, rfl⟩ := mem_combine hn hm
        have hold := hret hcall c hc
        have hcutoff := combined_cutoff cfg [] b hn
        have hlt := hcut (key_mem_live hn (by have := hc.lt; have := hc.le; have := hc.bound; omega))
        rw [hcutoff] at hlt
        simp only [anchor, fingerprintOf, fingerprint] at hlt
        omega

/-- **In a run whose calls retire their anchors no combination is emitted twice.** -/
theorem run_retired (cfg : Config V) (q : QSort (EventPoint V) EventPoint.timeIndex) (ht : Timed cfg blocks)
    (hret : ∀ i new, blocks[i]? = some new →
      (((Stream.run cfg q (blocks.take i)).eventPoints.addPoints cfg new).eventPointIndex : Int) > cfg.eventPointThreshold →
      Retires cfg i ((Stream.run cfg q (blocks.take i)).eventPoints.addPoints cfg new)) :
    Retired (Stream.run cfg q blocks) := by
  induction blocks using List.reverseRecOn with
  | nil =>
    refine ⟨?_, List.nodup_nil, by simp⟩
    rw [Stream.run_nil_eventPoints, keys_init]
    exact List.nodup_nil
  | append_singleton blocks new ih =>
    obtain ⟨ht, hnew⟩ := ht.init
    obtain ⟨hinit, hlast⟩ := (each_concat (P := fun i before ps =>
      (((Stream.run cfg q before).eventPoints.addPoints cfg ps).eventPointIndex : Int) > cfg.eventPointThreshold →
        Retires cfg i ((Stream.run cfg q before).eventPoints.addPoints cfg ps))).1 hret
    rw [Stream.run_append]
    exact (ih ht hinit).step (run_ordered cfg q ht.inTime) hnew (run_past ht.inTime) hlast

/-- **No fingerprint is produced twice in a run whose calls retire their anchors**, the final call included. -/
theorem delivered_nodup (cfg : Config V) (q : QSort (EventPoint V) EventPoint.timeIndex) (frames : List (Frame V))
    (h : ∀ i fr, frames[i]? = some fr →
      let eps := (EpExtractor.extract cfg (loop cfg q collect [] (frames.take i)).epExtractor fr i).eventPoints
      eps.eventPointIndex > cfg.eventPointThreshold → Retires cfg i eps) :
    (((loop cfg q collect [] frames).sink.flatten ++
      ((finish cfg q (loop cfg q collect [] frames)).fingerprints.getD [])).map combination).Nodup := by
  have ht := detected_timed cfg frames
  have ho := run_ordered cfg q ht.inTime
  have hr := run_retired cfg q ht ((each_call cfg q collect [] frames fun i eps =>
    (eps.eventPointIndex : Int) > cfg.eventPointThreshold → Retires cfg i eps).2 h)
  rw [loop_delivered, ho.delivered]
  exact Retired.append ho.buffer.index_le hr.keys hr.once hr.gone

end Run

/-! ## Two runs on impulse frames -/

/-- Three points that combine and a busy block `gap` frames after the first of them. -/
def busyAfter (gap : Nat) : List (List Nat) :=
  (List.range (24 + gap)).map fun k =>
    if k = 12 then [10] else if k = 14 then [20] else if k = 16 then [30]
    else if k = 12 + gap then List.range' 200 28 else []

theorem busyAfter_39_once :
    (((loop (.default ℚ) (.insertion _ _) collect [] ((busyAfter 39).map impulses)).sink.flatten ++
      ((finish (.default ℚ) (.insertion _ _)
        (loop (.default ℚ) (.insertion _ _) collect [] ((busyAfter 39).map impulses))).fingerprints.getD [])).map
          combination).Nodup := by
  refine delivered_nodup (.default ℚ) (.insertion _ _) _ fun i fr hfr => ?_
  have hi := (List.getElem?_eq_some_iff.1 hfr).1
  rw [List.length_map] at hi
  have hall : ∀ i, i < (busyAfter 39).length →
      let eps := (Stream.run (.default ℚ) (.insertion _ EventPoint.timeIndex)
        (((List.range (busyAfter 39).length).map (impulseBlock (busyAfter 39))).take i)).eventPoints.addPoints (.default ℚ)
          (impulseBlock (busyAfter 39) i)
      (eps.eventPointIndex : Int) > (Config.default ℚ).eventPointThreshold →
        ∀ m, m < eps.eventPointIndex →
          (point eps.eventPoints m).timeIndex ≤ i - (Config.default ℚ).maxTimeDistance →
          (point eps.eventPoints m).timeIndex ≤ cutoffTime (.default ℚ) eps := by
    decide +kernel
  simp only [loop_impulses _ _ hfr]
  intro hcall c hc
  have hb := hc.bound; have hlt := hc.lt; have hle := hc.le
  exact hall i hi hcall c.1 (by omega) hc.anchor

/-- With the busy block 21 frames later, the anchor is still within reach of the last buffered point: the
call at block 44 combines and keeps it, and the final call combines it again. -/
theorem busyAfter_21_repeats :
    ¬ (((loop (.default ℚ) (.insertion _ _) collect [] ((busyAfter 21).map impulses)).sink.flatten ++
      ((finish (.default ℚ) (.insertion _ _)
        (loop (.default ℚ) (.insertion _ _) collect [] ((busyAfter 21).map impulses))).fingerprints.getD [])).map
          combination).Nodup := by
  rw [loop_delivered, detected_impulses]
  decide +kernel

end Olaf.StreamProcessor
