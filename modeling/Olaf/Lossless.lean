import Olaf.Impulses
import Olaf.InOrder
/-!
# What compaction may lose in a run

| here | there |
| --- | --- |
| `Extracts` | the calls of `olaf_fp_extractor_extract` in `olaf_stream_processor_process` (`olaf_stream_processor.c:154`, `:189`) |
| `Lossless` | what is asked of one call (`olaf_fp_extractor.c:402-430`): the buffer keeps the points after the cutoff that are not used up |
| `kept`, `Unambiguous` | these points; they can be told from slots marked `1<<23` (`Compaction`) |

A free slot is one whose time is `1<<23`, but block indices do not stop there: after `2^23` blocks a point to be
kept has that time or a later one, is sorted among or behind the free slots and drops out of the live part. A run
whose calls are all unambiguous loses nothing, and only such a run (`run_lossless_iff`).
-/

namespace Olaf.StreamProcessor
open EpExtractor FpExtractor Sorting

variable {V σ : Type} [Sample V]

/-- The calls of a run, each with the block index, the extractor and the buffer: after a block that fills the buffer
beyond the threshold, and at the end. -/
inductive Extracts (cfg : Config V) (q : QSort (EventPoint V) EventPoint.timeIndex) (frames : List (Frame V)) :
    Nat → FpExtractor.State V → EventPoints V → Prop
  | block {b : Nat} {fr : Frame V} (h : frames[b]? = some fr)
      (hfull : (EpExtractor.extract cfg (loop cfg q collect [] (frames.take b)).epExtractor fr
        b).eventPoints.eventPointIndex > cfg.eventPointThreshold) :
      Extracts cfg q frames b (loop cfg q collect [] (frames.take b)).fpExtractor
        (EpExtractor.extract cfg (loop cfg q collect [] (frames.take b)).epExtractor fr b).eventPoints
  | last (h : (loop cfg q collect [] frames).epExtractor.eventPoints.eventPointIndex > 0) :
      Extracts cfg q frames frames.length (loop cfg q collect [] frames).fpExtractor
        (loop cfg q collect [] frames).epExtractor.eventPoints

/-- The live part after the call is, up to order, the combined points that are to be kept. -/
def Lossless (cfg : Config V) (q : QSort (EventPoint V) EventPoint.timeIndex) (b : Nat) (fx : FpExtractor.State V)
    (eps : EventPoints V) : Prop :=
  (FpExtractor.extract cfg q fx eps b).2.live.Perm (kept cfg (combined cfg eps fx.fingerprints b))

theorem Extracts.of_take {cfg : Config V} {q : QSort (EventPoint V) EventPoint.timeIndex} {frames : List (Frame V)}
    {i b : Nat} {fx : FpExtractor.State V} {eps : EventPoints V} (h : Extracts cfg q (frames.take i) b fx eps)
    (hb : b < (frames.take i).length) : Extracts cfg q frames b fx eps := by
  cases h with
  | block h hfull =>
    have hbi : b < i := by rw [List.length_take] at hb; omega
    rw [List.getElem?_take_of_lt hbi] at h
    rw [List.take_take, Nat.min_eq_left (by omega)] at hfull ⊢
    exact .block h hfull
  | last h => omega

/-- What one block makes of the buffer. -/
theorem body_buffer (cfg : Config V) (q : QSort (EventPoint V) EventPoint.timeIndex)
    (handle : σ → List (Fingerprint V) → σ) (s : Loop V σ) (fr : Frame V) :
    (body cfg q handle s fr).epExtractor.eventPoints =
      if (EpExtractor.extract cfg s.epExtractor fr s.audioBlockIndex).eventPoints.eventPointIndex >
          cfg.eventPointThreshold then
        (FpExtractor.extract cfg q s.fpExtractor
          (EpExtractor.extract cfg s.epExtractor fr s.audioBlockIndex).eventPoints s.audioBlockIndex).2
      else (EpExtractor.extract cfg s.epExtractor fr s.audioBlockIndex).eventPoints := by
  unfold body
  simp only
  split <;> rfl

section Call
variable {cfg : Config V} {q : QSort (EventPoint V) EventPoint.timeIndex} {eps : EventPoints V} {now : Int}

theorem free_combined (h : Free eps) (ho : InOrder cfg now eps) (fps : List (Fingerprint V)) (b : Int) :
    Free (combined cfg eps fps b) := fun p hp => by
  obtain ⟨p', hp', hag⟩ := combined_spare ho.index_le hp
  rw [hag.time, h p' hp']

theorem free_extract {ep : EpExtractor.State V} (h : Free ep.eventPoints) (hs : ep.eventPoints.Shaped cfg) (fr : Frame V)
    (b : Int) : Free (EpExtractor.extract cfg ep fr b).eventPoints := fun p hp => by
  rw [extract_eventPoints] at hp
  exact h p ((EventPoints.addPoints_live _ hs).2.2.mem hp)

/-- One call on a buffer in order with free slots behind it. -/
theorem lossless_iff (h : Free eps) (ho : InOrder cfg now eps) (fx : FpExtractor.State V) (b : Nat) :
    Lossless cfg q b fx eps ↔ Unambiguous cfg (combined cfg eps fx.fingerprints b) :=
  compact_kept_iff q (ho.combine _ _).shaped (free_combined h ho _ _)

end Call

section Run
variable {cfg : Config V} {q : QSort (EventPoint V) EventPoint.timeIndex} {frames : List (Frame V)}

/-- As long as the calls are unambiguous, the slots behind the live part are free. -/
theorem loop_free (h : ∀ b fx eps, b < frames.length → Extracts cfg q frames b fx eps →
      Unambiguous cfg (combined cfg eps fx.fingerprints b)) :
    Free (loop cfg q collect [] frames).epExtractor.eventPoints := by
  induction frames using List.reverseRecOn with
  | nil => exact fun p hp => ((made_init cfg fun _ => False).spare p hp).resolve_right id
  | append_singleton frames fr ih =>
    have hr := loop_reached cfg q collect [] frames
    have htake : (frames ++ [fr]).take frames.length = frames := List.take_left
    have hfree := ih fun b fx eps hb hx => h b fx eps (by simp; omega) (.of_take (by rwa [htake]) (by rwa [htake]))
    have hload := free_extract hfree hr.buffer.shaped fr frames.length
    rw [loop_append, body_buffer, hr.index]
    split
    · rename_i hfull
      have hcall : Extracts cfg q (frames ++ [fr]) frames.length
          (loop cfg q collect [] ((frames ++ [fr]).take frames.length)).fpExtractor
          (EpExtractor.extract cfg (loop cfg q collect [] ((frames ++ [fr]).take frames.length)).epExtractor fr
            frames.length).eventPoints := .block (by simp) (by rwa [htake])
      rw [htake] at hcall
      exact compact_free q ((hr.loaded fr).combine _ _).shaped (free_combined hload (hr.loaded fr) _ _)
        (h _ _ _ (by simp) hcall)
    · exact hload

/-- The buffer of a call before which all calls were unambiguous. -/
theorem Extracts.free {b : Nat} {fx : FpExtractor.State V} {eps : EventPoints V} (hx : Extracts cfg q frames b fx eps)
    (h : ∀ b' fx eps, b' < b → Extracts cfg q frames b' fx eps → Unambiguous cfg (combined cfg eps fx.fingerprints b')) :
    Free eps ∧ ∃ now, InOrder cfg now eps := by
  cases hx with
  | block hget hfull =>
    have hlen : (frames.take b).length = b := by
      have := (List.getElem?_eq_some_iff.1 hget).1
      rw [List.length_take]; omega
    have hr := loop_reached cfg q collect [] (frames.take b)
    rw [hlen] at hr
    have hfree : Free (loop cfg q collect [] (frames.take b)).epExtractor.eventPoints :=
      loop_free fun b' fx eps hb' hx => h b' fx eps (by rwa [hlen] at hb') (hx.of_take hb')
    exact ⟨free_extract hfree hr.buffer.shaped _ _, _, hr.loaded _⟩
  | last _ => exact ⟨loop_free h, _, (loop_reached cfg q collect [] frames).buffer⟩

/-- **A run loses nothing iff every one of its calls can tell the points to be kept from free slots.** -/
theorem run_lossless_iff (cfg : Config V) (q : QSort (EventPoint V) EventPoint.timeIndex) (frames : List (Frame V)) :
    (∀ b fx eps, Extracts cfg q frames b fx eps → Lossless cfg q b fx eps) ↔
      ∀ b fx eps, Extracts cfg q frames b fx eps → Unambiguous cfg (combined cfg eps fx.fingerprints b) := by
  constructor
  · intro h b
    -- the calls before this one are unambiguous, so its buffer is as `lossless_iff` wants it
    induction b using Nat.strong_induction_on with
    | _ b ih =>
      intro fx eps hx
      obtain ⟨hfree, _, ho⟩ := hx.free fun b' fx eps hb' hx' => ih b' hb' fx eps hx'
      exact (lossless_iff hfree ho fx b).1 (h b fx eps hx)
  · intro h b fx eps hx
    obtain ⟨hfree, _, ho⟩ := hx.free fun b' fx eps _ hx' => h b' fx eps hx'
    exact (lossless_iff hfree ho fx b).2 (h b fx eps hx)

/-- A run of at most `2^23` blocks and half a filter is one. -/
theorem run_lossless_of_short (hlen : (frames.length : Int) ≤ freeTime + cfg.halfFilterSizeTime) :
    ∀ b fx eps, Extracts cfg q frames b fx eps → Lossless cfg q b fx eps := by
  refine (run_lossless_iff cfg q frames).2 fun b fx eps hx => Or.inl fun p hp => ?_
  obtain ⟨now, hnow, ho⟩ : ∃ now, now < freeTime ∧ InOrder cfg now eps := by
    cases hx with
    | block hget hfull =>
      have hlt := (List.getElem?_eq_some_iff.1 hget).1
      have hr := loop_reached cfg q collect [] (frames.take b)
      rw [List.length_take, Nat.min_eq_left (by omega)] at hr
      exact ⟨_, by omega, hr.loaded _⟩
    | last _ => exact ⟨_, by omega, (loop_reached cfg q collect [] frames).buffer⟩
  have := (ho.combine fx.fingerprints b).live p (List.mem_of_mem_filter hp)
  omega

end Run

/-! ## A run that loses points -/

/-- Blocks without event points leave the buffer as it was. -/
theorem run_nothing {cfg : Config V} (q : QSort (EventPoint V) EventPoint.timeIndex) (h0 : 0 ≤ cfg.eventPointThreshold)
    {blocks : List (List (EventPoint V))} (h : ∀ new ∈ blocks, new = []) :
    (Stream.run cfg q blocks).eventPoints = .init cfg := by
  induction blocks using List.reverseRecOn with
  | nil => rfl
  | append_singleton blocks new ih =>
    have hinit := ih fun new hnew => h new (by simp [hnew])
    rw [Stream.run_append, h new (by simp), Stream.step, hinit]
    exact congrArg Stream.eventPoints (if_neg (by simpa [EventPoints.addPoints, EventPoints.init] using h0))

/-- Silence for `n` frames, then impulses in 31 bins of one frame. -/
def late (n : Nat) : List (List Nat) := List.replicate n [] ++ List.range' 200 31 :: List.replicate 11 []

/-- The buffer that the impulses leave. -/
def lateBuffer (n : Nat) : EventPoints ℚ :=
  (EventPoints.init (.default ℚ)).addPoints (.default ℚ) ((List.range' 200 31).map fun j : Nat => ⟨j, n - 1, 1, 0⟩)

theorem late_quiet {n i : Nat} (hn : 0 < n) (hi : i < n + 11) : impulseBlock (late n) i = [] := by
  have hsilent : (late n).getD (i - 11) [] = [] := by
    rw [late, List.getD_eq_getElem?_getD, List.getElem?_append_left (by simp; omega), List.getElem?_replicate]
    split <;> rfl
  rw [impulseBlock, hsilent]
  simp

theorem late_impulses {n : Nat} (hn : 12 ≤ n) :
    impulseBlock (late n) (n + 11) = (List.range' 200 31).map fun j : Nat => ⟨j, n - 1, 1, 0⟩ := by
  have hget : (late n).getD (n + 11 - 11) [] = List.range' 200 31 := by
    rw [late, List.getD_eq_getElem?_getD, List.getElem?_append_right (by simp)]
    simp
  have hbins : (reportable.filter fun j => j ∈ List.range' 200 31) = List.range' 200 31 := by decide +kernel
  rw [impulseBlock, if_pos (by omega), hget, hbins]
  refine List.map_congr_left fun j _ => ?_
  congr 1
  omega

theorem late_call (q : QSort (EventPoint ℚ) EventPoint.timeIndex) {n : Nat} (hn : 12 ≤ n) :
    ((late n).map impulses)[n + 11]? = some (impulses []) ∧
      (EpExtractor.extract (.default ℚ) (loop (.default ℚ) q collect [] (((late n).map impulses).take (n + 11))).epExtractor
        (impulses []) ((n + 11 : Nat) : Int)).eventPoints = lateBuffer n := by
  have hget : ((late n).map impulses)[n + 11]? = some (impulses []) := by
    rw [late, List.map_append, List.getElem?_append_right (by simp)]
    simp
  refine ⟨hget, ?_⟩
  rw [loop_impulses q (late n) hget, late_impulses hn, run_nothing q (by decide), lateBuffer]
  intro new hnew
  obtain ⟨k, hk, rfl⟩ := List.mem_iff_getElem.1 hnew
  rw [List.length_take] at hk
  rw [List.getElem_take, List.getElem_map, List.getElem_range]
  exact late_quiet (by omega) (by omega)

theorem free_lateBuffer (n : Nat) : Free (lateBuffer n) := fun p hp => by
  have hinit : Free (EventPoints.init (.default ℚ)) := fun p hp => by
    rw [EventPoints.spare] at hp
    rw [List.eq_of_mem_replicate (List.mem_of_mem_drop hp)]
    rfl
  exact hinit p ((EventPoints.addPoints_live _ (EventPoints.shaped_init _)).2.2.mem hp)

/-- **All 31 points are lost**: found in frame `2^23 + 1`, they are labelled `2^23`. -/
theorem late_lost : ¬ ∀ b fx eps, Extracts (.default ℚ) (.insertion _ _) ((late (2 ^ 23 + 1)).map impulses) b fx eps →
    Lossless (.default ℚ) (.insertion _ _) b fx eps := by
  intro h
  obtain ⟨hget, hbuf⟩ := late_call (.insertion _ _) (n := 2 ^ 23 + 1) (by decide)
  have hlen : (((late (2 ^ 23 + 1)).map impulses).take (2 ^ 23 + 1 + 11)).length = 2 ^ 23 + 1 + 11 := by
    have := (List.getElem?_eq_some_iff.1 hget).1
    rw [List.length_take]; omega
  have hr := loop_reached (.default ℚ) (.insertion _ _) collect [] (((late (2 ^ 23 + 1)).map impulses).take (2 ^ 23 + 1 + 11))
  rw [hlen] at hr
  have hcall : Extracts (.default ℚ) (.insertion _ _) _ _ _ _ := .block hget (by rw [hbuf]; decide +kernel)
  have ho := hr.loaded (impulses [])
  have hlost := h _ _ _ hcall
  rw [hbuf] at hlost ho
  have hu := (lossless_iff (free_lateBuffer _) ho _ _).1 hlost
  rw [hr.empty] at hu
  rcases hu with hu | ⟨hu, _⟩
  · revert hu
    decide +kernel
  · revert hu
    decide +kernel

end Olaf.StreamProcessor
