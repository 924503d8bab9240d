import Olaf.Config
/-!
# The shared event point buffer

| here | there |
| --- | --- |
| `EventPoint`  | `struct eventpoint` (`olaf_ep_extractor.h:36`) |
| `EventPoints` | `struct extracted_event_points` (`olaf_ep_extractor.h:48`): `calloc`'d once with `maxEventPoints` slots, shared by both extractors |
| `freeTime`    | the `1<<23` of `olaf_ep_extractor_new` and `olaf_fp_extractor_extract` |
| `addPoint`    | the append in `extract_internal` (`olaf_ep_extractor.c:163-176`); a full buffer prints a warning and ignores the point |

`live` is the part of the array the loops look at. `addPoints_live` says what a block of new points
does to it.
-/

namespace Olaf

/-- `struct eventpoint`. -/
structure EventPoint (V : Type) where
  frequencyBin : Int
  timeIndex : Int
  magnitude : V
  usages : Int
deriving DecidableEq

/-- The time index of a slot that holds no event point. -/
def freeTime : Int := 2 ^ 23

variable {V : Type}

/-- A slot as `olaf_ep_extractor_new` leaves it. -/
def EventPoint.free [Sample V] : EventPoint V := ⟨0, freeTime, Sample.lit 0, 0⟩

/-- `struct extracted_event_points`. -/
structure EventPoints (V : Type) where
  eventPoints : List (EventPoint V)
  eventPointIndex : Nat

namespace EventPoints

/-- `olaf_ep_extractor_new` (`:50-57`). -/
def init [Sample V] (cfg : Config V) : EventPoints V := ⟨List.replicate cfg.maxEventPoints .free, 0⟩

/-- The slots below `eventPointIndex`. -/
def live (eps : EventPoints V) : List (EventPoint V) := eps.eventPoints.take eps.eventPointIndex

/-- The slots from `eventPointIndex` on. -/
def spare (eps : EventPoints V) : List (EventPoint V) := eps.eventPoints.drop eps.eventPointIndex

/-- The array has its `calloc`'d size and the index stays in it. -/
structure Shaped (cfg : Config V) (eps : EventPoints V) : Prop where
  len : eps.eventPoints.length = cfg.maxEventPoints
  idx : eps.eventPointIndex ≤ cfg.maxEventPoints

/-- One event point found by `extract_internal`. -/
def addPoint (cfg : Config V) (eps : EventPoints V) (p : EventPoint V) : EventPoints V :=
  if eps.eventPointIndex = cfg.maxEventPoints then eps
  else ⟨eps.eventPoints.set eps.eventPointIndex p, eps.eventPointIndex + 1⟩

/-- The event points of one block, in order. -/
def addPoints (cfg : Config V) (eps : EventPoints V) (ps : List (EventPoint V)) : EventPoints V :=
  ps.foldl (addPoint cfg) eps

theorem live_append_spare (eps : EventPoints V) : eps.live ++ eps.spare = eps.eventPoints :=
  List.take_append_drop _ _

theorem Shaped.live_length {cfg : Config V} {eps : EventPoints V} (h : Shaped cfg eps) :
    eps.live.length = eps.eventPointIndex := by
  simp [live, h.len, h.idx]

theorem Shaped.index_le {cfg : Config V} {eps : EventPoints V} (h : Shaped cfg eps) :
    eps.eventPointIndex ≤ eps.eventPoints.length := by
  rw [h.len]
  exact h.idx

theorem shaped_init [Sample V] (cfg : Config V) : Shaped cfg (init cfg) := ⟨by simp [init], by simp [init]⟩

@[simp] theorem live_init [Sample V] (cfg : Config V) : (init cfg).live = [] := rfl

@[simp] theorem spare_init [Sample V] (cfg : Config V) : (init cfg).spare = List.replicate cfg.maxEventPoints .free := rfl

theorem Shaped.addPoint {cfg : Config V} {eps : EventPoints V} (h : Shaped cfg eps) (p : EventPoint V) :
    Shaped cfg (addPoint cfg eps p) := by
  unfold EventPoints.addPoint
  split
  · exact h
  · exact ⟨by simp [h.len], by have := h.idx; show eps.eventPointIndex + 1 ≤ _; omega⟩

theorem Shaped.addPoints {cfg : Config V} : ∀ {eps : EventPoints V} (ps : List (EventPoint V)),
    Shaped cfg eps → Shaped cfg (addPoints cfg eps ps)
  | _, [], h => h
  | _, p :: ps, h => Shaped.addPoints ps (h.addPoint p)

theorem addPoint_full {cfg : Config V} {eps : EventPoints V} (p : EventPoint V)
    (hf : eps.eventPointIndex = cfg.maxEventPoints) : addPoint cfg eps p = eps := if_pos hf

theorem addPoint_room {cfg : Config V} {eps : EventPoints V} (h : Shaped cfg eps) (p : EventPoint V)
    (hr : eps.eventPointIndex < cfg.maxEventPoints) :
    (addPoint cfg eps p).live = eps.live ++ [p] ∧ (addPoint cfg eps p).spare = eps.spare.tail ∧
      (addPoint cfg eps p).eventPointIndex = eps.eventPointIndex + 1 := by
  have hlt : eps.eventPointIndex < eps.eventPoints.length := by rw [h.len]; exact hr
  simp only [addPoint, show eps.eventPointIndex ≠ cfg.maxEventPoints by omega, ↓reduceIte, live, spare, and_true]
  refine ⟨?_, ?_⟩
  · rw [List.take_add_one, List.getElem?_set_self hlt, List.take_set_of_le (Nat.le_refl _)]; rfl
  · rw [List.drop_set_of_lt (Nat.lt_succ_self _), List.tail_drop]

/-- A full buffer stays as it is. -/
theorem addPoints_full {cfg : Config V} {eps : EventPoints V} (hf : eps.eventPointIndex = cfg.maxEventPoints) :
    ∀ ps, addPoints cfg eps ps = eps
  | [] => rfl
  | p :: ps => by
    show addPoints cfg (addPoint cfg eps p) ps = eps
    rw [addPoint_full p hf]; exact addPoints_full hf ps

/-- **A block of new points**: as many as there is room for are appended, in order; the rest is ignored. -/
theorem addPoints_live {cfg : Config V} : ∀ {eps : EventPoints V} (ps : List (EventPoint V)), Shaped cfg eps →
    (addPoints cfg eps ps).live = eps.live ++ ps.take (cfg.maxEventPoints - eps.eventPointIndex) ∧
    (addPoints cfg eps ps).eventPointIndex = min (eps.eventPointIndex + ps.length) cfg.maxEventPoints ∧
    (addPoints cfg eps ps).spare.Sublist eps.spare
  | eps, [], h => by
    have := h.idx
    refine ⟨by simp [addPoints], ?_, List.Sublist.refl _⟩
    simp only [addPoints, List.foldl_nil, List.length_nil]; omega
  | eps, p :: ps, h => by
    by_cases hf : eps.eventPointIndex = cfg.maxEventPoints
    · rw [addPoints_full hf]
      refine ⟨by simp [hf], by simp [hf], List.Sublist.refl _⟩
    · have hr : eps.eventPointIndex < cfg.maxEventPoints := by have := h.idx; omega
      obtain ⟨hl, hs, hi⟩ := addPoint_room h p hr
      obtain ⟨ih1, ih2, ih3⟩ := addPoints_live ps (h.addPoint p)
      show (addPoints cfg (addPoint cfg eps p) ps).live = _ ∧ _ ∧ _
      refine ⟨?_, ?_, ?_⟩
      · rw [ih1, hl, hi, show cfg.maxEventPoints - eps.eventPointIndex =
          (cfg.maxEventPoints - (eps.eventPointIndex + 1)) + 1 by omega, List.take_succ_cons, List.append_assoc]
        rfl
      · show (addPoints cfg (addPoint cfg eps p) ps).eventPointIndex = _
        rw [ih2, hi, List.length_cons]; omega
      · exact (hs ▸ ih3).trans (List.tail_sublist _)

end EventPoints

end Olaf
