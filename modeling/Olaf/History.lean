import Olaf.EpExtractor
/-!
# Which frame every slot of the ring holds

After `n` frames the slots below `filterIndex` hold the last `filterIndex` of them in order
(`History.mag`), and under the production filter the same slots of `maxes` hold their window maxima at
the filtered bins and the `0` of `calloc` everywhere else (`Filtering`).
-/

namespace Olaf.EpExtractor
open WindowMax MaxFilter

variable {V : Type} [Sample V]

/-- Frame number `i` of a run. -/
def frameAt (frames : List (Frame V)) (i : Nat) : Frame V := frames.getD i fun _ => Sample.lit 0

/-- The ring after the frames of a run. -/
structure History (cfg : Config V) (frames : List (Frame V)) (ep : State V) : Prop where
  magsLen : ep.mags.length = cfg.filterSizeTime
  maxesLen : ep.maxes.length = cfg.filterSizeTime
  index : ep.filterIndex = min frames.length (cfg.filterSizeTime - 1)
  mag : ∀ k, k < ep.filterIndex →
    slot ep.mags k = magnitudes cfg (frameAt frames (frames.length - ep.filterIndex + k))

/-- What the production filter has left in the ring, for frames of 512 bins. -/
structure Filtering (cfg : Config V) (frames : List (Frame V)) (ep : State V) : Prop where
  window : ∀ k, k < ep.filterIndex → ∀ j, Filtered j →
    IsMaxOver (magnitudes cfg (frameAt frames (frames.length - ep.filterIndex + k))) (windowLo j) (windowHi j)
      (slot ep.maxes k j)
  zero : ∀ k j, ¬ Filtered j → slot ep.maxes k j = Sample.lit 0

theorem history_init (cfg : Config V) : History cfg [] (init cfg) :=
  ⟨by simp [init], by simp [init], by simp [init], fun k hk => by simp [init] at hk⟩

theorem slot_replicate (n k : Nat) : slot (List.replicate n fun _ => (Sample.lit 0 : V)) k = fun _ => Sample.lit 0 := by
  simp only [slot, List.getD_eq_getElem?_getD, List.getElem?_replicate]
  split <;> rfl

theorem filtering_init (cfg : Config V) : Filtering cfg [] (init cfg) :=
  ⟨fun k hk => by simp [init] at hk, fun k j _ => by simp [init, slot_replicate]⟩

theorem frameAt_append (frames : List (Frame V)) (fr : Frame V) (i : Nat) :
    frameAt (frames ++ [fr]) i = if i = frames.length then fr else frameAt frames i := by
  simp only [frameAt, List.getD_eq_getElem?_getD]
  split
  · subst i; simp
  · rcases Nat.lt_or_gt_of_ne ‹_› with h | h
    · rw [List.getElem?_append_left h]
    · rw [List.getElem?_eq_none (by simp; omega), List.getElem?_eq_none (by omega)]

theorem slot_set (ring : List (Nat → V)) (i : Nat) (a : Nat → V) (hi : i < ring.length) (k : Nat) :
    slot (ring.set i a) k = if k = i then a else slot ring k := by
  simp only [slot, List.getD_eq_getElem?_getD]
  split
  · subst k; rw [List.getElem?_set_self hi]; rfl
  · rw [List.getElem?_set_ne (Ne.symm ‹_›)]

theorem slot_rotate (ring : List (Nat → V)) (k : Nat) (hk : k + 1 < ring.length) :
    slot (ring.drop 1 ++ ring.take 1) k = slot ring (k + 1) := by
  simp only [slot, List.getD_eq_getElem?_getD]
  rw [List.getElem?_append_left (by simp; omega), List.getElem?_drop, Nat.add_comm]

/-- Every slot of a rotated ring is a slot of the ring. -/
theorem slot_rotate_mem (ring : List (Nat → V)) (k : Nat) : ∃ k', slot (ring.drop 1 ++ ring.take 1) k = slot ring k' := by
  simp only [slot, List.getD_eq_getElem?_getD]
  by_cases hk : k < (ring.drop 1).length
  · exact ⟨k + 1, by rw [List.getElem?_append_left hk, List.getElem?_drop, Nat.add_comm]⟩
  · rw [List.getElem?_append_right (by omega), List.getElem?_take]
    split
    · exact ⟨_, rfl⟩
    · exact ⟨ring.length, by rw [List.getElem?_eq_none (Nat.le_refl _)]⟩

/-- The slots of a ring below `index` hold something of the last `index` frames, in order. -/
def LastFrames (frames : List (Frame V)) (index : Nat) (ring : List (Nat → V)) (holds : Frame V → (Nat → V) → Prop) : Prop :=
  ∀ k, k < index → holds (frameAt frames (frames.length - index + k)) (slot ring k)

section LastFrames
variable {frames : List (Frame V)} {index : Nat} {ring : List (Nat → V)} {holds : Frame V → (Nat → V) → Prop}

/-- The new frame goes into the slot at `index`. -/
theorem LastFrames.load (h : LastFrames frames index ring holds) (hi : index < ring.length) (hn : index ≤ frames.length)
    {fr : Frame V} {c : Nat → V} (hc : holds fr c) : LastFrames (frames ++ [fr]) (index + 1) (ring.set index c) holds := by
  intro k hk
  rw [List.length_append, List.length_singleton, Nat.add_sub_add_right, frameAt_append, slot_set _ _ _ hi]
  by_cases hlast : k = index
  · rw [if_pos hlast, if_pos (by omega)]
    exact hc
  · rw [if_neg hlast, if_neg (by omega)]
    exact h k (by omega)

/-- The oldest frame goes when the ring rotates. -/
theorem LastFrames.rotate (h : LastFrames frames (index + 1) ring holds) (hi : index < ring.length)
    (hn : index < frames.length) : LastFrames frames index (ring.drop 1 ++ ring.take 1) holds := by
  intro k hk
  rw [slot_rotate _ _ (by omega), show frames.length - index + k = frames.length - (index + 1) + (k + 1) by omega]
  exact h (k + 1) (by omega)

end LastFrames

/-- The slot has the window maxima of the frame. -/
def Windowed (cfg : Config V) (fr : Frame V) (c : Nat → V) : Prop :=
  ∀ j, Filtered j → IsMaxOver (magnitudes cfg fr) (windowLo j) (windowHi j) (c j)

/-- No frame has a negative magnitude. -/
def NonNegative (cfg : Config V) (frames : List (Frame V)) : Prop :=
  ∀ fr ∈ frames, ∀ i, i < 512 → Sample.lit 0 ≤ magnitudes cfg fr i

theorem NonNegative.frameAt {cfg : Config V} {frames : List (Frame V)} (h : NonNegative cfg frames) {k : Nat}
    (hk : k < frames.length) {i : Nat} (hi : i < 512) : Sample.lit 0 ≤ magnitudes cfg (frameAt frames k) i := by
  rw [EpExtractor.frameAt, List.getD_eq_getElem?_getD, List.getElem?_eq_getElem hk]
  exact h _ (List.getElem_mem hk) i hi

section Load
variable {cfg : Config V} {frames : List (Frame V)} {ep : State V}

theorem History.index_lt (h : History cfg frames ep) (hT : 1 ≤ cfg.filterSizeTime) :
    ep.filterIndex < cfg.filterSizeTime := by
  have := h.index; omega

theorem History.load_lastFrames (h : History cfg frames ep) (hT : 1 ≤ cfg.filterSizeTime) (fr : Frame V) :
    LastFrames (frames ++ [fr]) (ep.filterIndex + 1) (load cfg ep fr).mags fun fr c => c = magnitudes cfg fr := by
  have hi := h.index_lt hT
  have hn := h.index
  have hlast : LastFrames frames ep.filterIndex ep.mags fun fr c => c = magnitudes cfg fr := h.mag
  exact hlast.load (by rw [h.magsLen]; exact hi) (by omega) rfl

/-- With the new frame loaded, the slots up to `filterIndex` hold the last frames, the new one included. -/
theorem History.load_mag (h : History cfg frames ep) (hT : 1 ≤ cfg.filterSizeTime) (fr : Frame V) {k : Nat}
    (hk : k ≤ ep.filterIndex) :
    slot (load cfg ep fr).mags k =
      magnitudes cfg (frameAt (frames ++ [fr]) (frames.length - ep.filterIndex + k)) := by
  have hload := h.load_lastFrames hT fr k (by omega)
  rwa [List.length_append, List.length_singleton, Nat.add_sub_add_right] at hload

theorem Filtering.load_lastFrames (f : Filtering cfg frames ep) (h : History cfg frames ep) (hT : 1 ≤ cfg.filterSizeTime)
    (h512 : cfg.audioBlockSize = 1024) {fr : Frame V} (hfr : ∀ i, i < 512 → Sample.lit 0 ≤ magnitudes cfg fr i) :
    LastFrames (frames ++ [fr]) (ep.filterIndex + 1) (load cfg ep fr).maxes (Windowed cfg) := by
  have hi := h.index_lt hT
  have hn := h.index
  have hlast : LastFrames frames ep.filterIndex ep.maxes (Windowed cfg) := f.window
  refine hlast.load (by rw [h.maxesLen]; exact hi) (by omega) ?_
  rw [h512]
  exact fun j hj => (olafMaxFilter_get (low_of_nonneg hfr) _ j).1 hj

theorem Filtering.load_window (f : Filtering cfg frames ep) (h : History cfg frames ep) (hT : 1 ≤ cfg.filterSizeTime)
    (h512 : cfg.audioBlockSize = 1024) {fr : Frame V} (hfr : ∀ i, i < 512 → Sample.lit 0 ≤ magnitudes cfg fr i)
    {k j : Nat} (hk : k ≤ ep.filterIndex) (hj : Filtered j) :
    IsMaxOver (magnitudes cfg (frameAt (frames ++ [fr]) (frames.length - ep.filterIndex + k))) (windowLo j) (windowHi j)
      (slot (load cfg ep fr).maxes k j) := by
  have hload := f.load_lastFrames h hT h512 hfr k (by omega) j hj
  rwa [List.length_append, List.length_singleton, Nat.add_sub_add_right] at hload

theorem Filtering.load_zero (f : Filtering cfg frames ep) (h : History cfg frames ep) (hT : 1 ≤ cfg.filterSizeTime)
    (h512 : cfg.audioBlockSize = 1024) {fr : Frame V} (hfr : ∀ i, i < 512 → Sample.lit 0 ≤ magnitudes cfg fr i)
    (k : Nat) {j : Nat} (hj : ¬ Filtered j) : slot (load cfg ep fr).maxes k j = Sample.lit 0 := by
  simp only [load, slot_set _ _ _ (by rw [h.maxesLen]; exact h.index_lt hT), h512]
  split
  · exact ((olafMaxFilter_get (low_of_nonneg hfr) _ j).2 hj).trans (f.zero _ j hj)
  · exact f.zero k j hj

/-- No slot of `maxes` is negative where no magnitude is. -/
theorem Filtering.load_nonneg (f : Filtering cfg frames ep) (h : History cfg frames ep) (hT : 1 ≤ cfg.filterSizeTime)
    (h512 : cfg.audioBlockSize = 1024) {fr : Frame V} (hmag : NonNegative cfg (frames ++ [fr])) {k : Nat}
    (hk : k ≤ ep.filterIndex) (j : Nat) : Sample.lit 0 ≤ slot (load cfg ep fr).maxes k j := by
  have hn := h.index
  have hfr : ∀ i, i < 512 → Sample.lit 0 ≤ magnitudes cfg fr i := hmag fr (by simp)
  by_cases hj : Filtered j
  · obtain ⟨i, _, hi, hmax⟩ := (f.load_window h hT h512 hfr hk hj).attained
    obtain ⟨_, _, hhi⟩ := window_mem hj
    rw [← hmax]
    exact hmag.frameAt (by rw [List.length_append, List.length_singleton]; omega) (by omega)
  · rw [f.load_zero h hT h512 hfr k hj]

/-- **The ring invariant**: one call moves the history on by one frame. -/
theorem History.extract (h : History cfg frames ep) (hT : 1 ≤ cfg.filterSizeTime) (fr : Frame V) (b : Int) :
    History cfg (frames ++ [fr]) (extract cfg ep fr b) := by
  have hi := h.index_lt hT
  have hn := h.index
  have hlast := h.load_lastFrames hT fr
  have hl1 : (load cfg ep fr).mags.length = cfg.filterSizeTime := by simp [load, h.magsLen]
  have hl2 : (load cfg ep fr).maxes.length = cfg.filterSizeTime := by simp [load, h.maxesLen]
  have hlen : (frames ++ [fr]).length = frames.length + 1 := by simp
  have hli : (load cfg ep fr).filterIndex = ep.filterIndex := rfl
  simp only [EpExtractor.extract, hli]
  by_cases hfull : ep.filterIndex + 1 = cfg.filterSizeTime
  · -- the ring is full: it rotates and the index stays at its last slot
    rw [if_pos hfull]
    refine ⟨?_, ?_, ?_, hlast.rotate (by omega) (by omega)⟩
    · simp only [rotate, extractInternal, List.length_append, List.length_drop, List.length_take, hl1]; omega
    · simp only [rotate, extractInternal, List.length_append, List.length_drop, List.length_take, hl2]; omega
    · simp only [rotate, extractInternal, hlen, hli]; omega
  · rw [if_neg hfull]
    exact ⟨hl1, hl2, by simp only [hlen]; omega, hlast⟩

theorem Filtering.extract (f : Filtering cfg frames ep) (h : History cfg frames ep) (hT : 1 ≤ cfg.filterSizeTime)
    (h512 : cfg.audioBlockSize = 1024) {fr : Frame V} (hfr : ∀ i, i < 512 → Sample.lit 0 ≤ magnitudes cfg fr i)
    (b : Int) : Filtering cfg (frames ++ [fr]) (extract cfg ep fr b) := by
  have hi := h.index_lt hT
  have hn := h.index
  have hlast := f.load_lastFrames h hT h512 hfr
  have hz := fun k {j} => f.load_zero h hT h512 hfr k (j := j)
  have hl2 : (load cfg ep fr).maxes.length = cfg.filterSizeTime := by simp [load, h.maxesLen]
  have hlen : (frames ++ [fr]).length = frames.length + 1 := by simp
  have hli : (load cfg ep fr).filterIndex = ep.filterIndex := rfl
  simp only [EpExtractor.extract, hli]
  by_cases hfull : ep.filterIndex + 1 = cfg.filterSizeTime
  · rw [if_pos hfull]
    refine ⟨hlast.rotate (by omega) (by omega), fun k j hj => ?_⟩
    simp only [rotate, extractInternal]
    obtain ⟨k', hk'⟩ := slot_rotate_mem (load cfg ep fr).maxes k
    rw [hk']; exact hz k' hj
  · rw [if_neg hfull]
    exact ⟨hlast, fun k j hj => hz k hj⟩

end Load

/-- The horizontal maximum of the ring at bin `j`. -/
theorem maxFilterTime_isMax {a : Nat → V} {n : Nat} (hn : 1 ≤ n) (hlow : ∀ t, t < n → Sample.lit (-10000000) ≤ a t) :
    IsMaxOver a 0 (n - 1) (maxFilterTime a n) := by
  have h := isMaxOver_foldl a 0 (Sample.lit (-10000000)) (n - 1)
    (fun t _ ht => hlow t (by omega))
  rwa [Nat.zero_add, show n - 1 + 1 = n by omega] at h

end Olaf.EpExtractor
