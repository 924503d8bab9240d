import Olaf.StreamProcessor
/-!
# Frames that are one or zero in every bin

Under the default configuration a frame with magnitude one in the bins of a pattern and zero elsewhere
yields, eleven calls later, exactly the filtered bins of its pattern: every window maximum above them is
one (`found_impulses`). So a list of patterns is a list of blocks of event points (`detected_impulses`),
and the limits of the extractors can be met with frames written down bin by bin.
-/

namespace Olaf.EpExtractor
open WindowMax MaxFilter

/-- The frame whose magnitude is one in the bins of `s` and zero elsewhere. -/
def impulses (s : List Nat) : Frame ℚ := fun i => if i % 2 = 0 ∧ i / 2 ∈ s then 1 else 0

theorem magnitudes_impulses (s : List Nat) (m : Nat) :
    magnitudes (.default ℚ) (impulses s) m = if m ∈ s then 1 else 0 := by
  have h1 : (2 * m) % 2 = 0 := by omega
  have h2 : ¬ (2 * m + 1) % 2 = 0 := by omega
  have h3 : 2 * m / 2 = m := by omega
  simp only [magnitudes, Config.default, Bool.false_eq_true, ↓reduceIte, impulses, h1, h2, h3, true_and, false_and]
  show (if m ∈ s then (1 : ℚ) else 0) * (if m ∈ s then (1 : ℚ) else 0) + 0 * 0 = _
  split <;> simp

theorem impulses_nonneg (s : List Nat) (i : Nat) (_ : i < 512) :
    (Sample.lit 0 : ℚ) ≤ magnitudes (.default ℚ) (impulses s) i := by
  rw [magnitudes_impulses]
  show (0 : ℚ) ≤ _
  split <;> decide +kernel

theorem nonNegative_impulses (pats : List (List Nat)) : NonNegative (.default ℚ) (pats.map impulses) := by
  intro fr hfr
  obtain ⟨s, _, rfl⟩ := List.mem_map.1 hfr
  exact impulses_nonneg s

theorem frameAt_impulses (pats : List (List Nat)) (i : Nat) :
    magnitudes (.default ℚ) (frameAt (pats.map impulses) i) = magnitudes (.default ℚ) (impulses (pats.getD i [])) := by
  simp only [frameAt, List.getD_eq_getElem?_getD, List.getElem?_map]
  cases pats[i]? with
  | some s => rfl
  | none =>
    funext m
    rw [Option.map_none, Option.getD_none, Option.getD_none, magnitudes_impulses]
    show (0 : ℚ) * 0 + 0 * 0 = _
    simp

/-- The maximum of a window of ones and zeros is one as soon as one bin is. -/
theorem isMaxOver_impulses {s : List Nat} {lo hi : Nat} {m : ℚ}
    (h : IsMaxOver (magnitudes (.default ℚ) (impulses s)) lo hi m) :
    (0 ≤ m ∧ m ≤ 1) ∧ ∀ j ∈ s, lo ≤ j → j ≤ hi → m = 1 := by
  have h01 : (0 ≤ m ∧ m ≤ 1) := by
    obtain ⟨i, _, _, rfl⟩ := h.attained
    rw [magnitudes_impulses]
    split <;> decide +kernel
  refine ⟨h01, fun j hj h1 h2 => le_antisymm h01.2 ?_⟩
  have := h.bound j h1 h2
  rwa [magnitudes_impulses, if_pos hj] at this

/-- An impulse in bin 200 of frame 12; the frame after these is the 24th. -/
def oneImpulse : List (List Nat) := List.replicate 12 [] ++ [200] :: List.replicate 10 []

/-- The bins the default extractor can report. -/
def reportable : List Nat := (bins (.default ℚ)).filter fun j => Filtered j

/-- The ring when it is full of impulse frames: the pattern in slot `k` is `P k`. -/
structure ImpulseRing (P : Nat → List Nat) (mags maxes : List (Nat → ℚ)) : Prop where
  mag : ∀ k, k ≤ 23 → slot mags k = magnitudes (.default ℚ) (impulses (P k))
  window : ∀ k, k ≤ 23 → ∀ j, Filtered j →
    IsMaxOver (magnitudes (.default ℚ) (impulses (P k))) (windowLo j) (windowHi j) (slot maxes k j)
  zero : ∀ k j, ¬ Filtered j → slot maxes k j = 0

/-- Where the middle pattern has a filtered bin, the maxima in frequency and in time are one. -/
theorem ImpulseRing.maxima {P : Nat → List Nat} {mags maxes : List (Nat → ℚ)} (h : ImpulseRing P mags maxes) {j : Nat}
    (hf : Filtered j) (hj : j ∈ P 12) : slot maxes 12 j = 1 ∧ maxFilterTime (fun t => slot maxes t j) 24 = 1 := by
  have hwm := window_mem hf
  have hv : slot maxes 12 j = 1 := (isMaxOver_impulses (h.window 12 (by omega) j hf)).2 j hj hwm.1 hwm.2.1
  have h01 : ∀ t, t < 24 → 0 ≤ slot maxes t j ∧ slot maxes t j ≤ 1 := fun t ht =>
    (isMaxOver_impulses (h.window t (by omega) j hf)).1
  have ht := maxFilterTime_isMax (a := fun t => slot maxes t j) (n := 24) (by omega)
    (fun t ht => le_trans (by decide +kernel) (h01 t ht).1)
  obtain ⟨t, _, ht2, htv⟩ := ht.attained
  exact ⟨hv, le_antisymm (htv ▸ (h01 t (by omega)).2) (hv ▸ ht.bound 12 (by omega) (by omega))⟩

theorem ImpulseRing.isPeak {P : Nat → List Nat} {mags maxes : List (Nat → ℚ)} (h : ImpulseRing P mags maxes) (j : Nat) :
    isPeak (.default ℚ) mags maxes j = decide (Filtered j ∧ j ∈ P 12) := by
  have hhalf : (Config.default ℚ).halfFilterSizeTime = 12 := rfl
  have hsize : (Config.default ℚ).filterSizeTime = 24 := rfl
  have hmin : (Config.default ℚ).minEventPointMagnitude = (1 / 1000 : ℚ) := rfl
  simp only [EpExtractor.isPeak, hhalf, hsize, hmin, h.mag 12 (by omega), magnitudes_impulses]
  by_cases hj : j ∈ P 12
  swap
  · simp only [hj, ↓reduceIte, and_false, decide_false]
    exact if_pos (Or.inl (by decide +kernel))
  by_cases hf : Filtered j
  swap
  · rw [if_pos hj, h.zero 12 j hf]
    simp only [hf, false_and, decide_false]
    exact if_pos (Or.inr (by decide +kernel))
  obtain ⟨hv, ht⟩ := h.maxima hf hj
  rw [if_pos hj, hv, ht]
  simp only [hj, hf, and_self, decide_true]
  rw [if_neg (by rintro (h | h) <;> revert h <;> decide +kernel)]

/-- The event points that frame `i` of a list of patterns yields. -/
def impulseBlock (pats : List (List Nat)) (i : Nat) : List (EventPoint ℚ) :=
  if 23 ≤ i then (reportable.filter fun j => j ∈ pats.getD (i - 11) []).map fun j : Nat => ⟨j, i - 12, 1, 0⟩ else []

/-- **What the extractor finds in impulse frames**: once the ring is full, every filtered bin that is one
in the frame eleven calls back. -/
theorem found_impulses {pats : List (List Nat)} {ep : State ℚ} (h : History (.default ℚ) (pats.map impulses) ep)
    (f : Filtering (.default ℚ) (pats.map impulses) ep) (s : List Nat) :
    found (.default ℚ) ep (impulses s) pats.length = impulseBlock (pats ++ [s]) pats.length := by
  have hn : ep.filterIndex = min pats.length 23 := by simpa [Config.default] using h.index
  have hli : (load (.default ℚ) ep (impulses s)).filterIndex = ep.filterIndex := rfl
  have hT : 1 ≤ (Config.default ℚ).filterSizeTime := by decide
  simp only [found, impulseBlock, hli]
  by_cases hfull : 23 ≤ pats.length
  swap
  · rw [if_neg (by simp only [Config.default]; omega), if_neg hfull]
  have hi : ep.filterIndex = 23 := by omega
  rw [if_pos (by simp only [Config.default]; omega), if_pos hfull]
  have happ : pats.map impulses ++ [impulses s] = (pats ++ [s]).map impulses := by simp
  have hring : ImpulseRing (fun k => (pats ++ [s]).getD (pats.length - 23 + k) []) (load (.default ℚ) ep (impulses s)).mags
      (load (.default ℚ) ep (impulses s)).maxes := by
    refine ⟨fun k hk => ?_, fun k hk j hj => ?_, fun k j hj => f.load_zero h hT rfl (impulses_nonneg s) k hj⟩
    · rw [h.load_mag hT (impulses s) (by omega), happ, frameAt_impulses, List.length_map, hi]
    · have hw := f.load_window h hT rfl (impulses_nonneg s) (k := k) (by omega) hj
      rwa [happ, frameAt_impulses, List.length_map, hi] at hw
  have hmid : pats.length - 23 + 12 = pats.length - 11 := by omega
  have hpeak := hring.isPeak
  have hmag := hring.mag 12 (by omega)
  simp only [hmid] at hpeak hmag
  generalize load (.default ℚ) ep (impulses s) = ld at hpeak hmag ⊢
  generalize (pats ++ [s]).getD (pats.length - 11) [] = pat at hpeak hmag ⊢
  simp only [peaks, reportable, List.filter_filter]
  rw [List.filter_congr (q := fun j => decide (j ∈ pat) && decide (Filtered j))
    (fun j _ => by rw [hpeak j, Bool.decide_and, Bool.and_comm])]
  refine List.map_congr_left fun j hj => ?_
  have hm : j ∈ pat := of_decide_eq_true (Bool.and_eq_true_iff.1 (List.mem_filter.1 hj).2).1
  have hhalf : (Config.default ℚ).halfFilterSizeTime = 12 := rfl
  simp only [peakPoint, hhalf, hmag, magnitudes_impulses, if_pos hm]
  rfl

end Olaf.EpExtractor

namespace Olaf.StreamProcessor
open EpExtractor

theorem detect_impulses (pats : List (List Nat)) :
    History (.default ℚ) (pats.map impulses) (detect (.default ℚ) (pats.map impulses)).1 ∧
      Filtering (.default ℚ) (pats.map impulses) (detect (.default ℚ) (pats.map impulses)).1 := by
  have hT : 1 ≤ (Config.default ℚ).filterSizeTime := by decide
  exact ⟨detect_history hT _, detect_filtering hT rfl (nonNegative_impulses pats)⟩

/-- **The event points of a run on impulse frames.** -/
theorem detected_impulses (pats : List (List Nat)) :
    detected (.default ℚ) (pats.map impulses) = (List.range pats.length).map (impulseBlock pats) := by
  induction pats using List.reverseRecOn with
  | nil => rfl
  | append_singleton pats s ih =>
    obtain ⟨h, f⟩ := detect_impulses pats
    have hlast := found_impulses h f s
    rw [List.map_append, List.map_singleton, detected_append, List.length_map, hlast, ih, List.length_append,
      List.length_singleton, List.range_succ, List.map_append, List.map_singleton]
    congr 1
    -- the earlier frames do not see the new one
    refine List.map_congr_left fun i hi => ?_
    have hi : i < pats.length := List.mem_range.1 hi
    simp only [impulseBlock, List.getD_eq_getElem?_getD]
    rw [List.getElem?_append_left (by omega)]

theorem run_impulses (q : Sorting.QSort (EventPoint ℚ) EventPoint.timeIndex) (pats : List (List Nat)) (s : List Nat) :
    Stream.run (.default ℚ) q (detected (.default ℚ) ((pats ++ [s]).map impulses)) =
      Stream.step (.default ℚ) q (Stream.run (.default ℚ) q (detected (.default ℚ) (pats.map impulses)))
        (impulseBlock (pats ++ [s]) pats.length) := by
  obtain ⟨h, f⟩ := detect_impulses pats
  rw [List.map_append, List.map_singleton, detected_append, Stream.run_append, List.length_map, found_impulses h f s]

/-- Nothing is found before the ring is full. -/
theorem run_quiet (q : Sorting.QSort (EventPoint ℚ) EventPoint.timeIndex) {pats : List (List Nat)}
    (h : pats.length ≤ 23) :
    (Stream.run (.default ℚ) q (detected (.default ℚ) (pats.map impulses))).eventPoints = .init (.default ℚ) := by
  induction pats using List.reverseRecOn with
  | nil => rfl
  | append_singleton pats s ih =>
    rw [List.length_append, List.length_singleton] at h
    rw [run_impulses, impulseBlock, if_neg (by omega), Stream.step, ih (by omega)]
    rfl

/-- The buffer that frame `i` of a run on impulse frames leaves to the fingerprint extractor. -/
theorem loop_impulses (q : Sorting.QSort (EventPoint ℚ) EventPoint.timeIndex) (pats : List (List Nat)) {i : Nat}
    {fr : Frame ℚ} (h : (pats.map impulses)[i]? = some fr) :
    (EpExtractor.extract (.default ℚ) (loop (.default ℚ) q collect [] ((pats.map impulses).take i)).epExtractor fr
      i).eventPoints = (Stream.run (.default ℚ) q (((List.range pats.length).map (impulseBlock pats)).take i)).eventPoints.addPoints
        (.default ℚ) (impulseBlock pats i) := by
  have hi := (List.getElem?_eq_some_iff.1 h).1
  rw [List.length_map] at hi
  have hget := (detected_get (.default ℚ) h).2
  rw [detected_impulses, List.getElem?_map, List.getElem?_range hi, Option.map_some, Option.some.injEq] at hget
  rw [extract_buffer _ q collect [] h, detected_impulses, hget]

end Olaf.StreamProcessor
