import Olaf.History
import Olaf.Library.Checked
import Olaf.Library.Lanes
import Mathlib.Data.List.Induction
/-!
# The time filter in four lanes (`olaf_ep_extractor.c`)

| here | there |
| --- | --- |
| `Float32x4`, `Float32x2` | `float32x4_t` and `float32x2_t` of `arm_neon.h` |
| `vld1q`, `vmaxq`, `vpmax`, `vgetLow`, `vgetHigh`, `vgetLane` | the intrinsics `vld1q_f32`, `vmaxq_f32`, `vpmax_f32`, `vget_low_f32`, `vget_high_f32` and `vget_lane_f32` |
| `maxFilterTime`   | `olaf_ep_extractor_max_filter_time` with NEON (`:95`); `EpExtractor.maxFilterTime` is the fallback (`:109`) |
| `isPeak`, `extractInternal`, `extract` | the functions of `EpExtractor` that call it (`:128-181`, `:215`) |

The assertion and every access are checked: a run of the filter ends in a fault iff the length is not a positive multiple of four.
Four running maxima are put together at the end, and `maxFilterTime_agrees` is that this is the maximum that the fallback finds in
one pass. With either of them the extractor finds the same event points in every run (`run_agrees`).
-/

namespace Olaf.NeonFilter
open Checked Lanes WindowMax

variable {V : Type}

abbrev Float32x4 (V : Type) := Fin 4 → V
abbrev Float32x2 (V : Type) := Fin 2 → V

/-- Four elements from `array[i]` on. -/
def vld1q (array : Buffer V) (i : Nat) : Option (Float32x4 V) := do
  let x0 ← array.load i
  let x1 ← array.load (i + 1)
  let x2 ← array.load (i + 2)
  let x3 ← array.load (i + 3)
  return ![x0, x1, x2, x3]

def vgetLow (v : Float32x4 V) : Float32x2 V := ![v 0, v 1]
def vgetHigh (v : Float32x4 V) : Float32x2 V := ![v 2, v 3]
def vgetLane (v : Float32x2 V) (lane : Fin 2) : V := v lane

section Filter
variable [LinearOrder V]

/-- Lane by lane. -/
def vmaxq (v x : Float32x4 V) : Float32x4 V := fun l => max (v l) (x l)

/-- The neighbours in the first register, then those in the second. -/
def vpmax (v x : Float32x2 V) : Float32x2 V := ![max (v 0) (v 1), max (x 0) (x 1)]

/-- The loop variable and `vec_max`; one turn for each element is more than enough. -/
def maxFilterTime (array : Buffer V) : Option V :=
  if array.size % 4 = 0 then do
    let vecMax ← vld1q array 0
    let s ← whileLoop (fun s : Nat × Float32x4 V => s.1 < array.size) (fun s => do
        let vec ← vld1q array s.1
        return (sizeT (s.1 + 4), vmaxq s.2 vec))
      array.size (4, vecMax)
    let maxVal := vpmax (vgetLow s.2) (vgetHigh s.2)
    let maxVal := vpmax maxVal maxVal
    return vgetLane maxVal 0
  else none

/-! ## Four running maxima and the two steps that put them together -/

omit [LinearOrder V] in
theorem vld1q_returns {array : Buffer V} {i : Nat} (hi : i + 4 ≤ array.size) :
    Returns (vld1q array i) fun v => ∀ l : Fin 4, v l = array.cell (i + l) := by
  apply Buffer.bind_load (by omega)
  apply Buffer.bind_load (by omega)
  apply Buffer.bind_load (by omega)
  apply Buffer.bind_load (by omega)
  refine Returns.pure fun l => ?_
  match l with
  | 0 | 1 | 2 | 3 => rfl

/-- The two pairwise steps give the maximum of all four lanes. -/
theorem vpmax_isGreatest (v : Float32x4 V) : IsGreatest (Set.range v)
    (vgetLane (vpmax (vpmax (vgetLow v) (vgetHigh v)) (vpmax (vgetLow v) (vgetHigh v))) 0) := by
  have hall : Set.range v = {v 0, v 1} ∪ {v 2, v 3} := by
    ext y
    have hlanes : (∃ l, v l = y) ↔ v 0 = y ∨ v 1 = y ∨ v 2 = y ∨ v 3 = y := by
      rw [Fin.exists_fin_succ, Fin.exists_fin_succ, Fin.exists_fin_two]
      rfl
    rw [Set.mem_range, hlanes]
    simp only [Set.mem_union, Set.mem_insert_iff, Set.mem_singleton_iff, eq_comm (a := y), or_assoc]
  rw [hall]
  exact isGreatest_pair.union isGreatest_pair

/-- The variables of the loop after the elements below `j`. -/
structure Folded (array : Buffer V) (s : Nat × Float32x4 V) : Prop where
  lanes : LaneMax array.cell s.1 s.2
  aligned : 4 ∣ s.1
  inside : s.1 ≤ array.size

theorem Folded.step {array : Buffer V} {s : Nat × Float32x4 V} (h : Folded array s) (h4 : 4 ∣ array.size)
    (hfits : array.size < 2 ^ 64) (hmore : s.1 < array.size) : Returns (do
      let vec ← vld1q array s.1
      return (sizeT (s.1 + 4), vmaxq s.2 vec)) fun s' => Folded array s' ∧ array.size - s'.1 < array.size - s.1 := by
  obtain ⟨j, v⟩ := s
  obtain ⟨hlanes, haligned, _⟩ := h
  dsimp only at hlanes haligned hmore ⊢
  refine (vld1q_returns (by omega)).bind fun vec hvec => ?_
  rw [show sizeT ((j : Int) + 4) = j + 4 from sizeT_eq (by omega) (by omega)]
  exact Returns.pure ⟨⟨hlanes.next haligned hvec, by omega, by omega⟩, by omega⟩

/-- **The filter in four lanes** ends, reads inside the array only and gives its maximum. -/
theorem maxFilterTime_returns {array : Buffer V} (hpos : 0 < array.size) (h4 : array.size % 4 = 0)
    (hfits : array.size < 2 ^ 64) : Returns (maxFilterTime array) (IsMaxOver array.cell 0 (array.size - 1)) := by
  rw [maxFilterTime, if_pos h4]
  have hdvd := Nat.dvd_of_mod_eq_zero h4
  refine (vld1q_returns (i := 0) (by omega)).bind fun first hfirst => ?_
  have hstart : Folded array (4, first) :=
    ⟨laneMax_first array.cell fun l => (hfirst l).trans (by rw [Nat.zero_add]), Nat.dvd_refl 4, by dsimp only; omega⟩
  refine (whileLoop_returns (Folded array) (fun s => array.size - s.1) ?_ (by dsimp only; omega) hstart).bind ?_
  · intro s hs hmore
    exact hs.step hdvd hfits (of_decide_eq_true hmore)
  · rintro ⟨j, v⟩ ⟨⟨hlanes, _, hinside⟩, hend⟩
    have hj : j = array.size - 1 + 1 := by
      have hle := of_decide_eq_false hend
      dsimp only at hle hinside
      omega
    dsimp only at hlanes
    rw [hj] at hlanes
    exact Returns.pure (hlanes.isMaxOver (by omega) (vpmax_isGreatest v))

/-- Without the assertion, or without a first element, there is no result. -/
theorem maxFilterTime_isSome_iff {array : Buffer V} (hfits : array.size < 2 ^ 64) :
    (maxFilterTime array).isSome ↔ 0 < array.size ∧ array.size % 4 = 0 := by
  constructor
  · intro h
    by_cases h4 : array.size % 4 = 0
    · refine ⟨?_, h4⟩
      by_contra hempty
      have hload : array.load 0 = none := if_neg hempty
      rw [maxFilterTime, if_pos h4, vld1q, hload] at h
      cases h
    · rw [maxFilterTime, if_neg h4] at h
      cases h
  · rintro ⟨hpos, h4⟩
    obtain ⟨m, hm, _⟩ := maxFilterTime_returns hpos h4 hfits
    rw [hm]
    rfl

end Filter

/-! ## The fallback -/

section Agree
variable [Sample V]

theorem maxFilterTime_eq (array : Buffer V) (hpos : 0 < array.size) (h4 : array.size % 4 = 0) (hfits : array.size < 2 ^ 64)
    (hlow : ∀ i, i < array.size → Sample.lit (-10000000) ≤ array.cell i) :
    maxFilterTime array = some (EpExtractor.maxFilterTime array.cell array.size) := by
  obtain ⟨m, hm, hmax⟩ := maxFilterTime_returns hpos h4 hfits
  rw [hm, hmax.unique (EpExtractor.maxFilterTime_isMax hpos hlow)]

/-- **The two time filters agree**: for values above the start value of the fallback both give the maximum of the array. -/
theorem maxFilterTime_agrees (array : Floats V) (hpos : 0 < array.size) (h4 : array.size % 4 = 0)
    (hlow : ∀ i, i < array.size → Sample.lit (-10000000) < array.cell i) :
    Returns (maxFilterTime array.toBuffer) fun m =>
      m = EpExtractor.maxFilterTime array.cell array.size ∧ IsMaxOver array.cell 0 (array.size - 1) m := by
  have hfits := array.fits
  have hle : ∀ i, i < array.size → Sample.lit (-10000000) ≤ array.cell i := fun i hi => le_of_lt (hlow i hi)
  exact ⟨_, maxFilterTime_eq _ hpos h4 (by omega) hle, rfl, EpExtractor.maxFilterTime_isMax hpos hle⟩

end Agree

/-- The maximum is in the second turn of the loop, and not in the first lane. -/
def eightValues : Floats ℚ := ⟨⟨8, fun i => [3, 1, 4, 1, 5, 9, 2, 6].getD i 0⟩, by decide⟩

theorem maxFilterTime_agrees_eightValues : Returns (maxFilterTime eightValues.toBuffer) fun m =>
    m = EpExtractor.maxFilterTime eightValues.cell eightValues.size ∧
      IsMaxOver eightValues.cell 0 (eightValues.size - 1) m :=
  maxFilterTime_agrees eightValues (by decide) (by decide) (by decide +kernel)

/-! ## The extractor -/

section Extractor
open EpExtractor MaxFilter

variable [Sample V]

/-- Whether bin `j` of the middle frame is an event point. -/
def isPeak (cfg : Config V) (mags maxes : List (Nat → V)) (j : Nat) : Option Bool :=
  let currentVal := slot mags cfg.halfFilterSizeTime j
  if currentVal < cfg.minEventPointMagnitude ∨ currentVal ≠ slot maxes cfg.halfFilterSizeTime j then some false
  else do
    let maxVal ← maxFilterTime ⟨cfg.filterSizeTime, fun t => slot maxes t j⟩
    return currentVal = maxVal

def extractInternal (cfg : Config V) (ep : State V) (audioBlockIndex : Int) : Option (State V) := do
  let eventPoints ← (bins cfg).foldlM (fun eps j => do
    if ← isPeak cfg ep.mags ep.maxes j then return eps.addPoint cfg (peakPoint cfg ep.mags audioBlockIndex j)
    else return eps) ep.eventPoints
  return { ep with eventPoints }

def extract (cfg : Config V) (ep : State V) (fftOut : Frame V) (audioBlockIndex : Int) : Option (State V) := do
  let ep := load cfg ep fftOut
  if ep.filterIndex + 1 = cfg.filterSizeTime then return rotate (← extractInternal cfg ep audioBlockIndex)
  else return { ep with filterIndex := ep.filterIndex + 1 }

/-- The time filter can work in steps of four. -/
structure Aligned (cfg : Config V) : Prop where
  pos : 0 < cfg.filterSizeTime
  four : cfg.filterSizeTime % 4 = 0
  fits : cfg.filterSizeTime < 2 ^ 64

variable {cfg : Config V} {ep : State V}

theorem isPeak_agrees (hcfg : Aligned cfg) {maxes : List (Nat → V)} {j : Nat}
    (hlow : ∀ t, t < cfg.filterSizeTime → Sample.lit (-10000000) ≤ slot maxes t j) (mags : List (Nat → V)) :
    isPeak cfg mags maxes j = some (EpExtractor.isPeak cfg mags maxes j) := by
  dsimp only [isPeak, EpExtractor.isPeak]
  rw [maxFilterTime_eq ⟨cfg.filterSizeTime, fun t => slot maxes t j⟩ hcfg.pos hcfg.four hcfg.fits hlow]
  split <;> rfl

theorem extractInternal_agrees (hcfg : Aligned cfg)
    (hlow : ∀ t, t < cfg.filterSizeTime → ∀ j, Sample.lit (-10000000) ≤ slot ep.maxes t j) (audioBlockIndex : Int) :
    extractInternal cfg ep audioBlockIndex = some (EpExtractor.extractInternal cfg ep audioBlockIndex) := by
  have hbody : (fun eps j => do
      if ← isPeak cfg ep.mags ep.maxes j then return eps.addPoint cfg (peakPoint cfg ep.mags audioBlockIndex j)
      else return eps) = fun (eps : EventPoints V) j => (Pure.pure (if EpExtractor.isPeak cfg ep.mags ep.maxes j then
        eps.addPoint cfg (peakPoint cfg ep.mags audioBlockIndex j) else eps) : Option (EventPoints V)) := by
    funext eps j
    rw [isPeak_agrees hcfg fun t ht => hlow t ht j, Option.bind_eq_bind, Option.bind_some]
    split <;> rfl
  rw [extractInternal, hbody, List.foldlM_pure]
  rfl

theorem extract_agrees (hcfg : Aligned cfg) (h512 : cfg.audioBlockSize = 1024) {frames : List (Frame V)}
    (h : History cfg frames ep) (f : Filtering cfg frames ep) {fr : Frame V} (hmag : NonNegative cfg (frames ++ [fr]))
    (audioBlockIndex : Int) : extract cfg ep fr audioBlockIndex = some (EpExtractor.extract cfg ep fr audioBlockIndex) := by
  rw [extract, EpExtractor.extract]
  by_cases hfull : (load cfg ep fr).filterIndex + 1 = cfg.filterSizeTime
  · have hindex : ep.filterIndex + 1 = cfg.filterSizeTime := hfull
    have hlow : ∀ t, t < cfg.filterSizeTime → ∀ j, Sample.lit (-10000000) ≤ slot (load cfg ep fr).maxes t j := by
      intro t ht j
      have hzero := f.load_nonneg h hcfg.pos h512 hmag (k := t) (by omega) j
      exact le_trans (Sample.lit_mono (by decide +kernel)) hzero
    rw [if_pos hfull, if_pos hfull, extractInternal_agrees hcfg hlow]
    rfl
  · rw [if_neg hfull, if_neg hfull]
    rfl

/-- **Both extractors find the same** in every run on frames of 512 magnitudes. -/
theorem run_agrees (hcfg : Aligned cfg) (h512 : cfg.audioBlockSize = 1024) (calls : List (Frame V × Int))
    (hmag : NonNegative cfg (calls.map Prod.fst)) :
    calls.foldlM (fun ep c => extract cfg ep c.1 c.2) (init cfg) =
      some (calls.foldl (fun ep c => EpExtractor.extract cfg ep c.1 c.2) (init cfg)) := by
  -- the ring of the run so far goes into the next call
  have hrun : calls.foldlM (fun ep c => extract cfg ep c.1 c.2) (init cfg) =
        some (calls.foldl (fun ep c => EpExtractor.extract cfg ep c.1 c.2) (init cfg)) ∧
      History cfg (calls.map Prod.fst) (calls.foldl (fun ep c => EpExtractor.extract cfg ep c.1 c.2) (init cfg)) ∧
      Filtering cfg (calls.map Prod.fst) (calls.foldl (fun ep c => EpExtractor.extract cfg ep c.1 c.2) (init cfg)) := by
    induction calls using List.reverseRecOn with
    | nil => exact ⟨rfl, history_init cfg, filtering_init cfg⟩
    | append_singleton calls c ih =>
      rw [List.map_append, List.map_singleton] at hmag ⊢
      obtain ⟨hsame, h, f⟩ := ih fun fr hfr => hmag fr (List.mem_append_left _ hfr)
      rw [List.foldlM_append, List.foldl_append, hsame]
      refine ⟨?_, h.extract hcfg.pos c.1 c.2, f.extract h hcfg.pos h512 (hmag c.1 (by simp)) c.2⟩
      rw [Option.bind_eq_bind, Option.bind_some, List.foldlM_cons, extract_agrees hcfg h512 h f hmag]
      rfl
  exact hrun.1

end Extractor

end Olaf.NeonFilter
