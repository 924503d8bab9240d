import Olaf.History
import Olaf.Library.Growing
import Olaf.Library.Pointers
/-!
# The ring of frames behind its pointers (`olaf_ep_extractor.c`)

| here | there |
| --- | --- |
| `Calloc`, `new`   | the addresses that `calloc` returns, and `olaf_ep_extractor_new` (`:42`) |
| `State`           | `struct Olaf_EP_Extractor` (`:24`) with the pointers in `mags` and `maxes`, and the buffers at the addresses |
| `load`, `extract` | `olaf_ep_extractor_extract` (`:215`), the first up to the filter |
| `extractInternal` | `extract_internal` (`:128`), which goes through the pointers |
| `rotate`          | `rotate` (`:185`), with its assertion |
| `epExtractorMags` | `olaf_ep_extractor_mags` (`:205`) |

A pointer that is read or written outside its array is a fault; the magnitudes, the filter and the index of the block are as in
`EpExtractor`. Seen through its pointers the ring is the one there (`view`), as long as no two of them are the same (`Ring`), and
that is what a rotation keeps. `run_faithful` says which frames are behind which pointers in every call of a run.
-/

namespace Olaf.FrameRing
open Checked EpExtractor Growing MaxFilter Pointers

variable {V : Type} [Sample V]

/-- The address of every block that is allocated. -/
structure Calloc where
  address : Nat → Nat
  distinct : address.Injective

structure State (V : Type) where
  buffers : Nat → Nat → V
  mags : List Nat
  maxes : List Nat
  filterIndex : Nat
  eventPoints : EventPoints V

/-- In each round of the loop one block for `maxes` and then one for `mags`. -/
def new (cfg : Config V) (calloc : Calloc) : State V where
  buffers := fun _ _ => Sample.lit 0
  mags := (List.range cfg.filterSizeTime).map fun i => calloc.address (2 * i + 1)
  maxes := (List.range cfg.filterSizeTime).map fun i => calloc.address (2 * i)
  filterIndex := 0
  eventPoints := .init cfg

/-- The ring as its pointers show it. -/
def view (ep : State V) : EpExtractor.State V :=
  ⟨ep.mags.map ep.buffers, ep.maxes.map ep.buffers, ep.filterIndex, ep.eventPoints⟩

def load (cfg : Config V) (ep : State V) (fftOut : Frame V) : Option (State V) := do
  let mags ← ep.mags[ep.filterIndex]?
  let maxes ← ep.maxes[ep.filterIndex]?
  let buffers := Function.update ep.buffers mags (magnitudes cfg fftOut)
  return { ep with
    buffers := Function.update buffers maxes (olafMaxFilter (buffers mags) (cfg.audioBlockSize / 2) (buffers maxes)) }

def extractInternal (cfg : Config V) (ep : State V) (audioBlockIndex : Int) : State V :=
  { ep with eventPoints := (EpExtractor.extractInternal cfg (view ep) audioBlockIndex).eventPoints }

/-- One round of the loop of `rotate`. -/
def shiftBoth (i : Nat) (ptrs : List Nat × List Nat) : Option (List Nat × List Nat) := do
  let maxes ← shift ptrs.1 i
  let mags ← shift ptrs.2 i
  return (maxes, mags)

def rotate (cfg : Config V) (ep : State V) : Option (State V) := do
  let tempMax ← ep.maxes[0]?
  let tempMag ← ep.mags[0]?
  let (maxes, mags) ← forUp 1 cfg.filterSizeTime shiftBoth (ep.maxes, ep.mags)
  if ep.filterIndex + 1 = cfg.filterSizeTime then
    let maxes ← store maxes (cfg.filterSizeTime - 1) tempMax
    let mags ← store mags (cfg.filterSizeTime - 1) tempMag
    return { ep with mags, maxes }
  else none

/-- What a call leaves, and the ring that `extract_internal` runs on, if it runs. -/
structure Call (V : Type) where
  internal : Option (State V)
  after : State V

def extract (cfg : Config V) (ep : State V) (fftOut : Frame V) (audioBlockIndex : Int) : Option (Call V) := do
  let ep ← load cfg ep fftOut
  if ep.filterIndex + 1 = cfg.filterSizeTime then
    let after ← rotate cfg (extractInternal cfg ep audioBlockIndex)
    return ⟨some ep, after⟩
  else return ⟨none, { ep with filterIndex := ep.filterIndex + 1 }⟩

/-- `ptrs[i]`; there is nothing before the first pointer. -/
def pointerAt (ptrs : List Nat) (i : Int) : Option Nat := if 0 ≤ i then ptrs[i.toNat]? else none

def epExtractorMags (cfg : Config V) (ep : State V) : Option Nat :=
  if ep.filterIndex + 1 = cfg.filterSizeTime then pointerAt ep.mags (cfg.filterSizeTime - 2)
  else pointerAt ep.mags (ep.filterIndex - 1)

/-- The calls of a run, each with a frame and the index of its block. -/
def run (cfg : Config V) (calloc : Calloc) (calls : List (Frame V × Int)) : Option (List (Call V) × State V) :=
  calls.foldlM (fun r c => do
    let call ← extract cfg r.2 c.1 c.2
    return (r.1 ++ [call], call.after)) ([], new cfg calloc)

/-! ## No two pointers are the same -/

/-- What holds between the calls and while `extract_internal` runs; in the middle of `rotate` one pointer is in two places, and
another one is kept aside. -/
structure Ring (cfg : Config V) (ep : State V) : Prop where
  magsLen : ep.mags.length = cfg.filterSizeTime
  maxesLen : ep.maxes.length = cfg.filterSizeTime
  distinct : (ep.mags ++ ep.maxes).Nodup
  index : ep.filterIndex < cfg.filterSizeTime

section Ring
variable {cfg : Config V} {ep : State V}

theorem ring_new (calloc : Calloc) (hT : 1 ≤ cfg.filterSizeTime) : Ring cfg (new cfg calloc) := by
  refine ⟨by simp [new], by simp [new], ?_, hT⟩
  simp only [new, List.nodup_append, List.mem_map]
  refine ⟨List.nodup_range.map ?_, List.nodup_range.map ?_, ?_⟩
  · intro i j hij
    have := calloc.distinct hij
    omega
  · intro i j hij
    have := calloc.distinct hij
    omega
  · rintro _ ⟨i, _, rfl⟩ _ ⟨j, _, rfl⟩ hij
    have := calloc.distinct hij
    omega

theorem view_new (calloc : Calloc) : view (new cfg calloc) = init cfg := by
  simp [view, new, init, Function.comp_def]

/-- The frame is written through the pointers at `filterIndex`, and no other pointer shows it. -/
theorem load_returns (h : Ring cfg ep) (fftOut : Frame V) :
    Returns (load cfg ep fftOut) fun ep' => Ring cfg ep' ∧ view ep' = EpExtractor.load cfg (view ep) fftOut := by
  obtain ⟨hnmags, hnmaxes, hdisjoint⟩ := List.nodup_append.1 h.distinct
  obtain ⟨p, hp⟩ : ∃ p, ep.mags[ep.filterIndex]? = some p :=
    ⟨_, List.getElem?_eq_getElem (by rw [h.magsLen]; exact h.index)⟩
  obtain ⟨p', hp'⟩ : ∃ p', ep.maxes[ep.filterIndex]? = some p' :=
    ⟨_, List.getElem?_eq_getElem (by rw [h.maxesLen]; exact h.index)⟩
  have hmem := List.mem_of_getElem? hp
  have hmem' := List.mem_of_getElem? hp'
  have hne : p' ≠ p := fun heq => hdisjoint p hmem p' hmem' heq.symm
  have hslot : slot (ep.maxes.map ep.buffers) ep.filterIndex = ep.buffers p' := by
    rw [slot, List.getD_eq_getElem?_getD, List.getElem?_map, hp']
    rfl
  rw [load, hp, hp']
  dsimp only [Option.bind_eq_bind, Option.bind_some]
  refine Returns.pure ⟨⟨h.magsLen, h.maxesLen, h.distinct, h.index⟩, ?_⟩
  simp only [view, EpExtractor.load, EpExtractor.State.mk.injEq, and_true]
  rw [Function.update_self, Function.update_of_ne hne, hslot]
  constructor
  · rw [map_update_of_notMem fun hin => hdisjoint p' hin p' hmem' rfl, map_update_get hnmags hp]
  · rw [map_update_get hnmaxes hp', map_update_of_notMem fun hin => hdisjoint p hmem p hin rfl]

omit [Sample V] in
theorem shiftBoth_loop (h : Ring cfg ep) : Returns (forUp 1 cfg.filterSizeTime shiftBoth (ep.maxes, ep.mags)) fun ptrs =>
    Shifted ep.maxes cfg.filterSizeTime ptrs.1 ∧ Shifted ep.mags cfg.filterSizeTime ptrs.2 := by
  have hpos := h.index
  refine forUp_returns (fun i (ptrs : List Nat × List Nat) => Shifted ep.maxes i ptrs.1 ∧ Shifted ep.mags i ptrs.2)
    (by omega) ?_ ⟨Shifted.start _, Shifted.start _⟩
  rintro i ⟨maxes, mags⟩ hlo hhi ⟨hmaxes, hmags⟩
  refine (hmaxes.shift hlo (by rw [h.maxesLen]; exact hhi)).bind fun maxes' hmaxes' => ?_
  refine (hmags.shift hlo (by rw [h.magsLen]; exact hhi)).bind fun mags' hmags' => ?_
  exact Returns.pure ⟨hmaxes', hmags'⟩

omit [Sample V] in
theorem rotate_returns (h : Ring cfg ep) (hfull : ep.filterIndex + 1 = cfg.filterSizeTime) :
    Returns (rotate cfg ep) fun ep' => Ring cfg ep' ∧ view ep' = EpExtractor.rotate (view ep) := by
  obtain ⟨p, hp⟩ : ∃ p, ep.mags[0]? = some p := ⟨_, List.getElem?_eq_getElem (by rw [h.magsLen]; omega)⟩
  obtain ⟨p', hp'⟩ : ∃ p', ep.maxes[0]? = some p' := ⟨_, List.getElem?_eq_getElem (by rw [h.maxesLen]; omega)⟩
  have hloop := shiftBoth_loop h
  rw [rotate, hp', hp]
  dsimp only [Option.bind_eq_bind, Option.bind_some]
  refine hloop.bind ?_
  rintro ⟨maxes, mags⟩ ⟨hmaxes, hmags⟩
  dsimp only at hmaxes hmags ⊢
  rw [if_pos hfull]
  rw [← h.maxesLen] at hmaxes ⊢
  refine (hmaxes.last hp').bind ?_
  rintro _ rfl
  rw [h.maxesLen]
  rw [← h.magsLen] at hmags ⊢
  refine (hmags.last hp).bind ?_
  rintro _ rfl
  refine Returns.pure ⟨⟨?_, ?_, ?_, h.index⟩, ?_⟩
  · simp only [List.length_append, List.length_drop, List.length_take, h.magsLen]
    omega
  · simp only [List.length_append, List.length_drop, List.length_take, h.maxesLen]
    omega
  · have hperm : ∀ ptrs : List Nat, (ptrs.drop 1 ++ ptrs.take 1).Perm ptrs := fun ptrs =>
      List.perm_append_comm.trans (by rw [List.take_append_drop])
    exact (((hperm ep.mags).append (hperm ep.maxes)).nodup_iff).2 h.distinct
  · simp [view, EpExtractor.rotate]

/-- What a call does, on the pointers and as they show it. -/
structure Step (cfg : Config V) (ep : State V) (fftOut : Frame V) (audioBlockIndex : Int) (call : Call V) : Prop where
  after : Ring cfg call.after
  view_after : view call.after = EpExtractor.extract cfg (view ep) fftOut audioBlockIndex
  runs : call.internal.isSome ↔ ep.filterIndex + 1 = cfg.filterSizeTime
  internal : ∀ ep' ∈ call.internal, Ring cfg ep' ∧ view ep' = EpExtractor.load cfg (view ep) fftOut

/-- **One call**: it is the one of `EpExtractor`, and the pointers stay different. -/
theorem extract_returns (h : Ring cfg ep) (fftOut : Frame V) (audioBlockIndex : Int) :
    Returns (extract cfg ep fftOut audioBlockIndex) (Step cfg ep fftOut audioBlockIndex) := by
  refine (load_returns h fftOut).bind ?_
  rintro ep' ⟨hring, hview⟩
  have hindex : ep'.filterIndex = ep.filterIndex := congrArg EpExtractor.State.filterIndex hview
  by_cases hfull : ep'.filterIndex + 1 = cfg.filterSizeTime
  · rw [if_pos hfull]
    have hinternal : Ring cfg (extractInternal cfg ep' audioBlockIndex) :=
      ⟨hring.magsLen, hring.maxesLen, hring.distinct, hring.index⟩
    have hviewInternal : view (extractInternal cfg ep' audioBlockIndex) =
        EpExtractor.extractInternal cfg (view ep') audioBlockIndex := rfl
    refine (rotate_returns hinternal hfull).bind ?_
    rintro after ⟨hafter, hviewAfter⟩
    refine Returns.pure ⟨hafter, ?_, ?_, ?_⟩
    · rw [hviewAfter, hviewInternal, hview, EpExtractor.extract, if_pos (by rw [← hview]; exact hfull)]
    · rw [hindex] at hfull
      simp [hfull]
    · rintro _ ⟨⟩
      exact ⟨hring, hview⟩
  · rw [if_neg hfull]
    have hlt := hring.index
    refine Returns.pure ⟨⟨hring.magsLen, hring.maxesLen, hring.distinct, ?_⟩, ?_, ?_, ?_⟩
    · dsimp only
      omega
    · rw [EpExtractor.extract, if_neg (by rw [← hview]; exact hfull), ← hview]
      rfl
    · rw [hindex] at hfull
      simp [hfull]
    · rintro _ ⟨⟩

end Ring

/-! ## Which frame is behind which pointer -/

/-- What the filter leaves of a frame in a buffer from `calloc`. -/
def filtered (cfg : Config V) (fftOut : Frame V) : Nat → V :=
  olafMaxFilter (magnitudes cfg fftOut) (cfg.audioBlockSize / 2) fun _ => Sample.lit 0

/-- The filtered frames below `filterIndex`; what any slot holds does not show in the next frame that goes there. -/
structure MaxHistory (cfg : Config V) (frames : List (Frame V)) (ep : EpExtractor.State V) : Prop where
  last : LastFrames frames ep.filterIndex ep.maxes fun fr c => c = filtered cfg fr
  settled : ∀ k fr, olafMaxFilter (magnitudes cfg fr) (cfg.audioBlockSize / 2) (slot ep.maxes k) = filtered cfg fr

theorem maxHistory_init (cfg : Config V) : MaxHistory cfg [] (init cfg) := by
  refine ⟨fun k hk => by simp [init] at hk, fun k fr => ?_⟩
  rw [init, slot_replicate, filtered]

section History
variable {cfg : Config V} {frames : List (Frame V)} {ep : EpExtractor.State V}

theorem MaxHistory.load (m : MaxHistory cfg frames ep) (h : History cfg frames ep) (hT : 1 ≤ cfg.filterSizeTime)
    (fr : Frame V) :
    LastFrames (frames ++ [fr]) (ep.filterIndex + 1) (EpExtractor.load cfg ep fr).maxes
      (fun fr c => c = filtered cfg fr) ∧
    ∀ k fr', olafMaxFilter (magnitudes cfg fr') (cfg.audioBlockSize / 2) (slot (EpExtractor.load cfg ep fr).maxes k) =
      filtered cfg fr' := by
  have hi : ep.filterIndex < ep.maxes.length := by rw [h.maxesLen]; exact h.index_lt hT
  have hn := h.index
  refine ⟨m.last.load hi (by omega) (m.settled _ fr), fun k fr' => ?_⟩
  simp only [EpExtractor.load, slot_set _ _ _ hi]
  split
  · rw [olafMaxFilter_twice, m.settled]
  · exact m.settled k fr'

theorem MaxHistory.extract (m : MaxHistory cfg frames ep) (h : History cfg frames ep) (hT : 1 ≤ cfg.filterSizeTime)
    (fr : Frame V) (audioBlockIndex : Int) :
    MaxHistory cfg (frames ++ [fr]) (EpExtractor.extract cfg ep fr audioBlockIndex) := by
  obtain ⟨hlast, hsettled⟩ := m.load h hT fr
  have hn := h.index
  have hlen : (EpExtractor.load cfg ep fr).maxes.length = cfg.filterSizeTime := by simp [EpExtractor.load, h.maxesLen]
  have hframes : (frames ++ [fr]).length = frames.length + 1 := by simp
  have hindex : (EpExtractor.load cfg ep fr).filterIndex = ep.filterIndex := rfl
  simp only [EpExtractor.extract, hindex]
  by_cases hfull : ep.filterIndex + 1 = cfg.filterSizeTime
  · rw [if_pos hfull]
    refine ⟨hlast.rotate (by omega) (by omega), fun k fr' => ?_⟩
    simp only [EpExtractor.rotate, EpExtractor.extractInternal]
    obtain ⟨k', hk'⟩ := slot_rotate_mem (EpExtractor.load cfg ep fr).maxes k
    rw [hk']
    exact hsettled k' fr'
  · rw [if_neg hfull]
    exact ⟨hlast, hsettled⟩

end History

/-- What is asked of the `n`th call of a run. -/
structure Faithful (cfg : Config V) (frames : List (Frame V)) (n : Nat) (call : Call V) : Prop where
  runs : call.internal.isSome ↔ cfg.filterSizeTime ≤ n
  mags : ∀ ep ∈ call.internal, ∀ k, k < cfg.filterSizeTime →
    PointsTo ep.mags ep.buffers k (magnitudes cfg (frameAt frames (n - cfg.filterSizeTime + k)))
  maxes : ∀ ep ∈ call.internal, ∀ k, k < cfg.filterSizeTime →
    PointsTo ep.maxes ep.buffers k (filtered cfg (frameAt frames (n - cfg.filterSizeTime + k)))
  during : ∀ ep ∈ call.internal, Ring cfg ep
  after : Ring cfg call.after
  newest : Returns (epExtractorMags cfg call.after) fun p => call.after.buffers p = magnitudes cfg (frameAt frames (n - 1))

/-- The ring between two calls. -/
structure Recorded (cfg : Config V) (frames : List (Frame V)) (ep : State V) : Prop where
  ring : Ring cfg ep
  mags : History cfg frames (view ep)
  maxes : MaxHistory cfg frames (view ep)

theorem pointsTo_slot {ptrs : List Nat} {k : Nat} (hk : k < ptrs.length) (buffers : Nat → Nat → V) :
    PointsTo ptrs buffers k (slot (ptrs.map buffers) k) := by
  refine ⟨ptrs[k], List.getElem?_eq_getElem hk, ?_⟩
  rw [slot, List.getD_eq_getElem?_getD, List.getElem?_map, List.getElem?_eq_getElem hk]
  rfl

theorem pointsTo_lastFrames (value : Frame V → Nat → V) {frames : List (Frame V)} {ptrs : List Nat} {buffers : Nat → Nat → V}
    {index : Nat} (h : LastFrames frames index (ptrs.map buffers) fun fr c => c = value fr) {k : Nat} (hk : k < index)
    (hlen : k < ptrs.length) : PointsTo ptrs buffers k (value (frameAt frames (frames.length - index + k))) := by
  rw [← h k hk]
  exact pointsTo_slot hlen buffers

section Run
variable {cfg : Config V} {frames : List (Frame V)} {ep : State V}

theorem Recorded.pointerAt (h : Recorded cfg frames ep) {k : Nat} (hk : k < ep.filterIndex) {i : Int} (hi : i = k) :
    Returns (pointerAt ep.mags i) fun p =>
      ep.buffers p = magnitudes cfg (frameAt frames (frames.length - ep.filterIndex + k)) := by
  have hlt := h.ring.index
  have hmags := h.ring.magsLen
  rw [FrameRing.pointerAt, if_pos (by omega), hi]
  exact pointsTo_lastFrames (magnitudes cfg) h.mags.mag hk (by omega)

/-- The newest frame is in the slot before `filterIndex`, whether the ring has rotated or not. -/
theorem Recorded.newest (h : Recorded cfg frames ep) (hT : 2 ≤ cfg.filterSizeTime) (hne : 1 ≤ frames.length) :
    Returns (epExtractorMags cfg ep) fun p => ep.buffers p = magnitudes cfg (frameAt frames (frames.length - 1)) := by
  have hindex : ep.filterIndex = min frames.length (cfg.filterSizeTime - 1) := h.mags.index
  have hlast := h.pointerAt (k := ep.filterIndex - 1) (i := ep.filterIndex - 1) (by omega) (by omega)
  rw [show frames.length - ep.filterIndex + (ep.filterIndex - 1) = frames.length - 1 by omega] at hlast
  unfold epExtractorMags
  split
  · rwa [show (cfg.filterSizeTime : Int) - 2 = ep.filterIndex - 1 by omega]
  · exact hlast

/-- **The step of a run.** -/
theorem Recorded.extract (h : Recorded cfg frames ep) (hT : 2 ≤ cfg.filterSizeTime) (fr : Frame V) (audioBlockIndex : Int) :
    Returns (extract cfg ep fr audioBlockIndex) fun call => Step cfg ep fr audioBlockIndex call ∧
      Recorded cfg (frames ++ [fr]) call.after ∧ Faithful cfg (frames ++ [fr]) (frames.length + 1) call := by
  refine (extract_returns h.ring fr audioBlockIndex).mono fun call hcall => ?_
  have hindex : ep.filterIndex = min frames.length (cfg.filterSizeTime - 1) := h.mags.index
  have hlen : (frames ++ [fr]).length = frames.length + 1 := by simp
  have hafter : Recorded cfg (frames ++ [fr]) call.after := by
    refine ⟨hcall.after, ?_, ?_⟩
    · rw [hcall.view_after]
      exact h.mags.extract (by omega) fr audioBlockIndex
    · rw [hcall.view_after]
      exact h.maxes.extract h.mags (by omega) fr audioBlockIndex
  have hruns : call.internal.isSome ↔ cfg.filterSizeTime ≤ frames.length + 1 := by
    rw [hcall.runs]
    omega
  refine ⟨hcall, hafter, hruns, fun ep' hep' k hk => ?_, fun ep' hep' k hk => ?_, fun ep' hep' => (hcall.internal ep' hep').1,
    hcall.after, ?_⟩
  · obtain ⟨hring, hview⟩ := hcall.internal ep' hep'
    have hload := h.mags.load_lastFrames (by omega) fr
    rw [show (view ep).filterIndex + 1 = cfg.filterSizeTime from hcall.runs.1 (Option.isSome_of_mem hep'), ← hview] at hload
    have hslot := pointsTo_lastFrames (magnitudes cfg) hload hk (by rw [hring.magsLen]; exact hk)
    rwa [hlen] at hslot
  · obtain ⟨hring, hview⟩ := hcall.internal ep' hep'
    have hload := (h.maxes.load h.mags (by omega) fr).1
    rw [show (view ep).filterIndex + 1 = cfg.filterSizeTime from hcall.runs.1 (Option.isSome_of_mem hep'), ← hview] at hload
    have hslot := pointsTo_lastFrames (filtered cfg) hload hk (by rw [hring.maxesLen]; exact hk)
    rwa [hlen] at hslot
  · have hnewest := hafter.newest hT (by omega)
    rwa [hlen] at hnewest

/-- Later frames change nothing. -/
theorem Faithful.append {n : Nat} {call : Call V} (h : Faithful cfg frames n call) (hpos : 1 ≤ n) (hn : n ≤ frames.length)
    (fr : Frame V) : Faithful cfg (frames ++ [fr]) n call := by
  have hframe : ∀ i, i < n → frameAt (frames ++ [fr]) i = frameAt frames i := fun i hi => by
    rw [frameAt_append, if_neg (by omega)]
  refine ⟨h.runs, fun ep hep k hk => ?_, fun ep hep k hk => ?_, h.during, h.after, ?_⟩
  · have hfull := h.runs.1 (Option.isSome_of_mem hep)
    rw [hframe _ (by omega)]
    exact h.mags ep hep k hk
  · have hfull := h.runs.1 (Option.isSome_of_mem hep)
    rw [hframe _ (by omega)]
    exact h.maxes ep hep k hk
  · rw [hframe _ (by omega)]
    exact h.newest

end Run

/-- What the calls so far have left. -/
structure Ran (cfg : Config V) (calls : List (Frame V × Int)) (r : List (Call V) × State V) : Prop where
  recorded : Recorded cfg (calls.map Prod.fst) r.2
  view : view r.2 = calls.foldl (fun ep c => EpExtractor.extract cfg ep c.1 c.2) (init cfg)
  length : r.1.length = calls.length
  faithful : ∀ i call, r.1[i]? = some call → Faithful cfg (calls.map Prod.fst) (i + 1) call

theorem Ran.extract {cfg : Config V} {calls : List (Frame V × Int)} {r : List (Call V) × State V} (h : Ran cfg calls r)
    (hT : 2 ≤ cfg.filterSizeTime) (c : Frame V × Int) :
    Returns (extract cfg r.2 c.1 c.2) fun call => Ran cfg (calls ++ [c]) (r.1 ++ [call], call.after) := by
  refine (h.recorded.extract hT c.1 c.2).mono ?_
  rintro call ⟨hstep, hafter, hcall⟩
  have hframes : (calls ++ [c]).map Prod.fst = calls.map Prod.fst ++ [c.1] := by rw [List.map_append, List.map_singleton]
  have hlen : (calls.map Prod.fst).length = r.1.length := by rw [List.length_map, h.length]
  refine ⟨?_, ?_, by simp [h.length], ?_⟩
  · rw [hframes]
    exact hafter
  · rw [List.foldl_append, ← h.view]
    exact hstep.view_after
  · rw [hframes]
    refine (each_concat (P := fun i _ call => Faithful cfg (calls.map Prod.fst ++ [c.1]) (i + 1) call)).2
      ⟨fun i call' hi => ?_, ?_⟩
    · have hlt := (List.getElem?_eq_some_iff.1 hi).1
      exact (h.faithful i call' hi).append (by omega) (by omega) c.1
    · rwa [hlen] at hcall

theorem run_returns (cfg : Config V) (calloc : Calloc) (hT : 2 ≤ cfg.filterSizeTime) (calls : List (Frame V × Int)) :
    Returns (run cfg calloc calls) (Ran cfg calls) := by
  have hstart : Recorded cfg [] (new cfg calloc) := by
    refine ⟨ring_new calloc (by omega), ?_, ?_⟩
    · rw [view_new]
      exact history_init cfg
    · rw [view_new]
      exact maxHistory_init cfg
  have hran : Ran cfg [] ([], new cfg calloc) := ⟨hstart, view_new calloc, rfl, nofun⟩
  exact foldlM_returns (Ran cfg) (fun done c r h => (h.extract hT c).bind fun call hcall => Returns.pure hcall) calls hran

/-- **The pointers do not show**: a run leaves the ring of `EpExtractor`. -/
theorem run_view (cfg : Config V) (calloc : Calloc) (hT : 2 ≤ cfg.filterSizeTime) (calls : List (Frame V × Int)) :
    Returns (run cfg calloc calls) fun r =>
      view r.2 = calls.foldl (fun ep c => EpExtractor.extract cfg ep c.1 c.2) (init cfg) :=
  (run_returns cfg calloc hT calls).mono fun _ h => h.view

/-- **The history is a faithful ring**: in every run with a filter over two frames or more, whatever the frames and the indices
of their blocks. -/
theorem run_faithful (cfg : Config V) (calloc : Calloc) (calls : List (Frame V × Int)) (hT : 2 ≤ cfg.filterSizeTime) :
    Ring cfg (new cfg calloc) ∧
    Returns (run cfg calloc calls) fun r => r.1.length = calls.length ∧
      ∀ i call, r.1[i]? = some call → Faithful cfg (calls.map Prod.fst) (i + 1) call :=
  ⟨ring_new calloc (by omega), (run_returns cfg calloc hT calls).mono fun _ h => ⟨h.length, h.faithful⟩⟩

/-- Three calls with a filter over two frames: the first only fills the ring. -/
theorem run_faithful_threeCalls :
    let cfg : Config ℚ := { Config.default ℚ with filterSizeTime := 2, halfFilterSizeTime := 1 }
    let calls : List (Frame ℚ × Int) := [(fun i => i, 0), (fun i => 2 * i, 1), (fun _ => 1, 2)]
    Ring cfg (new cfg ⟨id, Function.injective_id⟩) ∧
    Returns (run cfg ⟨id, Function.injective_id⟩ calls) fun r => r.1.length = 3 ∧
      ∀ i call, r.1[i]? = some call → Faithful cfg (calls.map Prod.fst) (i + 1) call :=
  run_faithful _ _ _ (by decide)

end Olaf.FrameRing
