import Mathlib.Data.List.Nodup
import Olaf.EventPoints
import Olaf.MaxFilter
/-!
# Event point extraction (`olaf_ep_extractor.c`)

| here | there |
| --- | --- |
| `EpExtractor`     | `struct Olaf_EP_Extractor` (`:24`); `audio_block_index` is an argument of the functions that read it |
| `magnitudes`      | the loop that fills `mags[filterIndex]` (`:222-229`) |
| `maxFilterTime`   | `olaf_ep_extractor_max_filter_time` (`:109`) |
| `isPeak`          | the tests of one bin in `extract_internal` (`:141-160`) |
| `extractInternal` | `extract_internal` (`:128`) |
| `rotate`          | `rotate` (`:185`); a slot is its contents, the pointers move with them |
| `extract`         | `olaf_ep_extractor_extract` (`:215`) |

What one call finds depends on the history of frames only, never on the shared buffer: `peaks` is that
list, and `extract` is "find the peaks, append them" (`extract_eventPoints`). `History` says which
frame every slot of the ring holds after any run.
-/

namespace Olaf.EpExtractor
open WindowMax MaxFilter

variable {V : Type} [Sample V]

/-- One `fft_out`: interleaved real and imaginary parts. -/
abbrev Frame (V : Type) := Nat → V

/-- `struct Olaf_EP_Extractor`. -/
structure State (V : Type) where
  mags : List (Nat → V)
  maxes : List (Nat → V)
  filterIndex : Nat
  eventPoints : EventPoints V

/-- `olaf_ep_extractor_new`. -/
def init (cfg : Config V) : State V where
  mags := List.replicate cfg.filterSizeTime fun _ => Sample.lit 0
  maxes := List.replicate cfg.filterSizeTime fun _ => Sample.lit 0
  filterIndex := 0
  eventPoints := .init cfg

/-- The magnitudes of a frame. -/
def magnitudes (cfg : Config V) (fftOut : Frame V) : Nat → V := fun m =>
  let p := Sample.power (fftOut (2 * m)) (fftOut (2 * m + 1))
  if cfg.sqrtMagnitude then Sample.sqrt p else p

/-- A slot of the ring; the default is never read when the ring has the slot. -/
def slot (ring : List (Nat → V)) (k : Nat) : Nat → V := ring.getD k fun _ => Sample.lit 0

def maxFilterTime (array : Nat → V) (arraySize : Nat) : V :=
  (List.range' 0 arraySize).foldl (fun max i => if max < array i then array i else max) (Sample.lit (-10000000))

/-- Whether bin `j` of the middle frame is an event point. -/
def isPeak (cfg : Config V) (mags maxes : List (Nat → V)) (j : Nat) : Bool :=
  let currentVal := slot mags cfg.halfFilterSizeTime j
  if currentVal < cfg.minEventPointMagnitude ∨ currentVal ≠ slot maxes cfg.halfFilterSizeTime j then false
  else currentVal = maxFilterTime (fun t => slot maxes t j) cfg.filterSizeTime

/-- The event point that bin `j` becomes. -/
def peakPoint (cfg : Config V) (mags : List (Nat → V)) (audioBlockIndex : Int) (j : Nat) : EventPoint V where
  frequencyBin := j
  timeIndex := audioBlockIndex - cfg.halfFilterSizeTime
  magnitude := slot mags cfg.halfFilterSizeTime j
  usages := 0

/-- The bins examined: `for (j = minFrequencyBin; j < halfAudioBlockSize - 1; j++)`. -/
def bins (cfg : Config V) : List Nat :=
  List.range' cfg.minFrequencyBin (cfg.audioBlockSize / 2 - 1 - cfg.minFrequencyBin)

/-- `extract_internal`. -/
def extractInternal (cfg : Config V) (ep : State V) (audioBlockIndex : Int) : State V :=
  { ep with eventPoints := (bins cfg).foldl (fun eps j =>
      if isPeak cfg ep.mags ep.maxes j then eps.addPoint cfg (peakPoint cfg ep.mags audioBlockIndex j)
      else eps) ep.eventPoints }

/-- `rotate`: every slot takes its right neighbour's buffer, the last one the first's. -/
def rotate (ep : State V) : State V :=
  { ep with mags := ep.mags.drop 1 ++ ep.mags.take 1, maxes := ep.maxes.drop 1 ++ ep.maxes.take 1 }

/-- The first half of `olaf_ep_extractor_extract`: the frame goes into slot `filterIndex`. -/
def load (cfg : Config V) (ep : State V) (fftOut : Frame V) : State V :=
  let mag := magnitudes cfg fftOut
  { ep with
    mags := ep.mags.set ep.filterIndex mag
    maxes := ep.maxes.set ep.filterIndex
      (olafMaxFilter mag (cfg.audioBlockSize / 2) (slot ep.maxes ep.filterIndex)) }

/-- `olaf_ep_extractor_extract`. -/
def extract (cfg : Config V) (ep : State V) (fftOut : Frame V) (audioBlockIndex : Int) : State V :=
  let ep := load cfg ep fftOut
  if ep.filterIndex + 1 = cfg.filterSizeTime then rotate (extractInternal cfg ep audioBlockIndex)
  else { ep with filterIndex := ep.filterIndex + 1 }

/-! ## What a call finds does not depend on the buffer -/

/-- The event points that `extract_internal` finds, in the order it finds them. -/
def peaks (cfg : Config V) (mags maxes : List (Nat → V)) (audioBlockIndex : Int) : List (EventPoint V) :=
  ((bins cfg).filter (isPeak cfg mags maxes)).map (peakPoint cfg mags audioBlockIndex)

/-- The event points that one call finds: none before the ring is full. -/
def found (cfg : Config V) (ep : State V) (fftOut : Frame V) (audioBlockIndex : Int) : List (EventPoint V) :=
  let ep := load cfg ep fftOut
  if ep.filterIndex + 1 = cfg.filterSizeTime then peaks cfg ep.mags ep.maxes audioBlockIndex else []

/-- The ring after one call, without the buffer. -/
def advance (cfg : Config V) (ep : State V) (fftOut : Frame V) : List (Nat → V) × List (Nat → V) × Nat :=
  let ep := load cfg ep fftOut
  if ep.filterIndex + 1 = cfg.filterSizeTime then ((rotate ep).mags, (rotate ep).maxes, ep.filterIndex)
  else (ep.mags, ep.maxes, ep.filterIndex + 1)

theorem extractInternal_eventPoints (cfg : Config V) (ep : State V) (audioBlockIndex : Int) :
    (extractInternal cfg ep audioBlockIndex).eventPoints =
      ep.eventPoints.addPoints cfg (peaks cfg ep.mags ep.maxes audioBlockIndex) := by
  simp only [extractInternal, peaks, EventPoints.addPoints, List.foldl_map, List.foldl_filter]

theorem extract_eventPoints (cfg : Config V) (ep : State V) (fftOut : Frame V) (audioBlockIndex : Int) :
    (extract cfg ep fftOut audioBlockIndex).eventPoints =
      ep.eventPoints.addPoints cfg (found cfg ep fftOut audioBlockIndex) := by
  simp only [extract, found]
  split
  · exact extractInternal_eventPoints cfg _ audioBlockIndex
  · rfl

theorem extract_ring (cfg : Config V) (ep : State V) (fftOut : Frame V) (audioBlockIndex : Int) :
    ((extract cfg ep fftOut audioBlockIndex).mags, (extract cfg ep fftOut audioBlockIndex).maxes,
      (extract cfg ep fftOut audioBlockIndex).filterIndex) = advance cfg ep fftOut := by
  simp only [extract, advance]
  split <;> rfl

theorem mem_found {cfg : Config V} {ep : State V} {fftOut : Frame V} {audioBlockIndex : Int} {p : EventPoint V}
    (hp : p ∈ found cfg ep fftOut audioBlockIndex) :
    p.timeIndex = audioBlockIndex - cfg.halfFilterSizeTime ∧ p.usages = 0 ∧
      ∃ j : Nat, p.frequencyBin = j ∧ cfg.minFrequencyBin ≤ j ∧ j + 1 < cfg.audioBlockSize / 2 := by
  simp only [found] at hp
  split at hp
  · simp only [peaks, List.mem_map, List.mem_filter, bins, List.mem_range'_1] at hp
    obtain ⟨j, ⟨⟨h1, h2⟩, _⟩, rfl⟩ := hp
    exact ⟨rfl, rfl, j, rfl, h1, by omega⟩
  · cases hp

/-- The points of one call sit in different bins. -/
theorem found_bins_nodup (cfg : Config V) (ep : State V) (fftOut : Frame V) (audioBlockIndex : Int) :
    ((found cfg ep fftOut audioBlockIndex).map EventPoint.frequencyBin).Nodup := by
  simp only [found]
  split
  · rw [peaks, List.map_map]
    have hbins : (bins cfg).Nodup := List.nodup_range'
    refine List.Nodup.map_on ?_ (hbins.filter _)
    intro a _ b _ hab
    exact Int.ofNat.inj hab
  · exact List.nodup_nil

end Olaf.EpExtractor
