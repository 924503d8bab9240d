import Olaf.Library.Checked
import Olaf.Reader
import Olaf.Report
/-!
# Matching in the browser (`olaf_wasm.c`)

| here | there |
| --- | --- |
| `State`      | `struct Olaf_State` (`:31`), what the loop over the samples has to do with, with a log: whether the configuration was read through `NULL`, and the blocks that were processed, with their index |
| `Setting`    | what the code does not decide: the sizes that a read through `NULL` yields, what is in allocated memory, the tables of `olaf_window.h` and the product of two floats |
| `start`      | the static `state`: every pointer in it is `NULL` |
| `initialise`, `transformInput`, `shiftDown`, `processBlock`, `addSample`, `fingerprintMatch` | `olaf_fingerprint_match` (`:66-145`): `:74-89`, `:105-107`, `:134-136`, `:102-138`, the loop body and the function, which returns the block index |
| `blocksOf`   | what is to be processed of a stream |

The sizes are read from the configuration before the first call has made it. WebAssembly does not stop a read through
`NULL`; it yields whatever is there. If that were the sizes of the configuration, the blocks would be those of the whole
stream however it is cut into buffers (`match_blocks`). If it is zeros, the first call fills the block from its beginning and
never finds it full (`match_zeros`).
-/

namespace Olaf.Wasm
open Checked

variable {V : Type} [Sample V]

structure State (V : Type) where
  audio : Buffer V
  audioBlockIndex : Nat
  audioSampleIndex : Nat
  fftSetup : Bool
  fftIn : Buffer V
  config : Option (Config V)
  readThroughNull : Bool
  blocks : List (Nat × List V)

structure Setting (V : Type) where
  null : Config V
  memory : Nat → V
  hammingWindow512 : Nat → V
  hammingWindow1024 : Nat → V
  times : V → V → V

/-- `olaf_config_esp_32`. -/
def esp32 : Config V := (FpMatcher.ReportConfig.esp32 V).toConfig

def start : State V where
  audio := ⟨0, fun _ => Sample.lit 0⟩
  audioBlockIndex := 0
  audioSampleIndex := 0
  fftSetup := false
  fftIn := ⟨0, fun _ => Sample.lit 0⟩
  config := none
  readThroughNull := false
  blocks := []

section Code
variable (c : Setting V)

/-- `olaf_fft_window`, which asserts that it knows the size. -/
def fftWindow (audioBlockSize : Nat) : Option (Buffer V) :=
  if audioBlockSize = 512 then some ⟨512, c.hammingWindow512⟩
  else if audioBlockSize = 1024 then some ⟨1024, c.hammingWindow1024⟩ else none

def State.configured (s : State V) : Config V := s.config.getD c.null

def initialise (overlapSize : Nat) (s : State V) : State V :=
  { s with
    config := some esp32
    fftSetup := true
    fftIn := ⟨(esp32 : Config V).audioBlockSize, c.memory⟩
    audio := ⟨(esp32 : Config V).audioBlockSize, fun _ => Sample.lit 0⟩
    audioSampleIndex := overlapSize
    audioBlockIndex := 0 }

def transformInput (audioBlockSize : Nat) (window audio fftIn : Buffer V) : Option (Buffer V) :=
  forUp 0 audioBlockSize (fun i fftIn => do fftIn.store i (c.times (← audio.load i) (← window.load i))) fftIn

omit [Sample V] in
def shiftDown (stepSize overlapSize : Nat) (audio : Buffer V) : Option (Buffer V) :=
  forUp 0 overlapSize (fun i audio => do audio.store i (← audio.load (sizeT (i + stepSize)))) audio

def processBlock (stepSize overlapSize : Nat) (window : Buffer V) (s : State V) : Option (State V) := do
  let audioBlockSize := (s.configured c).audioBlockSize
  let fftIn ← transformInput c audioBlockSize window s.audio s.fftIn
  let audio ← shiftDown stepSize overlapSize s.audio
  return { s with
    fftIn := fftIn
    blocks := s.blocks ++ [(s.audioBlockIndex, (List.range audioBlockSize).map s.audio.cell)]
    audioBlockIndex := s.audioBlockIndex + 1
    audio := audio
    audioSampleIndex := overlapSize }

def addSample (stepSize blockSize overlapSize : Nat) (window : Buffer V) (s : State V) (sample : V) : Option (State V) := do
  let audio ← s.audio.store s.audioSampleIndex sample
  let s := { s with audio := audio, audioSampleIndex := s.audioSampleIndex + 1 }
  if s.audioSampleIndex = blockSize then processBlock c stepSize overlapSize window s else return s

def fingerprintMatch (s : State V) (audioBuffer : List V) : Option (State V) := do
  let stepSize := (s.configured c).audioStepSize
  let blockSize := (s.configured c).audioBlockSize
  let overlapSize := sizeT (blockSize - stepSize)
  let s := { s with readThroughNull := s.readThroughNull || s.config.isNone }
  let s := if s.fftSetup then s else initialise c overlapSize s
  let window ← fftWindow c (s.configured c).audioBlockSize
  audioBuffer.foldlM (addSample c stepSize blockSize overlapSize window) s

/-- A stream that comes in buffers. -/
def run (buffers : List (List V)) : Option (State V) := buffers.foldlM (fingerprintMatch c) start

end Code

/-- Block `b` ends with sample `(b + 1) * step - 1`. -/
def blockAt (samples : List V) (b : Nat) : List V :=
  (List.range (esp32 : Config V).audioBlockSize).map fun j : Nat =>
    Reader.sampleAt samples (((b : Int) + 1) * (esp32 : Config V).audioStepSize - (esp32 : Config V).audioBlockSize + (j : Int))

def blocksOf (samples : List V) : List (Nat × List V) :=
  (List.range (samples.length / (esp32 : Config V).audioStepSize)).map fun b => (b, blockAt samples b)

/-- Every access is to its buffer and to a configuration, and what is processed are the blocks of the stream. -/
def Faithful (c : Setting V) (buffers : List (List V)) : Prop :=
  Returns (run c buffers) fun s => s.readThroughNull = false ∧ s.blocks = blocksOf buffers.flatten

@[simp] theorem esp32_blockSize : (esp32 : Config V).audioBlockSize = 1024 := rfl

@[simp] theorem esp32_stepSize : (esp32 : Config V).audioStepSize = 256 := rfl

/-! ## The loops over a block -/

section Loops
variable (c : Setting V)

omit [Sample V] in
theorem transformInput_returns {n : Nat} {window audio fftIn : Buffer V} (hwindow : n ≤ window.size) (haudio : n ≤ audio.size)
    (hfft : n ≤ fftIn.size) : Returns (transformInput c n window audio fftIn) fun out => out.size = fftIn.size := by
  refine forUp_returns (fun _ (out : Buffer V) => out.size = fftIn.size) (Nat.zero_le n) ?_ rfl
  intro i out _ hi hsize
  exact Buffer.bind_load (by omega) (Buffer.bind_load (by omega) (Buffer.store_returns (by omega) hsize))

omit [Sample V] in
/-- Moving forward, the loop reads what it has not written yet. -/
theorem shiftDown_returns {stepSize overlapSize : Nat} {audio : Buffer V} (hsize : overlapSize + stepSize ≤ audio.size)
    (hfits : audio.size < 2 ^ 64) : Returns (shiftDown stepSize overlapSize audio) fun out => out.size = audio.size ∧
      ∀ j, j < overlapSize → out.cell j = audio.cell (j + stepSize) := by
  refine Returns.mono (forUp_returns (fun i (out : Buffer V) => out.size = audio.size ∧
    (∀ j, j < i → out.cell j = audio.cell (j + stepSize)) ∧ ∀ j, i ≤ j → out.cell j = audio.cell j) (Nat.zero_le overlapSize)
    ?_ ⟨rfl, fun j hj => absurd hj (Nat.not_lt_zero j), fun _ _ => rfl⟩) fun out hout => ⟨hout.1, hout.2.1⟩
  rintro i out _ hi ⟨hout, hdone, hrest⟩
  have hindex : sizeT ((i : Int) + stepSize) = i + stepSize := sizeT_eq (by omega) (by omega)
  rw [hindex]
  refine Buffer.bind_load (by omega) (Buffer.store_returns (by omega) ⟨hout, fun j hj => ?_, fun j hj => ?_⟩)
  · by_cases heq : j = i
    · rw [heq, Buffer.set_cell_self, hrest _ (by omega)]
    · rw [Buffer.set_cell_ne heq, hdone j (by omega)]
  · rw [Buffer.set_cell_ne (by omega), hrest j (by omega)]

end Loops

/-! ## The blocks of a stream -/

theorem sampleAt_append {samples : List V} (sample : V) {position : Int} (h : position < samples.length) :
    Reader.sampleAt (samples ++ [sample]) position = Reader.sampleAt samples position := by
  unfold Reader.sampleAt
  by_cases hneg : 0 ≤ position
  · rw [if_pos hneg, if_pos hneg, List.getD_eq_getElem?_getD, List.getElem?_append_left (by omega), List.getD_eq_getElem?_getD]
  · rw [if_neg hneg, if_neg hneg]

theorem sampleAt_last (samples : List V) (sample : V) : Reader.sampleAt (samples ++ [sample]) samples.length = sample := by
  unfold Reader.sampleAt
  rw [if_pos (by omega), Int.toNat_natCast, List.getD_eq_getElem?_getD, List.getElem?_append_right (Nat.le_refl _), Nat.sub_self]
  rfl

theorem blocksOf_eq (samples : List V) : blocksOf samples = (List.range (samples.length / 256)).map fun b => (b, blockAt samples b) :=
  rfl

theorem blocksOf_nil : blocksOf ([] : List V) = [] := by
  rw [blocksOf_eq, List.length_nil, Nat.zero_div, List.range_zero, List.map_nil]

theorem blockAt_append {samples : List V} (sample : V) {b : Nat} (h : (b + 1) * 256 ≤ samples.length) :
    blockAt (samples ++ [sample]) b = blockAt samples b := by
  refine List.map_congr_left fun j hj => sampleAt_append sample ?_
  have hj := List.mem_range.1 hj
  simp only [esp32_blockSize, esp32_stepSize] at hj ⊢
  omega

/-- A sample more: there is a new block when it ends one. -/
theorem blocksOf_append (samples : List V) (sample : V) : blocksOf (samples ++ [sample]) =
    if (samples.length + 1) % 256 = 0 then
      blocksOf samples ++ [(samples.length / 256, blockAt (samples ++ [sample]) (samples.length / 256))]
    else blocksOf samples := by
  have hsame : ((List.range (samples.length / 256)).map fun b => (b, blockAt (samples ++ [sample]) b)) = blocksOf samples :=
    List.map_congr_left fun b hb => by
      have := List.mem_range.1 hb
      rw [blockAt_append sample (by omega)]
  rw [blocksOf_eq (samples ++ [sample]), List.length_append, List.length_singleton]
  by_cases hfull : (samples.length + 1) % 256 = 0
  · rw [if_pos hfull, show (samples.length + 1) / 256 = samples.length / 256 + 1 by omega, List.range_succ, List.map_append, hsame]
    rfl
  · rw [if_neg hfull, show (samples.length + 1) / 256 = samples.length / 256 by omega, hsame]

/-! ## With the sizes of the configuration -/

/-- The state after a stream of samples. -/
structure Holds (samples : List V) (s : State V) : Prop where
  config : s.config = some esp32
  fftSetup : s.fftSetup = true
  audio_size : s.audio.size = 1024
  fftIn_size : s.fftIn.size = 1024
  sampleIndex : s.audioSampleIndex = 768 + samples.length % 256
  blockIndex : s.audioBlockIndex = samples.length / 256
  audio : ∀ j : Nat, j < s.audioSampleIndex →
    s.audio.cell j = Reader.sampleAt samples (samples.length / 256 * 256 + (j : Int) - 768)
  blocks : s.blocks = blocksOf samples

omit [Sample V] in
/-- `s'` is `s` with its block processed. -/
structure Processed (s s' : State V) : Prop where
  config : s'.config = s.config
  fftSetup : s'.fftSetup = s.fftSetup
  audio_size : s'.audio.size = s.audio.size
  fftIn_size : s'.fftIn.size = s.fftIn.size
  sampleIndex : s'.audioSampleIndex = 768
  blockIndex : s'.audioBlockIndex = s.audioBlockIndex + 1
  shifted : ∀ j, j < 768 → s'.audio.cell j = s.audio.cell (j + 256)
  blocks : s'.blocks = s.blocks ++ [(s.audioBlockIndex, (List.range 1024).map s.audio.cell)]

section Stream
variable (c : Setting V)

theorem processBlock_returns {s : State V} {window : Buffer V} (hconfig : s.config = some esp32) (haudio : s.audio.size = 1024)
    (hfft : s.fftIn.size = 1024) (hwindow : window.size = 1024) :
    Returns (processBlock c 256 768 window s) (Processed s) := by
  have hsize : (s.configured c).audioBlockSize = 1024 := by
    rw [State.configured, hconfig]
    rfl
  rw [processBlock, hsize]
  refine (transformInput_returns c (by omega) (by omega) (by omega)).bind fun fftIn hfftIn => ?_
  refine (shiftDown_returns (by omega) (by omega)).bind fun audio hshift => Returns.pure ?_
  exact ⟨rfl, rfl, hshift.1, hfftIn, rfl, rfl, hshift.2, rfl⟩

theorem addSample_returns {samples : List V} {s : State V} {window : Buffer V} (h : Holds samples s) (sample : V)
    (hwindow : window.size = 1024) : Returns (addSample c 256 1024 768 window s sample) (Holds (samples ++ [sample])) := by
  have hindex := h.sampleIndex
  have hmod := Nat.mod_lt samples.length (show 0 < 256 by decide)
  have hlength : (samples ++ [sample]).length = samples.length + 1 := by rw [List.length_append, List.length_singleton]
  -- the block with the sample in it
  have hcell : ∀ j : Nat, j < s.audioSampleIndex + 1 → (s.audio.set s.audioSampleIndex sample).cell j =
      Reader.sampleAt (samples ++ [sample]) (samples.length / 256 * 256 + (j : Int) - 768) := by
    intro j hj
    by_cases hlast : j = s.audioSampleIndex
    · have hposition : (samples.length : Int) / 256 * 256 + (j : Int) - 768 = samples.length := by omega
      rw [hposition, sampleAt_last, hlast, Buffer.set_cell_self]
    · rw [Buffer.set_cell_ne hlast, h.audio j (by omega), sampleAt_append sample (by omega)]
  refine Buffer.bind_store (by rw [h.audio_size]; omega) ?_
  by_cases hfull : s.audioSampleIndex + 1 = 1024
  · rw [if_pos hfull]
    refine Returns.mono (processBlock_returns c (s := { s with
      audio := s.audio.set s.audioSampleIndex sample, audioSampleIndex := s.audioSampleIndex + 1 })
      h.config h.audio_size h.fftIn_size hwindow) ?_
    intro s' hs'
    refine ⟨hs'.config.trans h.config, hs'.fftSetup.trans h.fftSetup, hs'.audio_size.trans h.audio_size,
      hs'.fftIn_size.trans h.fftIn_size, ?_, ?_, ?_, ?_⟩
    · rw [hs'.sampleIndex, hlength]; omega
    · rw [hs'.blockIndex, hlength, show s.audioBlockIndex = _ from h.blockIndex]; omega
    · intro j hj
      rw [hs'.sampleIndex] at hj
      rw [hs'.shifted j hj, hcell (j + 256) (by omega), hlength]
      refine congrArg _ ?_
      omega
    · have hcontent : (List.range 1024).map (s.audio.set s.audioSampleIndex sample).cell =
          blockAt (samples ++ [sample]) (samples.length / 256) := by
        refine List.map_congr_left fun j hj => ?_
        have hj := List.mem_range.1 hj
        rw [hcell j (by omega), esp32_blockSize, esp32_stepSize]
        refine congrArg _ ?_
        omega
      rw [hs'.blocks, blocksOf_append, if_pos (by omega), hcontent, h.blocks, h.blockIndex]
  · rw [if_neg hfull]
    refine Returns.pure ⟨h.config, h.fftSetup, h.audio_size, h.fftIn_size, ?_, ?_, ?_, ?_⟩
    · rw [hlength]; dsimp only; omega
    · rw [hlength, show s.audioBlockIndex = _ from h.blockIndex]; omega
    · intro j hj
      rw [hlength]
      refine (hcell j hj).trans (congrArg _ ?_)
      omega
    · rw [blocksOf_append, if_neg (by omega)]
      exact h.blocks

theorem addSamples_return (buffer : List V) {samples : List V} {s : State V} {window : Buffer V} (h : Holds samples s)
    (hwindow : window.size = 1024) :
    Returns (buffer.foldlM (addSample c 256 1024 768 window) s) (Holds (samples ++ buffer)) :=
  foldlM_returns Holds (fun _ sample _ h => addSample_returns c h sample hwindow) buffer h

omit [Sample V] in
theorem fftWindow_returns : Returns (fftWindow c 1024) fun window => window.size = 1024 := Returns.pure rfl

/-- A call that is not the first. -/
theorem match_later (buffer : List V) {samples : List V} {s : State V} (h : Holds samples s) :
    Returns (fingerprintMatch c s buffer) (Holds (samples ++ buffer)) := by
  have hconfig : s.configured c = esp32 := by rw [State.configured, h.config]; rfl
  have hholds : Holds samples { s with readThroughNull := s.readThroughNull || s.config.isNone } :=
    ⟨h.config, h.fftSetup, h.audio_size, h.fftIn_size, h.sampleIndex, h.blockIndex, h.audio, h.blocks⟩
  have hconfig' : ∀ b, State.configured c { s with readThroughNull := b } = esp32 := fun _ => hconfig
  rw [fingerprintMatch, hconfig]
  dsimp only
  rw [if_pos h.fftSetup, hconfig', esp32_blockSize, esp32_stepSize]
  exact (fftWindow_returns c).bind fun window hwindow => addSamples_return c buffer hholds hwindow

variable {c}

/-- The first call, if what it reads through `NULL` are the sizes. -/
theorem match_first (hblock : c.null.audioBlockSize = 1024) (hstep : c.null.audioStepSize = 256) (buffer : List V) :
    Returns (fingerprintMatch c start buffer) (Holds buffer) := by
  have hsizes : (start : State V).configured c = c.null := rfl
  have hholds : Holds [] (initialise c 768 { start with readThroughNull := true }) := by
    refine ⟨rfl, rfl, rfl, rfl, rfl, (Nat.zero_div 256).symm, fun j hj => ?_, blocksOf_nil.symm⟩
    have hj : j < 768 := hj
    rw [Reader.sampleAt, List.length_nil, if_neg (by omega)]
    rfl
  rw [fingerprintMatch, hsizes, hblock, hstep]
  exact (fftWindow_returns c).bind fun window hwindow => addSamples_return c buffer hholds hwindow

/-- **Once the sizes are those of the configuration, the blocks are those of the stream**, however it is cut. -/
theorem match_blocks (hblock : c.null.audioBlockSize = 1024) (hstep : c.null.audioStepSize = 256) (buffers : List (List V)) :
    Returns (run c buffers) fun s => s.blocks = blocksOf buffers.flatten := by
  cases buffers with
  | nil => exact Returns.pure blocksOf_nil.symm
  | cons buffer buffers =>
    rw [run, List.foldlM_cons]
    refine (match_first hblock hstep buffer).bind fun s h => ?_
    have hrest : Returns (buffers.foldlM (fingerprintMatch c) s) (Holds ([buffer] ++ buffers).flatten) := by
      refine foldlM_returns (fun done s => Holds done.flatten s) (fun done next s h => ?_) buffers ?_
      · rw [List.flatten_append, List.flatten_singleton]
        exact match_later c next h
      · rw [List.flatten_singleton]
        exact h
    exact hrest.mono fun s h => h.blocks

end Stream

/-! ## Through `NULL` -/

section Null
variable {c : Setting V}

omit [Sample V] in
theorem addSample_log {stepSize blockSize overlapSize : Nat} {window : Buffer V} {s s' : State V} {sample : V}
    (h : addSample c stepSize blockSize overlapSize window s sample = some s') : s'.readThroughNull = s.readThroughNull := by
  obtain ⟨audio, _, h⟩ := Option.bind_eq_some_iff.1 h
  dsimp only at h
  split at h
  · obtain ⟨fftIn, _, h⟩ := Option.bind_eq_some_iff.1 h
    obtain ⟨audio', _, h⟩ := Option.bind_eq_some_iff.1 h
    obtain rfl := Option.some.inj h
    rfl
  · obtain rfl := Option.some.inj h
    rfl

/-- A call leaves it in the log if it reads the sizes through `NULL`. -/
theorem match_log {s s' : State V} {buffer : List V} (h : fingerprintMatch c s buffer = some s') :
    s'.readThroughNull = (s.readThroughNull || s.config.isNone) := by
  obtain ⟨window, _, h⟩ := Option.bind_eq_some_iff.1 h
  have hlog := foldlM_keeps (·.readThroughNull = (s.readThroughNull || s.config.isNone))
    (fun hs hsample => (addSample_log hsample).trans hs) ?_ h
  · exact hlog
  · split <;> rfl

/-- The first call does. -/
theorem not_faithful (buffer : List V) (buffers : List (List V)) : ¬ Faithful c (buffer :: buffers) := by
  rintro ⟨s, hrun, hlog, _⟩
  rw [run, List.foldlM_cons] at hrun
  obtain ⟨s₁, hmatch, hrest⟩ := Option.bind_eq_some_iff.1 hrun
  have hkept := foldlM_keeps (·.readThroughNull = true) (fun hs hmatch => by rw [match_log hmatch, hs, Bool.true_or])
    (match_log hmatch) hrest
  rw [hkept] at hlog
  cases hlog

omit [Sample V] in
theorem addSample_zeros (window : Buffer V) {s : State V} (hroom : s.audioSampleIndex < s.audio.size) (sample : V) :
    addSample c 0 0 0 window s sample = some { s with
      audio := s.audio.set s.audioSampleIndex sample, audioSampleIndex := s.audioSampleIndex + 1 } := by
  rw [addSample, Buffer.store, if_pos hroom]
  rfl

omit [Sample V] in
theorem addSamples_zeros (window : Buffer V) (buffer : List V) {s : State V}
    (hroom : s.audioSampleIndex + buffer.length ≤ s.audio.size) : Returns (buffer.foldlM (addSample c 0 0 0 window) s) fun s' =>
      s'.audioSampleIndex = s.audioSampleIndex + buffer.length ∧ s'.blocks = s.blocks := by
  induction buffer generalizing s with
  | nil => exact Returns.pure ⟨rfl, rfl⟩
  | cons sample buffer ih =>
    rw [List.length_cons] at hroom ⊢
    rw [List.foldlM_cons, addSample_zeros window (by omega)]
    refine Returns.mono (ih ?_) ?_
    · show s.audioSampleIndex + 1 + buffer.length ≤ s.audio.size
      omega
    · rintro s' ⟨hindex, hblocks⟩
      exact ⟨hindex.trans (by dsimp only; omega), hblocks⟩

/-- What zeros there do: the first call fills the block from its beginning and never finds it full. -/
theorem match_zeros (hblock : c.null.audioBlockSize = 0) (hstep : c.null.audioStepSize = 0) {buffer : List V}
    (hfits : buffer.length ≤ 1024) : Returns (fingerprintMatch c start buffer) fun s =>
      s.audioSampleIndex = buffer.length ∧ s.blocks = [] := by
  have hsizes : (start : State V).configured c = c.null := rfl
  have hroom : 0 + buffer.length ≤ 1024 := by omega
  rw [fingerprintMatch, hsizes, hblock, hstep]
  refine (fftWindow_returns c).bind fun window _ => Returns.mono (addSamples_zeros window buffer
    (s := initialise c 0 { start with readThroughNull := true }) hroom) ?_
  rintro s ⟨hindex, hblocks⟩
  exact ⟨hindex.trans (Nat.zero_add _), hblocks⟩

end Null

/-- **Whether the browser processes the blocks of the stream**: never without a read through `NULL`, and if that yields the
sizes, always. -/
theorem faithful_iff (c : Setting V) (buffers : List (List V)) : (Faithful c buffers ↔ buffers = []) ∧
    (c.null.audioBlockSize = 1024 → c.null.audioStepSize = 256 →
      Returns (run c buffers) fun s => s.blocks = blocksOf buffers.flatten) := by
  refine ⟨⟨fun h => ?_, ?_⟩, fun hblock hstep => match_blocks hblock hstep buffers⟩
  · cases buffers with
    | nil => rfl
    | cons buffer buffers => exact absurd h (not_faithful buffer buffers)
  · rintro rfl
    exact Returns.pure ⟨rfl, blocksOf_nil.symm⟩

/-- Memory of zeros. -/
def zeros : Setting ℚ where
  null := { Config.default ℚ with audioBlockSize := 0, audioStepSize := 0 }
  memory _ := 0
  hammingWindow512 _ := 1
  hammingWindow1024 _ := 1
  times := (· * ·)

/-- There the first 256 samples are a block that is not processed. -/
theorem first_block_missed : ¬ ∀ (c : Setting ℚ) (buffers : List (List ℚ)), Faithful c buffers := by
  intro h
  obtain ⟨s, hrun, _, hblocks⟩ := h zeros [List.replicate 256 1]
  obtain ⟨s', hmatch, _, hnone⟩ := @match_zeros ℚ _ zeros rfl rfl (List.replicate 256 1) (by rw [List.length_replicate]; omega)
  rw [run, List.foldlM_cons, hmatch] at hrun
  obtain rfl : s' = s := Option.some.inj hrun
  rw [hnone, List.flatten_singleton] at hblocks
  have hlength := congrArg List.length hblocks
  rw [blocksOf_eq, List.length_map, List.length_range, List.length_replicate] at hlength
  cases hlength

end Olaf.Wasm
