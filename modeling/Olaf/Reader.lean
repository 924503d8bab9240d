import Olaf.Process
/-!
# Reading overlapping blocks (`olaf_reader_stream.c`)

| here | there |
| --- | --- |
| `File`, `fread` | the audio file as the samples that are left of it, and the `fread` of `:82` |
| `State`   | `struct Olaf_Reader` (`:26`) |
| `shift`, `zeroFill` | the two loops of `olaf_reader_read` (`:74-76` and `:85-87`), in place |
| `read`    | `olaf_reader_read` (`:66`) |
| `readLoop`, `readBlocks` | the calls of `olaf_stream_processor_process` (`olaf_stream_processor.c:124`, `:139-140`) and the blocks that go to the transform |
| `audioOfSamples` | what a run of the stream processor reads |

A sample is a float; `audio_block` is the memory behind the pointer, so what is written outside the block would be seen.
`fread` returns less than it was asked for at the end of the file only, and from there on nothing.

The buffer after `c` calls is the window of the audio that ends with sample `c * step - 1` (`calls_window`). Since the
first block is read before the loop and replaced in it before it is used, the loop sees the windows from the second call
on, up to the one that the first short read completes.
-/

namespace Olaf.Reader

variable {V : Type} [Sample V]

structure File (V : Type) where
  rest : List V
  eof : Bool

structure State (V : Type) where
  audioFile : File V
  totalSamplesRead : Nat
  endOfFileReached : Bool

/-- `olaf_reader_new`. -/
def new (samples : List V) : State V := ⟨⟨samples, false⟩, 0, false⟩

/-- `fread` of `n` samples to `start`: the memory, the number of samples and the file. -/
def fread (memory : Nat → V) (start n : Nat) (file : File V) : (Nat → V) × Nat × File V :=
  let samples := file.rest.take n
  (fun j => if start ≤ j ∧ j < start + samples.length then samples.getD (j - start) (Sample.lit 0) else memory j,
    samples.length, ⟨file.rest.drop n, file.eof || decide (samples.length < n)⟩)

def shift (stepSize overlapSize : Nat) (audioBlock : Nat → V) : Nat → V :=
  (List.range overlapSize).foldl (fun b i => Function.update b i (b (i + stepSize))) audioBlock

def zeroFill (first stop : Nat) (audioBlock : Nat → V) : Nat → V :=
  (List.range' first (stop - first)).foldl (fun b i => Function.update b i (Sample.lit 0)) audioBlock

/-- A call of `olaf_reader_read`: what it returns and what it leaves. -/
structure Read (V : Type) where
  numberOfSamplesRead : Nat
  reader : State V
  audioBlock : Nat → V

def read (cfg : Config V) (reader : State V) (audioBlock : Nat → V) : Read V :=
  let stepSize := cfg.audioStepSize
  let blockSize := cfg.audioBlockSize
  let overlapSize := blockSize - stepSize
  let audioBlock := shift stepSize overlapSize audioBlock
  let (audioBlock, numberOfSamplesRead, audioFile) := fread audioBlock overlapSize stepSize reader.audioFile
  let audioBlock := zeroFill (overlapSize + numberOfSamplesRead) (overlapSize + stepSize) audioBlock
  ⟨numberOfSamplesRead, ⟨audioFile, reader.totalSamplesRead + numberOfSamplesRead,
    reader.endOfFileReached || audioFile.eof⟩, audioBlock⟩

/-- The samples that go to the transform. -/
def Read.block (cfg : Config V) (s : Read V) : List V := (List.range cfg.audioBlockSize).map s.audioBlock

/-- The `while` loop with the blocks it has processed; `none` when it does not end within `fuel` turns. -/
def readLoop (cfg : Config V) : (fuel : Nat) → Read V → List (List V) → Option (Read V × List (List V))
  | 0, _, _ => none
  | fuel + 1, s, blocks =>
    if s.numberOfSamplesRead = cfg.audioStepSize then
      let s := read cfg s.reader s.audioBlock
      readLoop cfg fuel s (blocks ++ [s.block cfg])
    else some (s, blocks)

/-- A run, given a turn for every step of the audio and one more. -/
def readBlocks (cfg : Config V) (samples : List V) : Option (Read V × List (List V)) :=
  readLoop cfg (samples.length / cfg.audioStepSize + 1) (read cfg (new samples) fun _ => Sample.lit 0) []

/-! ## One call -/

omit [Sample V] in
/-- Moving forward, the loop reads what it has not written yet. -/
theorem shift_apply (stepSize n : Nat) (b : Nat → V) (j : Nat) :
    shift stepSize n b j = if j < n then b (j + stepSize) else b j := by
  induction n generalizing j with
  | zero => simp [shift]
  | succ n ih =>
    rw [shift, List.range_succ, List.foldl_concat, ← shift]
    by_cases hj : j = n
    · subst hj
      rw [Function.update_self, ih, if_neg (by omega), if_pos (by omega)]
    · rw [Function.update_of_ne hj, ih]
      by_cases hlt : j < n
      · rw [if_pos hlt, if_pos (by omega)]
      · rw [if_neg hlt, if_neg (by omega)]

theorem zeroFill_apply (first stop : Nat) (b : Nat → V) (j : Nat) :
    zeroFill first stop b j = if first ≤ j ∧ j < stop then Sample.lit 0 else b j := by
  have hloop : ∀ n, (List.range' first n).foldl (fun b i => Function.update b i (Sample.lit 0)) b j =
      if first ≤ j ∧ j < first + n then Sample.lit 0 else b j := by
    intro n
    induction n with
    | zero => rw [if_neg (by omega)]; rfl
    | succ n ih =>
      rw [List.range'_1_concat, List.foldl_concat]
      by_cases hj : j = first + n
      · rw [hj, Function.update_self, if_pos (by omega)]
      · rw [Function.update_of_ne hj, ih]
        by_cases hin : first ≤ j ∧ j < first + n
        · rw [if_pos hin, if_pos (by omega)]
        · rw [if_neg hin, if_neg (by omega)]
  rw [zeroFill, hloop]
  by_cases hin : first ≤ j ∧ j < stop
  · rw [if_pos hin, if_pos (by omega)]
  · rw [if_neg hin, if_neg (by omega)]

/-- What a call makes of the block: the old samples moved down, the new ones behind them, and silence for what the
file does not have. -/
theorem read_audioBlock (cfg : Config V) (reader : State V) (b : Nat → V) {j : Nat}
    (hstep : cfg.audioStepSize ≤ cfg.audioBlockSize) (hj : j < cfg.audioBlockSize) :
    (read cfg reader b).audioBlock j =
      if j < cfg.audioBlockSize - cfg.audioStepSize then b (j + cfg.audioStepSize)
      else reader.audioFile.rest.getD (j - (cfg.audioBlockSize - cfg.audioStepSize)) (Sample.lit 0) := by
  simp only [read, fread, zeroFill_apply, List.length_take]
  by_cases hlow : j < cfg.audioBlockSize - cfg.audioStepSize
  · rw [if_neg (by omega), if_neg (by omega), shift_apply, if_pos hlow, if_pos hlow]
  · rw [if_neg hlow]
    by_cases hin : j - (cfg.audioBlockSize - cfg.audioStepSize) < reader.audioFile.rest.length
    · rw [if_neg (by omega), if_pos (by omega), List.getD_eq_getElem?_getD, List.getElem?_take_of_lt (by omega),
        List.getD_eq_getElem?_getD]
    · rw [if_pos (by omega), List.getD_eq_getElem?_getD, List.getElem?_eq_none (by omega)]
      rfl

/-! ## Call after call -/

/-- The state after `c` calls, from a block of zeros. -/
def calls (cfg : Config V) (samples : List V) : Nat → Read V
  | 0 => ⟨0, new samples, fun _ => Sample.lit 0⟩
  | c + 1 => read cfg (calls cfg samples c).reader (calls cfg samples c).audioBlock

/-- Silence before and after the audio. -/
def sampleAt (samples : List V) (position : Int) : V :=
  if 0 ≤ position then samples.getD position.toNat (Sample.lit 0) else Sample.lit 0

section Calls
variable {cfg : Config V} {samples : List V}

theorem calls_rest (c : Nat) : (calls cfg samples c).reader.audioFile.rest = samples.drop (c * cfg.audioStepSize) := by
  induction c with
  | zero => simp [calls, new]
  | succ c ih =>
    simp only [calls, read, fread, ih, List.drop_drop]
    rw [Nat.succ_mul]

variable (cfg samples) in
theorem calls_number (c : Nat) :
    (calls cfg samples (c + 1)).numberOfSamplesRead = min cfg.audioStepSize (samples.length - c * cfg.audioStepSize) := by
  simp only [calls, read, fread, calls_rest, List.length_take, List.length_drop]

theorem calls_total (c : Nat) :
    (calls cfg samples c).reader.totalSamplesRead = min (c * cfg.audioStepSize) samples.length := by
  induction c with
  | zero => simp [calls, new]
  | succ c ih =>
    have hnumber := calls_number cfg samples c
    have htotal : (calls cfg samples (c + 1)).reader.totalSamplesRead =
        (calls cfg samples c).reader.totalSamplesRead + (calls cfg samples (c + 1)).numberOfSamplesRead := rfl
    rw [htotal, hnumber, ih, Nat.succ_mul]
    omega

variable (cfg samples) in
/-- A call is full while there is a whole step left. -/
theorem calls_full_iff (hstep : 1 ≤ cfg.audioStepSize) (c : Nat) :
    (calls cfg samples (c + 1)).numberOfSamplesRead = cfg.audioStepSize ↔ c < samples.length / cfg.audioStepSize := by
  have hle := Nat.le_div_iff_mul_le (show 0 < cfg.audioStepSize from hstep) (x := c + 1) (y := samples.length)
  rw [Nat.succ_mul] at hle
  rw [calls_number]
  omega

/-- **The buffer is a window of the audio.** -/
theorem calls_window (hstep : cfg.audioStepSize ≤ cfg.audioBlockSize) (c : Nat) {j : Nat} (hj : j < cfg.audioBlockSize) :
    (calls cfg samples c).audioBlock j =
      sampleAt samples ((c * cfg.audioStepSize : Nat) + j - cfg.audioBlockSize) := by
  induction c generalizing j with
  | zero =>
    rw [sampleAt, if_neg (by omega)]
    rfl
  | succ c ih =>
    rw [calls, read_audioBlock cfg _ _ hstep hj]
    by_cases hlow : j < cfg.audioBlockSize - cfg.audioStepSize
    · rw [if_pos hlow, ih (by omega), Nat.succ_mul]
      congr 1
      omega
    · rw [if_neg hlow, calls_rest, Nat.succ_mul, sampleAt, if_pos (by omega), List.getD_eq_getElem?_getD,
        List.getElem?_drop, List.getD_eq_getElem?_getD]
      congr 2
      omega

end Calls

/-! ## The whole run -/

/-- The loop processes the blocks of the calls from the second to the one that is short. -/
theorem readLoop_calls (cfg : Config V) (samples : List V) (hstep : 1 ≤ cfg.audioStepSize) :
    ∀ (fuel c : Nat) (blocks : List (List V)), c ≤ samples.length / cfg.audioStepSize →
      samples.length / cfg.audioStepSize - c < fuel →
      readLoop cfg fuel (calls cfg samples (c + 1)) blocks = some (calls cfg samples (samples.length / cfg.audioStepSize + 1),
        blocks ++ (List.range' c (samples.length / cfg.audioStepSize - c)).map fun k => (calls cfg samples (k + 2)).block cfg)
  | 0, c, blocks, hc, hfuel => by omega
  | fuel + 1, c, blocks, hc, hfuel => by
    have hfull := calls_full_iff cfg samples hstep c
    rw [readLoop]
    by_cases hlt : c < samples.length / cfg.audioStepSize
    · rw [if_pos (hfull.2 hlt)]
      have hrest := readLoop_calls cfg samples hstep fuel (c + 1)
        (blocks ++ [(calls cfg samples (c + 2)).block cfg]) (by omega) (by omega)
      refine hrest.trans ?_
      have hsucc : samples.length / cfg.audioStepSize - c = (samples.length / cfg.audioStepSize - (c + 1)) + 1 := by omega
      rw [hsucc, List.range'_succ, List.map_cons, List.append_assoc]
      rfl
    · rw [if_neg fun h => hlt (hfull.1 h)]
      have hc' : c = samples.length / cfg.audioStepSize := by omega
      rw [hc', Nat.sub_self]
      simp

theorem readBlocks_eq (cfg : Config V) (samples : List V) (hstep : 1 ≤ cfg.audioStepSize) :
    readBlocks cfg samples = some (calls cfg samples (samples.length / cfg.audioStepSize + 1),
      (List.range (samples.length / cfg.audioStepSize)).map fun k => (calls cfg samples (k + 2)).block cfg) := by
  have hloop := readLoop_calls cfg samples hstep (samples.length / cfg.audioStepSize + 1) 0 []
    (Nat.zero_le _) (Nat.lt_succ_self _)
  rw [List.range_eq_range']
  exact hloop

/-- Sample `i` is at place `j` of the block of call `c`. -/
theorem calls_block_sample {cfg : Config V} {samples : List V} (hblock : cfg.audioStepSize ≤ cfg.audioBlockSize) {c i j : Nat}
    (hi : i < samples.length) (hj : j < cfg.audioBlockSize) (hat : i + cfg.audioBlockSize = c * cfg.audioStepSize + j) :
    ((calls cfg samples c).block cfg)[j]? = some samples[i] := by
  have hposition : ((c * cfg.audioStepSize : Nat) + j - cfg.audioBlockSize : Int) = i := by omega
  rw [Read.block, List.getElem?_map, List.getElem?_range hj, Option.map_some, calls_window hblock c hj, hposition, sampleAt,
    if_pos (Int.natCast_nonneg i), Int.toNat_natCast, List.getD_eq_getElem?_getD, List.getElem?_eq_getElem hi]
  rfl

/-- Of the blocks from the second call on, the first or the one that ends with the step of the sample has it. -/
theorem exists_block {step block n i : Nat} (hstep : 1 ≤ step) (hdouble : 2 * step ≤ block) (hlong : step ≤ n) (hi : i < n) :
    ∃ k j, k < n / step ∧ j < block ∧ i + block = (k + 2) * step + j := by
  have hpos : 0 < step := hstep
  have hcount : 0 < n / step := Nat.div_pos hlong hpos
  have hlow := Nat.div_mul_le_self i step
  have hhigh := Nat.lt_div_mul_add hpos (a := i)
  by_cases hfirst : i < 2 * step
  · exact ⟨0, i + block - 2 * step, hcount, by omega, by omega⟩
  · obtain ⟨k, hk⟩ : ∃ k, i / step = k + 1 := ⟨i / step - 1, by
      have := (Nat.le_div_iff_mul_le hpos).2 (Nat.not_lt.1 hfirst)
      omega⟩
    have hlt : k + 1 ≤ n / step := by
      rw [← hk]
      exact Nat.div_le_div_right hi.le
    rw [hk, Nat.succ_mul] at hlow hhigh
    refine ⟨k, i + block - (k + 2) * step, hlt, ?_, ?_⟩ <;> rw [Nat.add_mul] <;> omega

/-- What the reader and the loop make of an audio. -/
structure CoversAudio (cfg : Config V) (samples : List V) : Prop where
  window : ∀ c j, j < cfg.audioBlockSize → (calls cfg samples c).audioBlock j =
    sampleAt samples ((c * cfg.audioStepSize : Nat) + j - cfg.audioBlockSize)
  run : ∃ last blocks, readBlocks cfg samples = some (last, blocks) ∧
    blocks.length = samples.length / cfg.audioStepSize ∧
    last.reader.totalSamplesRead = samples.length ∧
    (cfg.audioStepSize ≤ samples.length → 2 * cfg.audioStepSize ≤ cfg.audioBlockSize →
      ∀ i, (hi : i < samples.length) → ∃ k j, k < blocks.length ∧ j < cfg.audioBlockSize ∧
        i + cfg.audioBlockSize = (k + 2) * cfg.audioStepSize + j ∧ (blocks[k]?.bind (·[j]?)) = some samples[i])

theorem last_total (cfg : Config V) (hstep : 1 ≤ cfg.audioStepSize) (samples : List V) :
    (calls cfg samples (samples.length / cfg.audioStepSize + 1)).reader.totalSamplesRead = samples.length := by
  have hlt := Nat.lt_div_mul_add (show 0 < cfg.audioStepSize from hstep) (a := samples.length)
  rw [calls_total, Nat.succ_mul]
  omega

/-- **The overlapping reader and the processing loop cover the audio.** -/
theorem reader_covers (cfg : Config V) (hstep : 1 ≤ cfg.audioStepSize) (hblock : cfg.audioStepSize ≤ cfg.audioBlockSize)
    (samples : List V) : CoversAudio cfg samples := by
  refine ⟨fun c j hj => calls_window hblock c hj, _, _, readBlocks_eq cfg samples hstep, by simp,
    last_total cfg hstep samples, ?_⟩
  intro hlong hdouble i hi
  obtain ⟨k, j, hk, hj, hat⟩ := exists_block hstep hdouble hlong hi
  refine ⟨k, j, by simpa using hk, hj, hat, ?_⟩
  rw [List.getElem?_map, List.getElem?_range hk, Option.map_some, Option.bind_some]
  exact calls_block_sample hblock hi hj hat

/-- Steps of two samples in blocks of four, and five samples. -/
theorem reader_covers_five :
    CoversAudio { Config.default ℚ with audioStepSize := 2, audioBlockSize := 4 } [1, 2, 3, 4, 5] :=
  reader_covers _ (by decide) (by decide) _

/-! ## The audio of a run -/

/-- What a run reads from a file whose blocks can be counted; `transform` is the window and the transform. -/
def audioOfSamples (cfg : Config V) (transform : List V → EpExtractor.Frame V) (path : String) (samples : List V)
    (hstep : 1 ≤ cfg.audioStepSize) (hcount : samples.length / cfg.audioStepSize < 2 ^ 31) : StreamProcessor.Audio V :=
  let r := (readBlocks cfg samples).get (by rw [readBlocks_eq cfg samples hstep]; rfl)
  { path := path
    totalSamplesRead := r.1.reader.totalSamplesRead
    frames := r.2.map transform
    countable := by simpa [r, readBlocks_eq cfg samples hstep] using hcount }

/-- Its frames are one for each whole step, and it knows its length. -/
theorem audioOfSamples_length (cfg : Config V) (transform : List V → EpExtractor.Frame V) (path : String) (samples : List V)
    (hstep : 1 ≤ cfg.audioStepSize) (hcount : samples.length / cfg.audioStepSize < 2 ^ 31) :
    (audioOfSamples cfg transform path samples hstep hcount).frames.length = samples.length / cfg.audioStepSize ∧
      (audioOfSamples cfg transform path samples hstep hcount).totalSamplesRead = samples.length := by
  simp [audioOfSamples, readBlocks_eq cfg samples hstep, last_total cfg hstep samples]

end Olaf.Reader
