import Olaf.Config
import Olaf.Library.WindowMax
/-!
# The production max filter (`olaf_max_filter_perceptual_van_herk.c`)

| here | there |
| --- | --- |
| `perceptualMinIdx`, `perceptualMaxIdx` | the two index tables (`:21`, `:22`), the entries below `naive_implementation_stop_bin` (no later one is read) |
| `maxFilterMax`       | `olaf_max_filter_max` (`:45`) |
| `vanHerkGilWerman`   | `olaf_max_filter_van_herk_gil_werman` (`:54`) |
| `naiveBin`           | the body of the table-driven loop (`:93-110`) |
| `olafMaxFilter`      | `olaf_max_filter` (`:75`) |

A `float *` is its contents as a function of the index, and a function that writes through one takes
the old contents and returns the new. `R` and `S`, which van Herk's algorithm fills left to right, are
the recurrences that fill them.
-/

namespace Olaf.MaxFilter
open WindowMax

variable {V : Type} [Sample V]

/-- `out[k] = v`. -/
def write (out : Nat → V) (k : Nat) (v : V) : Nat → V := fun i => if i = k then v else out i

/-- `for (i = 0; i < len; i++) out[start + i] = v(i)`. -/
def writeRange (out : Nat → V) (start len : Nat) (v : Nat → V) : Nat → V :=
  (List.range len).foldl (fun out i => write out (start + i) (v i)) out

omit [Sample V] in
theorem writeRange_get (out : Nat → V) (start : Nat) (v : Nat → V) :
    ∀ (len k : Nat), writeRange out start len v k =
      if start ≤ k ∧ k < start + len then v (k - start) else out k
  | 0, k => by simp [writeRange]
  | len + 1, k => by
    have ih := writeRange_get out start v len k
    unfold writeRange at ih ⊢
    rw [List.range_succ, List.foldl_append]
    simp only [List.foldl_cons, List.foldl_nil, write, ih]
    by_cases hk : k = start + len
    · subst hk; simp
    · have : (start ≤ k ∧ k < start + len) ↔ (start ≤ k ∧ k < start + (len + 1)) := by omega
      simp [hk, this]

/-! ## The van Herk/Gil-Werman filter -/

/-- `olaf_max_filter_max`. -/
def maxFilterMax (a b : V) : V := if a > b then a else b

@[simp] theorem maxFilterMax_eq (a b : V) : maxFilterMax a b = max a b := by
  unfold maxFilterMax
  split
  · exact (max_eq_left (le_of_lt ‹_›)).symm
  · exact (max_eq_right (not_lt.1 ‹_›)).symm

/-- `R[d]`: `R[0] = array[Rpos]`, then `R[Rpos - i] = max(R[Rpos - i - 1], array[i])` for `i` going down. -/
def fillR (array : Nat → V) (Rpos : Nat) : Nat → V
  | 0 => array Rpos
  | d + 1 => maxFilterMax (fillR array Rpos d) (array (Rpos - (d + 1)))

/-- `S[d]`: `S[0] = array[Rpos]`, then `S[i - Rpos] = max(S[i - Rpos - 1], array[i])` for `i` going up. -/
def fillS (array : Nat → V) (Rpos : Nat) : Nat → V
  | 0 => array Rpos
  | d + 1 => maxFilterMax (fillS array Rpos d) (array (Rpos + (d + 1)))

/-- One round of the outer loop, at block start `j`. -/
def vanHerkBlock (array : Nat → V) (arraySize width : Nat) (maxvalues : Nat → V) (j : Nat) : Nat → V :=
  let Rpos := min (j + width - 1) (arraySize - 1)
  let m1 := min (j + 2 * width - 1) arraySize
  writeRange maxvalues j (m1 - Rpos) fun i =>
    maxFilterMax (fillS array Rpos i) (fillR array Rpos ((Rpos - j + 1) - i - 1))

/-- `olaf_max_filter_van_herk_gil_werman`: the block starts are the multiples of `width` below
`array_size - width + 1`. -/
def vanHerkGilWerman (array : Nat → V) (arraySize width : Nat) (maxvalues : Nat → V) : Nat → V :=
  (List.range ((arraySize - width) / width + 1)).foldl
    (fun out q => vanHerkBlock array arraySize width out (q * width)) maxvalues

theorem fillR_isMax (array : Nat → V) (Rpos : Nat) :
    ∀ d, d ≤ Rpos → IsMaxOver array (Rpos - d) Rpos (fillR array Rpos d)
  | 0, _ => .single array Rpos
  | d + 1, h => by
    have ih := fillR_isMax array Rpos d (by omega)
    rw [show Rpos - d = (Rpos - (d + 1)) + 1 by omega] at ih
    rw [fillR, maxFilterMax_eq]
    exact ih.extend_left (by omega)

theorem fillS_isMax (array : Nat → V) (Rpos : Nat) :
    ∀ d, IsMaxOver array Rpos (Rpos + d) (fillS array Rpos d)
  | 0 => .single array Rpos
  | d + 1 => by
    rw [fillS, maxFilterMax_eq]
    exact (fillS_isMax array Rpos d).extend_right (by omega)

/-- A block writes the positions from its start up to its width, or up to the last window that fits. -/
theorem vanHerkBlock_get (array : Nat → V) {n w : Nat} (hw : 1 ≤ w) (hn : w ≤ n) (out : Nat → V) {j : Nat}
    (hj : j ≤ n - w) (k : Nat) :
    (j ≤ k → k < j + w → k ≤ n - w → IsMaxOver array k (k + w - 1) (vanHerkBlock array n w out j k)) ∧
    (¬ (j ≤ k ∧ k < j + w ∧ k ≤ n - w) → vanHerkBlock array n w out j k = out k) := by
  have hR : min (j + w - 1) (n - 1) = j + w - 1 := by omega
  simp only [vanHerkBlock, hR, writeRange_get]
  have hin : (j ≤ k ∧ k < j + (min (j + 2 * w - 1) n - (j + w - 1))) ↔ (j ≤ k ∧ k < j + w ∧ k ≤ n - w) := by
    omega
  rw [if_congr hin rfl rfl]
  refine ⟨fun h1 h2 h3 => ?_, fun h => by rw [if_neg h]⟩
  rw [if_pos ⟨h1, h2, h3⟩, maxFilterMax_eq]
  -- `S` covers the window from the block's last index on, `R` the part up to it
  have hS := fillS_isMax array (j + w - 1) (k - j)
  have hRm := fillR_isMax array (j + w - 1) (j + w - 1 - j + 1 - (k - j) - 1) (by omega)
  rw [show j + w - 1 + (k - j) = k + w - 1 by omega] at hS
  rw [show j + w - 1 - (j + w - 1 - j + 1 - (k - j) - 1) = k by omega] at hRm
  rw [max_comm]
  exact hRm.union hS (by omega) (by omega) (by omega)

theorem vanHerk_blocks (array : Nat → V) {n w : Nat} (hw : 1 ≤ w) (hn : w ≤ n) (out : Nat → V) (k : Nat) :
    ∀ r, r ≤ (n - w) / w + 1 →
      let res := (List.range r).foldl (fun out q => vanHerkBlock array n w out (q * w)) out
      (k < r * w → k ≤ n - w → IsMaxOver array k (k + w - 1) (res k)) ∧ (¬ (k < r * w ∧ k ≤ n - w) → res k = out k)
  | 0, _ => by simp
  | r + 1, hr => by
    have ih := vanHerk_blocks array hw hn out k r (by omega)
    rw [List.range_succ, List.foldl_append]
    simp only [List.foldl_cons, List.foldl_nil]
    generalize (List.range r).foldl _ out = mid at ih ⊢
    have hj : r * w ≤ n - w :=
      Nat.le_trans (Nat.mul_le_mul_right w (by omega : r ≤ (n - w) / w)) (Nat.div_mul_le_self _ _)
    have hb := vanHerkBlock_get array hw hn mid hj k
    rw [Nat.succ_mul]
    by_cases hk : r * w ≤ k ∧ k < r * w + w ∧ k ≤ n - w
    · exact ⟨fun _ _ => hb.1 hk.1 hk.2.1 hk.2.2, fun h => absurd ⟨hk.2.1, hk.2.2⟩ h⟩
    · rw [hb.2 hk]
      exact ⟨fun h1 h2 => ih.1 (by omega) h2, fun h => ih.2 (by omega)⟩

/-- **`olaf_max_filter_van_herk_gil_werman`** writes exactly the positions of the windows that fit and
puts the maximum of its window at each. -/
theorem vanHerk_spec (array : Nat → V) {n w : Nat} (hw : 1 ≤ w) (hn : w ≤ n) (out : Nat → V) (k : Nat) :
    (k ≤ n - w → IsMaxOver array k (k + w - 1) (vanHerkGilWerman array n w out k)) ∧
    (n - w < k → vanHerkGilWerman array n w out k = out k) := by
  have h := vanHerk_blocks array hw hn out k _ (Nat.le_refl _)
  have hlt : n - w < ((n - w) / w + 1) * w := by
    have := Nat.lt_div_mul_add (a := n - w) (b := w) hw
    rw [Nat.succ_mul]; omega
  exact ⟨fun hk => h.1 (by omega) hk, fun hk => h.2 (by omega)⟩

/-! ## The perceptual filter -/

def naiveImplementationStopBin : Nat := 82
def vanHerkFilterWidth : Nat := 103

def perceptualMinIdx : List Nat :=
  [0, 0, 0, 0, 0, 0, 0, 0, 0, 9, 9, 9, 9, 9, 9, 9, 9, 10, 10, 11, 12, 12, 12, 13, 14, 14, 14, 15, 15,
   16, 16, 17, 17, 18, 19, 19, 19, 21, 21, 22, 22, 23, 23, 25, 25, 25, 26, 26, 26, 27, 27, 27, 29, 29,
   29, 31, 31, 31, 33, 33, 33, 35, 35, 35, 35, 37, 37, 37, 37, 39, 39, 39, 39, 41, 41, 41, 41, 43, 43,
   43, 43, 43]

def perceptualMaxIdx : List Nat :=
  [0, 0, 0, 0, 0, 0, 0, 0, 0, 16, 18, 19, 22, 23, 26, 27, 29, 31, 33, 35, 37, 37, 39, 41, 43, 43, 47,
   51, 51, 53, 53, 55, 55, 59, 63, 63, 63, 67, 67, 71, 71, 75, 75, 79, 79, 79, 83, 83, 83, 87, 87, 87,
   95, 95, 95, 99, 99, 99, 103, 103, 103, 111, 111, 111, 111, 119, 119, 119, 119, 127, 127, 127, 127,
   135, 135, 135, 135, 143, 143, 143, 143, 143]

/-- The maximum over the table's window of bin `f`, from `-1000000` up. -/
def naiveBin (array : Nat → V) (f : Nat) : V :=
  let startIndex := perceptualMinIdx.getD f 0
  let stopIndex := perceptualMaxIdx.getD f 0
  (List.range' startIndex (stopIndex - startIndex)).foldl
    (fun maxValue j => if maxValue < array j then array j else maxValue) (Sample.lit (-1000000))

/-- `olaf_max_filter`. The second filter reads from bin 82 on and writes from
`maxvalues[naive_implementation_stop_bin + van_herk_filter_width / 2]` on. -/
def olafMaxFilter (array : Nat → V) (arraySize : Nat) (maxvalues : Nat → V) : Nat → V :=
  let out := (List.range' 9 (naiveImplementationStopBin - 9)).foldl
    (fun out f => write out f (naiveBin array f)) maxvalues
  let shift := naiveImplementationStopBin + vanHerkFilterWidth / 2
  let shifted := vanHerkGilWerman (fun i => array (naiveImplementationStopBin + i))
    (arraySize - naiveImplementationStopBin) vanHerkFilterWidth (fun i => out (shift + i))
  fun k => if k < shift then out k else shifted (k - shift)

/-- The bins `olaf_max_filter` writes. -/
def Filtered (f : Nat) : Prop := (9 ≤ f ∧ f < 82) ∨ (133 ≤ f ∧ f ≤ 460)

instance (f : Nat) : Decidable (Filtered f) := inferInstanceAs (Decidable (_ ∨ _))

/-- The window a filtered bin takes its maximum over: the table's below bin 82, 51 bins either side above. -/
def windowLo (f : Nat) : Nat := if f < 82 then perceptualMinIdx.getD f 0 else f - 51
def windowHi (f : Nat) : Nat := if f < 82 then perceptualMaxIdx.getD f 0 - 1 else f + 51

theorem table_windows : ∀ f, 9 ≤ f → f < 82 →
    perceptualMinIdx.getD f 0 ≤ f ∧ f < perceptualMaxIdx.getD f 0 ∧ perceptualMaxIdx.getD f 0 ≤ 512 := by
  decide

theorem window_mem {f : Nat} (h : Filtered f) : windowLo f ≤ f ∧ f ≤ windowHi f ∧ windowHi f < 512 := by
  unfold windowLo windowHi
  rcases h with ⟨h1, h2⟩ | ⟨h1, h2⟩
  · have := table_windows f h1 h2
    simp only [h2, ↓reduceIte]; omega
  · simp only [show ¬ f < 82 by omega, ↓reduceIte]; omega

theorem naiveBin_isMax {array : Nat → V} (hlow : ∀ i, i < 512 → Sample.lit (-1000000) ≤ array i) {f : Nat}
    (h1 : 9 ≤ f) (h2 : f < 82) :
    IsMaxOver array (perceptualMinIdx.getD f 0) (perceptualMaxIdx.getD f 0 - 1) (naiveBin array f) := by
  obtain ⟨ht1, ht2, ht3⟩ := table_windows f h1 h2
  unfold naiveBin
  generalize perceptualMinIdx.getD f 0 = lo at ht1 ⊢
  generalize perceptualMaxIdx.getD f 0 = hi at ht2 ht3 ⊢
  have h := isMaxOver_foldl array lo (Sample.lit (-1000000)) (hi - 1 - lo)
    (fun i _ h => hlow i (by omega))
  rwa [show lo + (hi - 1 - lo) = hi - 1 by omega, show hi - 1 - lo + 1 = hi - lo by omega] at h

theorem naive_loop_get (array out : Nat → V) (lo : Nat) : ∀ (len k : Nat),
    (List.range' lo len).foldl (fun out f => write out f (naiveBin array f)) out k =
      if lo ≤ k ∧ k < lo + len then naiveBin array k else out k
  | 0, k => by simp
  | len + 1, k => by
    rw [List.range'_concat, List.foldl_append]
    simp only [List.foldl_cons, List.foldl_nil, Nat.one_mul, write, naive_loop_get array out lo len k]
    by_cases hk : k = lo + len
    · subst hk; simp
    · have : (lo ≤ k ∧ k < lo + len) ↔ (lo ≤ k ∧ k < lo + (len + 1)) := by omega
      simp [hk, this]

/-- What `olaf_max_filter` leaves in each bin of a frame of 512 magnitudes. -/
theorem olafMaxFilter_get {array : Nat → V} (hlow : ∀ i, i < 512 → Sample.lit (-1000000) ≤ array i)
    (old : Nat → V) (f : Nat) :
    (Filtered f → IsMaxOver array (windowLo f) (windowHi f) (olafMaxFilter array 512 old f)) ∧
    (¬ Filtered f → olafMaxFilter array 512 old f = old f) := by
  simp only [olafMaxFilter, naiveImplementationStopBin, vanHerkFilterWidth, naive_loop_get]
  have hv := vanHerk_spec (fun i => array (82 + i)) (n := 512 - 82) (w := 103) (by omega) (by omega)
    (fun i => if 9 ≤ 82 + 103 / 2 + i ∧ 82 + 103 / 2 + i < 9 + (82 - 9) then naiveBin array (82 + 103 / 2 + i)
      else old (82 + 103 / 2 + i)) (f - (82 + 103 / 2))
  by_cases hf : f < 82 + 103 / 2
  · simp only [hf, ↓reduceIte]
    by_cases hn : 9 ≤ f ∧ f < 9 + (82 - 9)
    · rw [if_pos hn]
      refine ⟨fun _ => ?_, fun h => absurd (Or.inl ⟨hn.1, by omega⟩) h⟩
      simp only [windowLo, windowHi, show f < 82 by omega, ↓reduceIte]
      exact naiveBin_isMax hlow hn.1 (by omega)
    · rw [if_neg hn]
      exact ⟨fun h => by unfold Filtered at h; omega, fun _ => rfl⟩
  · simp only [hf, ↓reduceIte]
    refine ⟨fun h => ?_, fun h => ?_⟩
    · have hfi : 133 ≤ f ∧ f ≤ 460 := by unfold Filtered at h; omega
      have h1 := (hv.1 (by omega)).shift (a := array) (d := 82)
      simp only [windowLo, windowHi, show ¬ f < 82 by omega, ↓reduceIte]
      rwa [show 82 + (f - (82 + 103 / 2)) = f - 51 by omega,
        show 82 + (f - (82 + 103 / 2) + 103 - 1) = f + 51 by omega] at h1
    · have hlt : 512 - 82 - 103 < f - (82 + 103 / 2) := by unfold Filtered at h; omega
      have hk := hv.2 hlt
      rw [show 82 + 103 / 2 + (f - (82 + 103 / 2)) = f by omega] at hk
      rw [hk]
      exact if_neg (by omega)

/-! ## What the filter writes over

Which bins are written depends on the size of the array only, and what is written does not depend on what was there. -/

/-- `f` puts the same at the indices in `bins` whatever was there, and leaves the others. -/
structure Overwrites (bins : Nat → Prop) (f : (Nat → V) → Nat → V) : Prop where
  inside : ∀ old old' k, bins k → f old k = f old' k
  outside : ∀ old k, ¬ bins k → f old k = old k

section Overwrites
variable {bins bins' : Nat → Prop} {f g : (Nat → V) → Nat → V}
omit [Sample V]

theorem overwrites_id : Overwrites (fun _ => False) fun out : Nat → V => out := ⟨nofun, fun _ _ _ => rfl⟩

theorem Overwrites.comp (hf : Overwrites bins f) (hg : Overwrites bins' g) :
    Overwrites (fun k => bins k ∨ bins' k) fun out => g (f out) := by
  refine ⟨fun old old' k hk => ?_, fun old k hk => ?_⟩
  · by_cases hk' : bins' k
    · exact hg.inside _ _ k hk'
    · rw [hg.outside _ k hk', hg.outside _ k hk', hf.inside old old' k (hk.resolve_right hk')]
  · rw [not_or] at hk
    rw [hg.outside _ k hk.2, hf.outside _ k hk.1]

theorem Overwrites.congr (hf : Overwrites bins f) (h : ∀ k, bins k ↔ bins' k) : Overwrites bins' f :=
  ⟨fun old old' k hk => hf.inside old old' k ((h k).2 hk), fun old k hk => hf.outside old k (mt (h k).1 hk)⟩

theorem overwrites_foldl {α : Type} {step : (Nat → V) → α → Nat → V} {bins : α → Nat → Prop}
    (hstep : ∀ a, Overwrites (bins a) fun out => step out a) (l : List α) :
    Overwrites (fun k => ∃ a ∈ l, bins a k) fun out => l.foldl step out := by
  induction l with
  | nil => exact overwrites_id.congr fun k => by simp
  | cons a l ih => exact ((hstep a).comp ih).congr fun k => by simp

theorem overwrites_writeRange (start len : Nat) (v : Nat → V) :
    Overwrites (fun k => start ≤ k ∧ k < start + len) fun out => writeRange out start len v := by
  refine ⟨fun old old' k hk => ?_, fun old k hk => ?_⟩
  · rw [writeRange_get, writeRange_get, if_pos hk, if_pos hk]
  · rw [writeRange_get, if_neg hk]

/-- A function that is given a pointer to index `d`. -/
theorem Overwrites.offset (hf : Overwrites bins f) (d : Nat) : Overwrites (fun k => d ≤ k ∧ bins (k - d)) fun out k =>
    if k < d then out k else f (fun i => out (d + i)) (k - d) := by
  refine ⟨fun old old' k hk => ?_, fun old k hk => ?_⟩
  · rw [if_neg (by omega), if_neg (by omega)]
    exact hf.inside _ _ (k - d) hk.2
  · split
    · rfl
    · rw [hf.outside _ (k - d) fun hbin => hk ⟨by omega, hbin⟩, Nat.add_sub_cancel' (by omega)]

/-- Nothing is left of an earlier run. -/
theorem Overwrites.twice (hf : Overwrites bins f) (hg : Overwrites bins g) (old : Nat → V) : f (g old) = f old := by
  funext k
  by_cases hk : bins k
  · exact hf.inside _ _ k hk
  · rw [hf.outside _ k hk, hg.outside _ k hk, hf.outside _ k hk]

end Overwrites

theorem vanHerk_overwrites (n width : Nat) : ∃ bins, ∀ array : Nat → V,
    Overwrites bins (vanHerkGilWerman array n width) :=
  ⟨_, fun _ => overwrites_foldl (fun q => overwrites_writeRange (q * width) _ _) _⟩

theorem olafMaxFilter_overwrites (n : Nat) : ∃ bins, ∀ array : Nat → V, Overwrites bins (olafMaxFilter array n) := by
  obtain ⟨bins, hbins⟩ := vanHerk_overwrites (V := V) (n - naiveImplementationStopBin) vanHerkFilterWidth
  have hnaive := fun array : Nat → V => overwrites_foldl
    (fun f => overwrites_writeRange f 1 fun _ => naiveBin array f) (List.range' 9 (naiveImplementationStopBin - 9))
  exact ⟨_, fun array => (hnaive array).comp ((hbins _).offset (naiveImplementationStopBin + vanHerkFilterWidth / 2))⟩

/-- What the filter leaves in a buffer does not depend on the frames that it filtered into it before. -/
theorem olafMaxFilter_twice (array array' : Nat → V) (n : Nat) (old : Nat → V) :
    olafMaxFilter array n (olafMaxFilter array' n old) = olafMaxFilter array n old := by
  obtain ⟨bins, hbins⟩ := olafMaxFilter_overwrites (V := V) n
  exact (hbins array).twice (hbins array') old

/-! ## Coverage of the analysed spectrum

`extract_internal` examines the bins 9 to 510. The shift by half a filter width moves the output of the
second filter to the centre of its windows, and no other code fills the half width it skips at either
end: bins 82 to 132 and 461 to 511 keep what the buffer held before. -/

/-- Bin `f` has been written: what it holds does not depend on what it held. -/
def Written (array : Nat → V) (f : Nat) : Prop :=
  ∀ old old' : Nat → V, olafMaxFilter array 512 old f = olafMaxFilter array 512 old' f

/-- What the extractor needs of bin `f` after a run of the filter over `old`. -/
structure Covered (array old : Nat → V) (f : Nat) : Prop where
  written : Written array f
  window : ∃ lo hi, lo ≤ f ∧ f ≤ hi ∧ hi < 512 ∧ IsMaxOver array lo hi (olafMaxFilter array 512 old f)
  above : array f ≤ olafMaxFilter array 512 old f
  peak : (∀ i, i < 512 → array i ≤ array f) → olafMaxFilter array 512 old f = array f

/-- An array of magnitudes never falls below the start value of the windowed maximum. -/
theorem low_of_nonneg {array : Nat → V} (hmag : ∀ i, i < 512 → Sample.lit 0 ≤ array i) (i : Nat) (hi : i < 512) :
    Sample.lit (-1000000) ≤ array i :=
  le_trans (Sample.lit_mono (by decide +kernel)) (hmag i hi)

theorem covered_of_filtered {array : Nat → V} (hmag : ∀ i, i < 512 → Sample.lit 0 ≤ array i) (old : Nat → V)
    {f : Nat} (hf : Filtered f) : Covered array old f := by
  have hlow := low_of_nonneg hmag
  have hmax := fun old => (olafMaxFilter_get hlow old f).1 hf
  obtain ⟨hlo, hhi, h512⟩ := window_mem hf
  have habove : array f ≤ olafMaxFilter array 512 old f := (hmax old).bound f hlo hhi
  refine ⟨fun o o' => (hmax o).unique (hmax o'), ⟨_, _, hlo, hhi, h512, hmax old⟩, habove, fun hall => ?_⟩
  obtain ⟨i, _, hi, hiv⟩ := (hmax old).attained
  exact le_antisymm (hiv ▸ hall i (by omega)) habove

theorem not_written {array : Nat → V} (hmag : ∀ i, i < 512 → Sample.lit 0 ≤ array i) {f : Nat}
    (hf : ¬ Filtered f) : ¬ Written array f := by
  intro hw
  have hkeep := fun old => (olafMaxFilter_get (low_of_nonneg hmag) old f).2 hf
  have h := hw (fun _ => Sample.lit 0) (fun _ => Sample.lit (1 / 1000))
  rw [hkeep, hkeep] at h
  exact absurd h (ne_of_lt Sample.lit_zero_lt)

/-- **Coverage of `olaf_max_filter`**: of the bins the extractor examines, exactly 9 to 81 and 133 to 460
hold the maximum of a window around them. -/
theorem covered_iff {array : Nat → V} (hmag : ∀ i, i < 512 → Sample.lit 0 ≤ array i) (old : Nat → V) {f : Nat}
    (h9 : 9 ≤ f) (h510 : f ≤ 510) : Covered array old f ↔ f ≤ 81 ∨ (133 ≤ f ∧ f ≤ 460) := by
  constructor
  · intro hc
    by_contra hf
    exact not_written hmag (fun h => hf (by unfold Filtered at h; omega)) hc.written
  · intro hf
    exact covered_of_filtered hmag old (by unfold Filtered; omega)

/-- A frame with all its energy in one bin. -/
def spike (bin : Nat) : Nat → ℚ := fun i => if i = bin then 1 else 0

theorem covered_iff_spike : Covered (spike 200) (fun _ => 0) 200 ↔ 200 ≤ 81 ∨ (133 ≤ 200 ∧ 200 ≤ 460) :=
  covered_iff (fun i _ => by
    show (0 : ℚ) ≤ spike 200 i
    unfold spike; split <;> decide +kernel) (fun _ => 0) (by omega) (by omega)

/-- The loudest bin of a frame is lost when it lies in the gap: bin 100 keeps the `0` of `calloc`. -/
theorem spike_in_gap_lost : ¬ ∀ array : Nat → ℚ, (∀ i, i < 512 → Sample.lit 0 ≤ array i) →
    ∀ f, 9 ≤ f → f ≤ 510 → Covered array (fun _ => 0) f := by
  intro h
  have hmag : ∀ i, i < 512 → (Sample.lit 0 : ℚ) ≤ spike 100 i := fun i _ => by
    show (0 : ℚ) ≤ spike 100 i
    unfold spike; split <;> decide +kernel
  have hc := h (spike 100) hmag 100 (by omega) (by omega)
  have hkeep := (olafMaxFilter_get (low_of_nonneg hmag) (fun _ => 0) 100).2 (by decide)
  have habove := hc.above
  rw [hkeep] at habove
  exact absurd habove (by decide +kernel)

end Olaf.MaxFilter
