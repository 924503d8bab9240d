import Mathlib.Data.List.Basic
import Olaf.Config
import Olaf.Library.Checked
import Olaf.Library.WindowMax
/-!
# The reference max filter (`olaf_max_filter_naive.c`)

| here | there |
| --- | --- |
| `halfFilterWidth` | `int half_filter_width` (`:21`), to which the `size_t` is converted |
| `startIndex`, `stopIndex` | the ends of the window (`:23`, `:24`), where it is converted back |
| `maxInto` | the running maximum (`:25-29`) |
| `maxFilterNaive` | `olaf_max_filter_naive` (`:20`); `olaf_max_filter_lemire.c` and two other files have a copy |

The window is meant to be clipped at both ends. At the upper end it is, at the lower it is not: `i - half_filter_width`
is a `size_t` and so never below zero, and what is to be below zero lies behind the array. The window of such an index is
empty and the start value stays. `clipped_iff` says when that does not show.
-/

namespace Olaf.NaiveFilter
open Checked WindowMax

variable {V : Type} [Sample V]

def halfFilterWidth (filterWidth : Nat) : Int := (((filterWidth / 2 : Nat) : Int) + 2 ^ 31) % 2 ^ 32 - 2 ^ 31

def startIndex (half : Int) (i : Nat) : Nat := if sizeT (i - half) > 0 then sizeT (i - half) else 0

def stopIndex (half : Int) (arraySize i : Nat) : Nat :=
  if sizeT (i + half) < arraySize then sizeT (i + half) + 1 else arraySize

def maxInto (array : Floats V) (start stop i : Nat) (maxvalues : Buffer V) : Option (Buffer V) := do
  let maxvalues ← maxvalues.store i (Sample.lit (-100000))
  forUp start stop (fun j maxvalues => do
    if (← array.load j) > (← maxvalues.load i) then maxvalues.store i (← array.load j) else return maxvalues) maxvalues

def maxFilterNaive (array : Floats V) (filterWidth : Nat) (maxvalues : Buffer V) : Option (Buffer V) :=
  let half := halfFilterWidth filterWidth
  forUp 0 array.size (fun i => maxInto array (startIndex half i) (stopIndex half array.size i) i) maxvalues

/-! ## What it computes -/

/-- The running maximum of a window. -/
def runningMax (a : Nat → V) (start stop : Nat) : V :=
  (List.range' start (stop - start)).foldl (fun m j => if m < a j then a j else m) (Sample.lit (-100000))

theorem maxInto_returns {array : Floats V} {start stop i : Nat} {maxvalues : Buffer V} (hstop : stop ≤ array.size)
    (hi : i < maxvalues.size) : Returns (maxInto array start stop i maxvalues) fun out => out.size = maxvalues.size ∧
      out.cell = Function.update maxvalues.cell i (runningMax array.cell start stop) := by
  apply Buffer.bind_store hi
  by_cases hle : start ≤ stop
  · refine forUp_returns (fun j (out : Buffer V) => out.size = maxvalues.size ∧
      out.cell = Function.update maxvalues.cell i (runningMax array.cell start j)) hle ?_ ⟨rfl, ?_⟩
    · rintro j out hlo hhi ⟨hsize, hcell⟩
      have hnext : runningMax array.cell start (j + 1) =
          if runningMax array.cell start j < array.cell j then array.cell j else runningMax array.cell start j := by
        rw [runningMax, show j + 1 - start = j - start + 1 by omega, List.range'_1_concat, List.foldl_concat,
          show start + (j - start) = j by omega]
        rfl
      have hcur : out.cell i = runningMax array.cell start j := by rw [hcell, Function.update_self]
      apply Buffer.bind_load (show j < array.size by omega)
      apply Buffer.bind_load (show i < out.size by omega)
      rw [hcur, hnext]
      by_cases hgt : runningMax array.cell start j < array.cell j
      · rw [if_pos hgt, if_pos hgt]
        apply Buffer.bind_load (show j < array.size by omega)
        refine Buffer.store_returns (by omega) ⟨hsize, ?_⟩
        rw [Buffer.set, hcell, Function.update_idem]
      · rw [if_neg hgt, if_neg hgt]
        exact Returns.pure ⟨hsize, hcell⟩
    · rw [runningMax, Nat.sub_self]
      rfl
  · rw [forUp_empty _ _ (by omega), runningMax, Nat.sub_eq_zero_of_le (by omega)]
    exact Returns.pure ⟨rfl, rfl⟩

theorem stopIndex_le (half : Int) (n i : Nat) : stopIndex half n i ≤ n := by
  unfold stopIndex
  split <;> omega

theorem naive_returns (array : Floats V) (w : Nat) {maxvalues : Buffer V} (hout : array.size ≤ maxvalues.size) :
    Returns (maxFilterNaive array w maxvalues) fun out => ∀ i, i < array.size → out.cell i =
      runningMax array.cell (startIndex (halfFilterWidth w) i) (stopIndex (halfFilterWidth w) array.size i) := by
  let Inv (i : Nat) (out : Buffer V) : Prop := out.size = maxvalues.size ∧ ∀ k, k < i → out.cell k =
    runningMax array.cell (startIndex (halfFilterWidth w) k) (stopIndex (halfFilterWidth w) array.size k)
  refine Returns.mono (forUp_returns Inv (Nat.zero_le _) ?_ ⟨rfl, fun k hk => absurd hk (Nat.not_lt_zero k)⟩)
    fun out h => h.2
  rintro i out _ hi ⟨hsize, hcell⟩
  apply (maxInto_returns (stopIndex_le _ _ _) (by omega)).mono
  rintro out' ⟨hsize', hcell'⟩
  refine ⟨by omega, fun k hk => ?_⟩
  rw [hcell']
  by_cases hki : k = i
  · rw [hki, Function.update_self]
  · rw [Function.update_of_ne hki]
    exact hcell k (by omega)

/-! ## Clipping -/

/-- Every position gets the maximum of its window, clipped at both ends. -/
def Clipped (array : Floats V) (w : Nat) (maxvalues : Buffer V) : Prop :=
  Returns (maxFilterNaive array w maxvalues) fun out =>
    ∀ i, i < array.size → IsMaxOver array.cell (i - w / 2) (min (array.size - 1) (i + w / 2)) (out.cell i)

/-- An empty window: the start value is no value of the array. -/
theorem not_isMaxOver {array : Floats V} (hlow : ∀ i, i < array.size → Sample.lit (-100000) < array.cell i)
    {lo hi start stop : Nat} (hhi : hi < array.size) (hempty : stop ≤ start) :
    ¬ IsMaxOver array.cell lo hi (runningMax array.cell start stop) := by
  intro h
  obtain ⟨i, _, hi', heq⟩ := h.attained
  have hlt := hlow i (by omega)
  rw [heq, runningMax, Nat.sub_eq_zero_of_le hempty] at hlt
  exact lt_irrefl _ hlt

/-- Where half of the width is no `int` but zero, a position gets its own value. -/
theorem runningMax_self {array : Floats V} (hlow : ∀ i, i < array.size → Sample.lit (-100000) < array.cell i) {i : Nat}
    (hi : i < array.size) : runningMax array.cell (startIndex 0 i) (stopIndex 0 array.size i) = array.cell i := by
  have hfits := array.fits
  have hsize : sizeT (i : Int) = i := sizeT_eq rfl (by omega)
  have hstart : startIndex 0 i = i := by
    rw [startIndex, sub_zero, hsize]
    split <;> omega
  have hstop : stopIndex 0 array.size i = i + 1 := by rw [stopIndex, add_zero, hsize, if_pos hi]
  rw [hstart, hstop, runningMax, Nat.add_sub_cancel_left]
  exact if_pos (hlow i hi)

omit [Sample V] in
/-- Otherwise the window of the first or of the last position is empty. -/
theorem window_empty (array : Floats V) {half : Int} (h0 : half ≠ 0) (hlo : -2 ^ 31 ≤ half) (hhi : half < 2 ^ 31)
    (hn : 1 ≤ array.size) : ∃ i, i < array.size ∧ stopIndex half array.size i ≤ startIndex half i := by
  have hfits := array.fits
  by_cases hpos : 0 < half
  · refine ⟨0, hn, (stopIndex_le _ _ _).trans ?_⟩
    have hwrap : sizeT (((0 : Nat) : Int) - half) = (2 ^ 64 - half).toNat := by unfold sizeT; omega
    rw [startIndex, hwrap, if_pos (by omega)]
    omega
  · refine ⟨array.size - 1, by omega, (stopIndex_le _ _ _).trans ?_⟩
    have hbehind : sizeT (((array.size - 1 : Nat) : Int) - half) = array.size - 1 + (-half).toNat := by unfold sizeT; omega
    rw [startIndex, hbehind, if_pos (by omega)]
    omega

/-- **When the reference filter is clipped**: when half of the width is zero, or its low 32 bits are and all values are
the same. -/
theorem clipped_iff (array : Floats V) (w : Nat) {maxvalues : Buffer V} (hn : 1 ≤ array.size)
    (hlow : ∀ i, i < array.size → Sample.lit (-100000) < array.cell i) (hout : array.size ≤ maxvalues.size) :
    Clipped array w maxvalues ↔
      w ≤ 1 ∨ (2 ^ 32 ∣ w / 2 ∧ ∀ i j, i < array.size → j < array.size → array.cell i = array.cell j) := by
  obtain ⟨out, hrun, hcell⟩ := naive_returns array w hout
  have hclipped : Clipped array w maxvalues ↔
      ∀ i, i < array.size → IsMaxOver array.cell (i - w / 2) (min (array.size - 1) (i + w / 2)) (out.cell i) := by
    rw [Clipped, hrun]
    exact ⟨fun ⟨out', h, hout'⟩ => Option.some.inj h ▸ hout', fun h => ⟨out, rfl, h⟩⟩
  rw [hclipped]
  constructor
  · intro hmax
    by_cases hw : w ≤ 1
    · exact Or.inl hw
    have hhalf : halfFilterWidth w = 0 := by
      by_contra hne
      obtain ⟨i, hi, hempty⟩ := window_empty array hne (by unfold halfFilterWidth; omega)
        (by unfold halfFilterWidth; omega) hn
      have hi' := hmax i hi
      rw [hcell i hi] at hi'
      exact not_isMaxOver hlow (by omega) hempty hi'
    have hself : ∀ i, i < array.size → out.cell i = array.cell i := fun i hi => by
      rw [hcell i hi, hhalf, runningMax_self hlow hi]
    have hnext : ∀ i, i + 1 < array.size → array.cell (i + 1) = array.cell i := by
      intro i hi
      have hleft := (hmax i (by omega)).bound (i + 1) (by omega) (by omega)
      have hright := (hmax (i + 1) hi).bound i (by omega) (by omega)
      rw [hself _ (by omega)] at hleft hright
      exact le_antisymm hleft hright
    have hfirst : ∀ i, i < array.size → array.cell i = array.cell 0 := by
      intro i
      induction i with
      | zero => exact fun _ => rfl
      | succ i ih => exact fun hi => (hnext i hi).trans (ih (by omega))
    refine Or.inr ⟨by unfold halfFilterWidth at hhalf; omega, fun i j hi hj => ?_⟩
    rw [hfirst i hi, hfirst j hj]
  · intro h i hi
    have hhalf : halfFilterWidth w = 0 := by
      unfold halfFilterWidth
      omega
    rw [hcell i hi, hhalf, runningMax_self hlow hi]
    rcases h with hw | ⟨_, hsame⟩
    · have h0 : w / 2 = 0 := by omega
      rw [h0, Nat.sub_zero, add_zero, Nat.min_eq_right (by omega)]
      exact IsMaxOver.single ..
    · exact ⟨fun j _ hj => (hsame j i (by omega) hi).le, i, by omega, by omega, rfl⟩

/-- The values 1, 2 and 3. -/
def threeValues : Floats ℚ := ⟨⟨3, fun i => i + 1⟩, by decide⟩

theorem threeValues_low : ∀ i, i < threeValues.size → Sample.lit (-100000) < threeValues.cell i := by
  show ∀ i, i < 3 → Sample.lit (-100000) < threeValues.cell i
  decide +kernel

theorem clipped_iff_threeValues : Clipped threeValues 3 threeValues.toBuffer ↔
    3 ≤ 1 ∨ (2 ^ 32 ∣ 3 / 2 ∧ ∀ i j, i < 3 → j < 3 → threeValues.cell i = threeValues.cell j) :=
  clipped_iff threeValues 3 (by decide) threeValues_low (Nat.le_refl 3)

/-- A window of three: the first position keeps the start value. -/
theorem threeValues_not_clipped : ¬ ∀ (array : Floats ℚ) (w : Nat) (maxvalues : Buffer ℚ), 1 ≤ array.size →
    (∀ i, i < array.size → Sample.lit (-100000) < array.cell i) → array.size ≤ maxvalues.size →
    Clipped array w maxvalues := by
  intro h
  obtain ⟨out, hrun, hmax⟩ := h threeValues 3 threeValues.toBuffer (by decide) threeValues_low (Nat.le_refl 3)
  obtain ⟨out', hrun', hcell⟩ := naive_returns threeValues 3 (Nat.le_refl threeValues.size)
  obtain rfl : out = out' := Option.some.inj (hrun.symm.trans hrun')
  have hfirst := (hmax 0 (by decide)).bound 0 (by omega) (by omega)
  rw [hcell 0 (by decide)] at hfirst
  exact absurd hfirst (by decide +kernel)

end Olaf.NaiveFilter
