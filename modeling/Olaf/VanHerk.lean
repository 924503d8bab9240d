import Olaf.Library.Checked
import Olaf.MaxFilter
/-!
# The van Herk/Gil-Werman filter access by access (`olaf_max_filter_perceptual_van_herk.c:54`)

| here | there |
| --- | --- |
| `maxFilterMax` | `olaf_max_filter_max` (`:45`) |
| `fillR`, `fillS`, `combine` | the three inner loops (`:61-62`, `:66-68`, `:69-70`) on the scratch arrays `R[width]` and `S[width]` |
| `block`      | the body of the outer loop (`:58-71`) |
| `vanHerkGilWerman` | `olaf_max_filter_van_herk_gil_werman` (`:54`) |

Every access is checked against the size of its array. The loop that fills `R` counts down, and when the block starts at
zero its last decrement goes past zero, to `2^64 - 1`; the test is made on `i + 1`, which is zero then. No sum of sizes comes
near `2^64`.

The filter of `Olaf.MaxFilter` has the scratch arrays as recurrences; `vanHerk_refines` is that it computes the same.
-/

namespace Olaf.VanHerk
open Checked WindowMax

variable {V : Type} [LinearOrder V]

/-- `olaf_max_filter_max`. -/
def maxFilterMax (a b : V) : V := if a > b then a else b

theorem maxFilterMax_eq (a b : V) : maxFilterMax a b = max a b := by
  unfold maxFilterMax
  split
  · exact (max_eq_left (le_of_lt ‹_›)).symm
  · exact (max_eq_right (not_lt.1 ‹_›)).symm

def fillR (array : Floats V) (fuel Rpos j : Nat) (R : Buffer V) : Option (Buffer V) := do
  let R ← R.store 0 (← array.load Rpos)
  let s ← whileLoop (fun s : Nat × Buffer V => sizeT (s.1 + 1) > j) (fun s => do
      let R ← s.2.store (Rpos - s.1) (maxFilterMax (← s.2.load (Rpos - s.1 - 1)) (← array.load s.1))
      return (sizeT (s.1 - 1), R))
    fuel (sizeT (Rpos - 1), R)
  return s.2

def fillS (array : Floats V) (Rpos m1 : Nat) (S : Buffer V) : Option (Buffer V) := do
  let S ← S.store 0 (← array.load Rpos)
  forUp (Rpos + 1) m1 (fun i S => do
    S.store (i - Rpos) (maxFilterMax (← S.load (i - Rpos - 1)) (← array.load i))) S

def combine (Rpos m1 j : Nat) (R S maxvalues : Buffer V) : Option (Buffer V) :=
  forUp 0 (m1 - Rpos) (fun i maxvalues => do
    maxvalues.store (j + i) (maxFilterMax (← S.load i) (← R.load (Rpos - j + 1 - i - 1)))) maxvalues

/-- The variables of the outer loop. -/
structure Blocks (V : Type) where
  j : Nat
  R : Buffer V
  S : Buffer V
  maxvalues : Buffer V

def block (array : Floats V) (width fuel : Nat) (s : Blocks V) : Option (Blocks V) := do
  let Rpos := min (s.j + width - 1) (array.size - 1)
  let R ← fillR array fuel Rpos s.j s.R
  let m1 := min (s.j + 2 * width - 1) array.size
  let S ← fillS array Rpos m1 s.S
  let maxvalues ← combine Rpos m1 s.j R S s.maxvalues
  return ⟨s.j + width, R, S, maxvalues⟩

/-- `scratch` is what the two arrays hold before they are written. -/
def vanHerkGilWerman (array : Floats V) (width : Nat) (scratch : Nat → V) (maxvalues : Buffer V) (fuel : Nat) :
    Option (Buffer V) := do
  let s ← whileLoop (fun s : Blocks V => s.j < array.size - width + 1) (block array width fuel) fuel
    ⟨0, ⟨width, scratch⟩, ⟨width, scratch⟩, maxvalues⟩
  return s.maxvalues

/-! ## The inner loops -/

section Block
variable {array : Floats V} {w j fuel : Nat}

/-- `R` holds the maxima of the windows that end with the last index of the block. -/
theorem fillR_returns {R : Buffer V} (hw : 1 ≤ w) (hj : j + w ≤ array.size) (hR : R.size = w) (hfuel : array.size < fuel) :
    Returns (fillR array fuel (j + w - 1) j R) fun R' =>
      R'.size = w ∧ ∀ d, d < w → IsMaxOver array.cell (j + w - 1 - d) (j + w - 1) (R'.cell d) := by
  have hfits := array.fits
  have hback : ∀ c, c ≤ array.size → sizeT ((sizeT ((c : Int) - 1) : Nat) + 1) = c := fun c hc => by
    unfold sizeT
    omega
  apply Buffer.bind_load (by omega)
  apply Buffer.bind_store (by omega)
  -- `c` is `i + 1`: the indices from `c` on are in `R`
  let Inv (s : Nat × Buffer V) : Prop := ∃ c, j ≤ c ∧ c ≤ j + w - 1 ∧ s.1 = sizeT ((c : Int) - 1) ∧ s.2.size = w ∧
    ∀ d, d ≤ j + w - 1 - c → IsMaxOver array.cell (j + w - 1 - d) (j + w - 1) (s.2.cell d)
  refine Returns.bind (whileLoop_returns Inv (fun s => sizeT (s.1 + 1)) ?_ ?_ ?_) ?_
  · rintro ⟨i, R⟩ ⟨c, hc, hc', rfl, hsize, hmax⟩ hcond
    simp only [hback c (by omega), gt_iff_lt, decide_eq_true_eq] at hcond
    have hi : sizeT ((c : Int) - 1) = c - 1 := sizeT_eq (by omega) (by omega)
    dsimp only at hsize hmax ⊢
    rw [hi]
    apply Buffer.bind_load (by omega)
    apply Buffer.bind_load (by omega)
    apply Buffer.bind_store (by omega)
    refine Returns.pure ⟨⟨c - 1, by omega, by omega, rfl, hsize, fun d hd => ?_⟩, ?_⟩
    · by_cases hlast : d = j + w - 1 - (c - 1)
      · have hprev := hmax (j + w - 1 - c) (Nat.le_refl _)
        rw [show j + w - 1 - (j + w - 1 - c) = c - 1 + 1 by omega] at hprev
        rw [hlast, Buffer.set_cell_self, maxFilterMax_eq, show j + w - 1 - (c - 1) - 1 = j + w - 1 - c by omega,
          show j + w - 1 - (j + w - 1 - (c - 1)) = c - 1 by omega]
        exact hprev.extend_left (by omega)
      · rw [Buffer.set_cell_ne hlast]
        exact hmax d (by omega)
    · have hnow : sizeT (((c - 1 : Nat) : Int) + 1) = c := sizeT_eq (by omega) (by omega)
      rw [hback (c - 1) (by omega), hnow]
      omega
  · show sizeT _ < fuel
    rw [hback _ (by omega)]
    omega
  · refine ⟨j + w - 1, by omega, Nat.le_refl _, rfl, hR, fun d hd => ?_⟩
    obtain rfl : d = 0 := by omega
    rw [Buffer.set_cell_self]
    exact IsMaxOver.single ..
  · rintro ⟨i, R⟩ ⟨⟨c, hc, hc', rfl, hsize, hmax⟩, hcond⟩
    simp only [hback c (by omega), gt_iff_lt, decide_eq_false_iff_not] at hcond
    exact Returns.pure ⟨hsize, fun d hd => hmax d (by omega)⟩

/-- `S` holds the maxima of the windows that start there. -/
theorem fillS_returns {S : Buffer V} (hw : 1 ≤ w) (hj : j + w ≤ array.size) (hS : S.size = w) :
    Returns (fillS array (j + w - 1) (min (j + 2 * w - 1) array.size) S) fun S' =>
      S'.size = w ∧ ∀ d, j + w - 1 + d < min (j + 2 * w - 1) array.size →
        IsMaxOver array.cell (j + w - 1) (j + w - 1 + d) (S'.cell d) := by
  apply Buffer.bind_load (by omega)
  apply Buffer.bind_store (by omega)
  refine forUp_returns (fun i (S' : Buffer V) => S'.size = w ∧ ∀ d, j + w - 1 + d < i →
    IsMaxOver array.cell (j + w - 1) (j + w - 1 + d) (S'.cell d)) (by omega) ?_ ?_
  · rintro i S' hlo hhi ⟨hsize, hmax⟩
    apply Buffer.bind_load (by omega)
    apply Buffer.bind_load (by omega)
    refine Buffer.store_returns (by omega) ⟨hsize, fun d hd => ?_⟩
    by_cases hlast : d = i - (j + w - 1)
    · have hnext := (hmax (i - (j + w - 1) - 1) (by omega)).extend_right (by omega)
      rw [show j + w - 1 + (i - (j + w - 1) - 1) + 1 = i by omega] at hnext
      rw [hlast, Buffer.set_cell_self, maxFilterMax_eq, show j + w - 1 + (i - (j + w - 1)) = i by omega]
      exact hnext
    · rw [Buffer.set_cell_ne hlast]
      exact hmax d (by omega)
  · refine ⟨hS, fun d hd => ?_⟩
    obtain rfl : d = 0 := by omega
    rw [Buffer.set_cell_self]
    exact IsMaxOver.single ..

/-- A block writes the positions from its start up to its width, or up to the last window that fits. -/
theorem combine_returns {R S maxvalues : Buffer V} {old : Nat → V} (hw : 1 ≤ w) (hj : j + w ≤ array.size) (hR : R.size = w)
    (hS : S.size = w) (hmaxR : ∀ d, d < w → IsMaxOver array.cell (j + w - 1 - d) (j + w - 1) (R.cell d))
    (hmaxS : ∀ d, j + w - 1 + d < min (j + 2 * w - 1) array.size →
      IsMaxOver array.cell (j + w - 1) (j + w - 1 + d) (S.cell d))
    (hout : array.size - w + 1 ≤ maxvalues.size) (h : WindowMaxima array.cell w j old maxvalues.cell) :
    Returns (combine (j + w - 1) (min (j + 2 * w - 1) array.size) j R S maxvalues) fun out =>
      out.size = maxvalues.size ∧ WindowMaxima array.cell w (min (j + w) (array.size - w + 1)) old out.cell := by
  have hstop : j + (min (j + 2 * w - 1) array.size - (j + w - 1)) = min (j + w) (array.size - w + 1) := by omega
  rw [← hstop]
  refine forUp_returns (fun i (out : Buffer V) => out.size = maxvalues.size ∧ WindowMaxima array.cell w (j + i) old out.cell)
    (Nat.zero_le _) ?_ ⟨rfl, h⟩
  rintro i out _ hi ⟨hsize, hout⟩
  apply Buffer.bind_load (by omega)
  apply Buffer.bind_load (by omega)
  refine Buffer.store_returns (by omega) ⟨hsize, hout.next ?_⟩
  -- `S` covers the window from the block's last index on, `R` the part up to it
  have hhigh := hmaxS i (by omega)
  have hlow := hmaxR (w - i - 1) (by omega)
  rw [show j + w - 1 + i = j + i + w - 1 by omega] at hhigh
  rw [show j + w - 1 - (w - i - 1) = j + i by omega] at hlow
  rw [maxFilterMax_eq, max_comm, show j + w - 1 - j + 1 - i - 1 = w - i - 1 by omega]
  exact hlow.union hhigh (by omega) (by omega) (by omega)

theorem block_returns {s : Blocks V} {old : Nat → V} (hw : 1 ≤ w) (hj : s.j + w ≤ array.size) (hR : s.R.size = w)
    (hS : s.S.size = w) (hout : array.size - w + 1 ≤ s.maxvalues.size) (hfuel : array.size < fuel)
    (h : WindowMaxima array.cell w s.j old s.maxvalues.cell) :
    Returns (block array w fuel s) fun s' => s'.j = s.j + w ∧ s'.R.size = w ∧ s'.S.size = w ∧
      s'.maxvalues.size = s.maxvalues.size ∧
      WindowMaxima array.cell w (min s'.j (array.size - w + 1)) old s'.maxvalues.cell := by
  have hRpos : min (s.j + w - 1) (array.size - 1) = s.j + w - 1 := by omega
  unfold block
  simp only [hRpos]
  apply (fillR_returns hw hj hR hfuel).bind
  rintro R ⟨hR, hmaxR⟩
  apply (fillS_returns hw hj hS).bind
  rintro S ⟨hS, hmaxS⟩
  apply (combine_returns hw hj hR hS hmaxR hmaxS hout h).bind
  rintro out ⟨hsize, hmax⟩
  exact Returns.pure ⟨rfl, hR, hS, hsize, hmax⟩

end Block

theorem blocks_return (array : Floats V) {w fuel : Nat} (hw : 1 ≤ w) (hn : w ≤ array.size) (scratch : Nat → V)
    (maxvalues : Buffer V) (hout : array.size - w + 1 ≤ maxvalues.size) (hfuel : array.size < fuel) :
    Returns (whileLoop (fun s : Blocks V => s.j < array.size - w + 1) (block array w fuel) fuel
      ⟨0, ⟨w, scratch⟩, ⟨w, scratch⟩, maxvalues⟩) fun s => s.maxvalues.size = maxvalues.size ∧
        WindowMaxima array.cell w (array.size - w + 1) maxvalues.cell s.maxvalues.cell := by
  let Inv (s : Blocks V) : Prop := s.R.size = w ∧ s.S.size = w ∧ s.maxvalues.size = maxvalues.size ∧
    WindowMaxima array.cell w (min s.j (array.size - w + 1)) maxvalues.cell s.maxvalues.cell
  refine Returns.mono (whileLoop_returns Inv (fun s => array.size - w + 1 - s.j) ?_ ?_ ?_) ?_
  · rintro s ⟨hR, hS, hsize, hmax⟩ hcond
    rw [decide_eq_true_eq] at hcond
    rw [Nat.min_eq_left hcond.le] at hmax
    apply (block_returns hw (by omega) hR hS (by omega) hfuel hmax).mono
    rintro s' ⟨hj, hR', hS', hsize', hmax'⟩
    exact ⟨⟨hR', hS', hsize'.trans hsize, hmax'⟩, by omega⟩
  · show array.size - w + 1 - 0 < fuel
    omega
  · refine ⟨rfl, rfl, rfl, ?_⟩
    rw [Nat.zero_min]
    exact windowMaxima_zero ..
  · rintro s ⟨⟨_, _, hsize, hmax⟩, hcond⟩
    rw [decide_eq_false_iff_not, not_lt] at hcond
    rw [Nat.min_eq_right hcond] at hmax
    exact ⟨hsize, hmax⟩

/-- **The van Herk/Gil-Werman filter is the sliding maximum.** It ends without an access outside the input or the scratch
arrays, and writes the positions of the windows that fit, each with the maximum of its window. -/
theorem vanHerk_returns (array : Floats V) {w fuel : Nat} (hw : 1 ≤ w) (hn : w ≤ array.size) (scratch : Nat → V)
    (maxvalues : Buffer V) (hout : array.size - w + 1 ≤ maxvalues.size) (hfuel : array.size < fuel) :
    Returns (vanHerkGilWerman array w scratch maxvalues fuel) fun out => out.size = maxvalues.size ∧
      WindowMaxima array.cell w (array.size - w + 1) maxvalues.cell out.cell :=
  (blocks_return array hw hn scratch maxvalues hout hfuel).bind fun _ hs => Returns.pure hs

theorem five_fits : 5 < 2 ^ 61 := by decide

/-- Five values, windows of two. -/
def fiveValues : Floats Nat := ⟨⟨5, fun i => [3, 1, 4, 1, 5].getD i 0⟩, five_fits⟩

theorem vanHerk_returns_fiveValues :
    Returns (vanHerkGilWerman fiveValues 2 (fun _ => 0) ⟨4, fun _ => 0⟩ 6) fun out => out.size = 4 ∧
      WindowMaxima fiveValues.cell 2 4 (fun _ => 0) out.cell :=
  vanHerk_returns fiveValues (by decide) (by decide) (fun _ => 0) ⟨4, fun _ => 0⟩ (by decide) (by decide)

/-- The filter of `Olaf.MaxFilter` computes the same. -/
theorem vanHerk_refines {V : Type} [Sample V] (array : Floats V) {w fuel : Nat} (hw : 1 ≤ w) (hn : w ≤ array.size)
    (scratch : Nat → V) (maxvalues : Buffer V) (hout : array.size - w + 1 ≤ maxvalues.size) (hfuel : array.size < fuel) :
    vanHerkGilWerman array w scratch maxvalues fuel =
      some ⟨maxvalues.size, MaxFilter.vanHerkGilWerman array.cell array.size w maxvalues.cell⟩ := by
  obtain ⟨s, hrun, hs⟩ := blocks_return array hw hn scratch maxvalues hout hfuel
  rw [vanHerkGilWerman, hrun]
  refine congrArg some (congrArg₂ Buffer.mk hs.1 (funext fun k => ?_))
  have hspec := MaxFilter.vanHerk_spec array.cell hw hn maxvalues.cell k
  by_cases hk : k ≤ array.size - w
  · exact (hs.2.window k (by omega)).unique (hspec.1 hk)
  · exact (hs.2.kept k (by omega)).trans (hspec.2 (by omega)).symm

end Olaf.VanHerk
