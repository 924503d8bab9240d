import Olaf.Deque
import Olaf.Library.MaxDeque
import Olaf.NaiveFilter
/-!
# The Lemire filter (`olaf_max_filter_lemire.c`)

| here | there |
| --- | --- |
| `popped`     | a pop, which must not find the queue empty |
| `popSmaller` | the `while` loop over the back of the queue (`:46-50`, `:57-61`) |
| `overshoot`  | what both loops do with the next index (`:44-52`, `:55-63`): `prune` is its `if`, then it is pushed |
| `expire`, `slide` | the last statement of the second loop (`:64-65`) and its body |
| `lemireMaxFilter` | `olaf_lemire_max_filter` (`:40`) |
| `shift`, `clampLast`, `fillFirst` | the loops of `olaf_max_filter` (`:97-99`, `:103-105`, `:124-132`) |
| `olafMaxFilter` | `olaf_max_filter` (`:89`) |
| `maxFilterFrequency` | `olaf_ep_extractor_max_filter_frequency` (`olaf_ep_extractor.c:123`) |

Every access is checked, and so is that no operation is applied to an empty queue. After index `i` has been handled the
queue is the one of the window that ends with it (`Window`), so the value that is written is the maximum of that window.

`olaf_max_filter` moves the result by half the width, from the back to the front. When half the width is zero that loop runs
while a `size_t` is at least zero, and never ends.
-/

namespace Olaf.Lemire
open Checked WindowMax

variable {V : Type} [LinearOrder V]

def popped (pop : Deque → Deque) (d : Deque) : Option Deque := if d.empty then none else some (pop d)

/-- The indices of smaller values leave the back. -/
def popSmaller (array : Floats V) (i : Nat) : (fuel : Nat) → Deque → Option Deque
  | 0, _ => none
  | fuel + 1, maxfifo =>
    if maxfifo.empty then some maxfifo
    else do
      if (← array.load i) ≤ (← array.load (← maxfifo.back)) then return maxfifo
      popSmaller array i fuel (← popped Deque.popBack maxfifo)

/-- The index before `i` is at the back, and leaves when its value is smaller. -/
def prune (array : Floats V) (fuel i : Nat) (maxfifo : Deque) : Option Deque := do
  if (← array.load i) > (← array.load (i - 1)) then popSmaller array i fuel (← popped Deque.popBack maxfifo)
  else return maxfifo

def overshoot (array : Floats V) (fuel i : Nat) (maxfifo : Deque) : Option Deque := do
  let maxfifo ← prune array fuel i maxfifo
  maxfifo.pushBack i

/-- The front leaves when the window has passed it. -/
def expire (filterWidth i : Nat) (maxfifo : Deque) : Option Deque := do
  if i = filterWidth + (← maxfifo.front) then popped Deque.popFront maxfifo else return maxfifo

/-- The body of the second loop. -/
def slide (array : Floats V) (filterWidth fuel i : Nat) (s : Deque × Buffer V) : Option (Deque × Buffer V) := do
  let maxvalues ← s.2.store (i - filterWidth) (← array.load (← s.1.front))
  let maxfifo ← overshoot array fuel i s.1
  let maxfifo ← expire filterWidth i maxfifo
  return (maxfifo, maxvalues)

def lemireMaxFilter (array : Floats V) (filterWidth : Nat) (maxvalues : Buffer V) (fuel : Nat) : Option (Buffer V) := do
  let maxfifo ← (Deque.new (array.size * 5)).pushBack 0
  let maxfifo ← forUp 1 filterWidth (overshoot array fuel) maxfifo
  let s ← forUp filterWidth array.size (slide array filterWidth fuel) (maxfifo, maxvalues)
  s.2.store (array.size - filterWidth) (← array.load (← s.1.front))

/-! ## The next index -/

section Next
variable {array : Floats V} {lo hi i fuel : Nat} {d : Deque} {items : List Nat}

theorem popSmaller_returns (hd : d.Holds items) (hp : Pruned array.cell lo i items) (hi : i < array.size)
    (hfuel : items.length < fuel) :
    Returns (popSmaller array i fuel d) fun d' => d'.valueIndex = d.valueIndex ∧ d'.maxSize = d.maxSize ∧
      ∃ items', d'.Holds items' ∧ Pruned array.cell lo i items' ∧
        ∀ j, items'.getLast? = some j → array.cell i ≤ array.cell j := by
  induction fuel generalizing d items with
  | zero => omega
  | succ fuel ih =>
    rw [popSmaller, hd.empty]
    rcases List.eq_nil_or_concat items with rfl | ⟨before, j, rfl⟩
    · exact Returns.pure ⟨rfl, rfl, [], hd, hp, fun j hj => by cases hj⟩
    rw [List.concat_eq_append] at *
    have hback : d.back = some j := by rw [hd.back, List.getLast?_concat]
    have hj := hp.inside j (by simp)
    rw [if_neg (by simp)]
    apply Buffer.bind_load hi
    rw [hback]
    apply Buffer.bind_load (show j < array.size by omega)
    by_cases hle : array.cell i ≤ array.cell j
    · rw [if_pos hle]
      refine Returns.pure ⟨rfl, rfl, _, hd, hp, fun k hk => ?_⟩
      rw [List.getLast?_concat, Option.some.injEq] at hk
      exact hk ▸ hle
    · rw [if_neg hle]
      have hpop : popped Deque.popBack d = some d.popBack := if_neg (by rw [hd.empty]; simp)
      rw [hpop]
      have hd' := hd.popBack
      rw [List.dropLast_concat] at hd'
      exact ih hd' (hp.pop (lt_of_not_ge hle)) (by simp at hfuel; omega)

/-- The queue after index `hi - 1`, for the window that starts at `lo`. -/
def Window (array : Floats V) (lo hi : Nat) (d : Deque) : Prop :=
  d.valueIndex = hi ∧ d.maxSize = array.size * 5 ∧ ∃ items, d.Holds items ∧ MaxDeque array.cell lo hi items

theorem prune_returns (hd : Window array lo i d) (hlo : lo < i) (hi : i < array.size) (hfuel : array.size ≤ fuel) :
    Returns (prune array fuel i d) fun d' => d'.valueIndex = d.valueIndex ∧ d'.maxSize = d.maxSize ∧
      ∃ items, d'.Holds items ∧ Pruned array.cell lo i items ∧
        ∀ j, items.getLast? = some j → array.cell i ≤ array.cell j := by
  obtain ⟨_, _, items, hitems, hdeque⟩ := hd
  have hlast := hdeque.last hlo
  obtain ⟨before, rfl⟩ : ∃ before, items = before ++ [i - 1] := by
    obtain ⟨before, last, rfl⟩ := List.eq_nil_or_concat items |>.resolve_left (by rintro rfl; cases hlast)
    rw [List.concat_eq_append, List.getLast?_concat, Option.some.injEq] at hlast
    exact ⟨before, by rw [List.concat_eq_append, hlast]⟩
  apply Buffer.bind_load hi
  apply Buffer.bind_load (show i - 1 < array.size by omega)
  by_cases hgt : array.cell i > array.cell (i - 1)
  · have hpop : popped Deque.popBack d = some d.popBack := if_neg (by rw [hitems.empty]; simp)
    have hitems' := hitems.popBack
    rw [List.dropLast_concat] at hitems'
    have hlength := hdeque.length_le
    rw [List.length_append, List.length_singleton] at hlength
    rw [if_pos hgt, hpop]
    exact popSmaller_returns hitems' (hdeque.prune.pop hgt) hi (by omega)
  · rw [if_neg hgt]
    refine Returns.pure ⟨rfl, rfl, _, hitems, hdeque.prune, fun j hj => ?_⟩
    rw [hlast, Option.some.injEq] at hj
    exact hj ▸ not_lt.1 hgt

theorem overshoot_returns (hd : Window array lo i d) (hlo : lo < i) (hi : i < array.size) (hfuel : array.size ≤ fuel) :
    Returns (overshoot array fuel i d) (Window array lo (i + 1)) := by
  have hindex := hd.1
  have hmax := hd.2.1
  apply (prune_returns hd hlo hi hfuel).bind
  rintro d' ⟨hindex', hmax', items, hitems, hp, hback⟩
  apply (hitems.pushBack (by omega) i).mono
  rintro d'' ⟨hholds, hindex'', hmax''⟩
  exact ⟨by omega, by omega, _, hholds, hp.push hback (by omega)⟩

/-- The front is the first index of the window, or not in it. -/
theorem expire_returns {w : Nat} (hd : Window array lo (i + 1) d) (hlo : lo + w = i) (hw : 1 ≤ w) :
    Returns (expire w i d) (Window array (lo + 1) (i + 1)) := by
  obtain ⟨hindex, hmax, items, hitems, hdeque⟩ := hd
  have hlast := hdeque.last (by omega)
  obtain ⟨j, rest, rfl⟩ := List.exists_cons_of_ne_nil (show items ≠ [] by rintro rfl; cases hlast)
  have hfront : d.front = some j := hitems.front
  rw [expire, hfront]
  by_cases hj : i = w + j
  · obtain rfl : j = lo := by omega
    have hpop : popped Deque.popFront d = some d.popFront := if_neg (by rw [hitems.empty]; simp)
    refine ⟨d.popFront, (if_pos hj).trans hpop, hindex, hmax, rest, hitems.popFront, hdeque.expire⟩
  · exact ⟨d, if_neg hj, hindex, hmax, _, hitems, hdeque.keep (by omega)⟩

end Next

/-! ## The filter -/

/-- At the front of the queue is the maximum of the window. -/
theorem Window.front {array : Floats V} {lo hi : Nat} {d : Deque} (hd : Window array lo hi d) (hlo : lo < hi)
    (hhi : hi ≤ array.size) :
    ∃ j, d.front = some j ∧ j < array.size ∧ IsMaxOver array.cell lo (hi - 1) (array.cell j) := by
  obtain ⟨_, _, items, hitems, hdeque⟩ := hd
  have hlast := hdeque.last hlo
  obtain ⟨j, rest, rfl⟩ := List.exists_cons_of_ne_nil (show items ≠ [] by rintro rfl; cases hlast)
  have hj := hdeque.inside j (by simp)
  exact ⟨j, hitems.front, by omega, hdeque.front⟩

section Filter
variable {array : Floats V} {w fuel : Nat} {maxvalues : Buffer V}

theorem slide_returns {i : Nat} {s : Deque × Buffer V} (hw : 1 ≤ w) (hwi : w ≤ i) (hi : i < array.size)
    (hout : array.size - w + 1 ≤ maxvalues.size) (hfuel : array.size ≤ fuel) (hd : Window array (i - w) i s.1)
    (hsize : s.2.size = maxvalues.size) (hs : WindowMaxima array.cell w (i - w) maxvalues.cell s.2.cell) :
    Returns (slide array w fuel i s) fun s' => Window array (i + 1 - w) (i + 1) s'.1 ∧ s'.2.size = maxvalues.size ∧
      WindowMaxima array.cell w (i + 1 - w) maxvalues.cell s'.2.cell := by
  obtain ⟨j, hfront, hj, hmax⟩ := hd.front (by omega) (by omega)
  rw [slide, hfront]
  apply Buffer.bind_load hj
  apply Buffer.bind_store (show i - w < s.2.size by omega)
  apply (overshoot_returns hd (by omega) hi hfuel).bind
  intro d hd
  apply (expire_returns hd (show i - w + w = i by omega) hw).bind
  intro d hd
  rw [show i + 1 - w = i - w + 1 by omega]
  refine Returns.pure ⟨hd, hsize, hs.next ?_⟩
  rwa [show i - w + w - 1 = i - 1 by omega]

/-- The two loops give the maximum of every window. -/
theorem lemire_windows (hw : 1 ≤ w) (hn : w ≤ array.size) (hout : array.size - w + 1 ≤ maxvalues.size)
    (hfuel : array.size ≤ fuel) :
    Returns (lemireMaxFilter array w maxvalues fuel) fun out => out.size = maxvalues.size ∧
      WindowMaxima array.cell w (array.size - w + 1) maxvalues.cell out.cell := by
  apply ((Deque.holds_new (array.size * 5)).pushBack (show 0 + 1 < array.size * 5 by omega) 0).bind
  rintro d ⟨hholds, hindex, hmax⟩
  have hfirst : Window array 0 1 d := ⟨hindex, hmax, [0], hholds, maxDeque_single array.cell 0⟩
  apply (forUp_returns (Window array 0) hw (fun i d h1 hi hd => overshoot_returns hd (by omega) (by omega) hfuel)
    hfirst).bind
  intro d hd
  let Inv (i : Nat) (s : Deque × Buffer V) : Prop := Window array (i - w) i s.1 ∧ s.2.size = maxvalues.size ∧
    WindowMaxima array.cell w (i - w) maxvalues.cell s.2.cell
  have hstart : Inv w (d, maxvalues) := by
    refine ⟨by rwa [Nat.sub_self], rfl, ?_⟩
    rw [Nat.sub_self]
    exact windowMaxima_zero ..
  apply (forUp_returns Inv hn (fun i s hwi hi h => slide_returns hw hwi hi hout hfuel h.1 h.2.1 h.2.2) hstart).bind
  rintro ⟨d, out⟩ ⟨hd, hsize, hs⟩
  obtain ⟨j, hfront, hj, hmax⟩ := hd.front (by omega) (Nat.le_refl _)
  dsimp only at hfront hsize ⊢
  rw [hfront]
  apply Buffer.bind_load hj
  refine Buffer.store_returns (by omega) ⟨hsize, hs.next ?_⟩
  rwa [show array.size - w + w - 1 = array.size - 1 by omega]

end Filter

/-- **The Lemire filter is the sliding maximum.** It ends without an access outside the array, an operation on an empty
queue or a full one, and writes the positions of the windows that fit, each with the maximum of its window. -/
theorem lemire_returns (array : Floats V) {w fuel : Nat} (hw : 1 ≤ w) (hn : w ≤ array.size) (maxvalues : Buffer V)
    (hout : array.size - w + 1 ≤ maxvalues.size) (hfuel : array.size ≤ fuel) :
    Returns (lemireMaxFilter array w maxvalues fuel) fun out => out.size = maxvalues.size ∧
      WindowMaxima array.cell w (array.size - w + 1) maxvalues.cell out.cell :=
  lemire_windows hw hn hout hfuel

/-- Values that rise and fall. -/
def fiveValues : Floats Nat := ⟨⟨5, fun i => [3, 1, 4, 1, 5].getD i 0⟩, by decide⟩

theorem lemire_returns_fiveValues :
    Returns (lemireMaxFilter fiveValues 2 ⟨4, fun _ => 0⟩ 5) fun out => out.size = 4 ∧
      WindowMaxima fiveValues.cell 2 4 (fun _ => 0) out.cell :=
  lemire_returns fiveValues (by decide) (by decide) ⟨4, fun _ => 0⟩ (by decide) (by decide)

end Olaf.Lemire

namespace Olaf.Lemire
open Checked WindowMax NaiveFilter

/-! ## Centring -/

variable {V : Type} [Sample V]

def shift (arraySize half : Nat) (maxvalues : Buffer V) (fuel : Nat) : Option (Buffer V) :=
  forDown (sizeT (arraySize - 1)) half (fun i maxvalues => do maxvalues.store i (← maxvalues.load (i - half))) fuel maxvalues

def clampLast (arraySize half : Nat) (maxvalues : Buffer V) (fuel : Nat) : Option (Buffer V) :=
  forDown (sizeT (arraySize - 1)) (sizeT (arraySize - half)) (fun i maxvalues => do
    maxvalues.store i (← maxvalues.load (sizeT (arraySize - half - 1)))) fuel maxvalues

def fillFirst (array : Floats V) (half : Nat) (maxvalues : Buffer V) : Option (Buffer V) :=
  forUp 0 half (fun i => maxInto array 0 (i + half) i) maxvalues

def olafMaxFilter (array : Floats V) (filterWidth : Nat) (maxvalues : Buffer V) (fuel : Nat) : Option (Buffer V) := do
  let maxvalues ← lemireMaxFilter array filterWidth maxvalues fuel
  let half := filterWidth / 2
  let maxvalues ← shift array.size half maxvalues fuel
  let maxvalues ← clampLast array.size half maxvalues fuel
  fillFirst array half maxvalues

def maxFilterFrequency (data : Floats V) (halfFilterSize : Nat) (max : Buffer V) (fuel : Nat) : Option (Buffer V) :=
  olafMaxFilter data (halfFilterSize + halfFilterSize + 1) max fuel

section Loops
variable {n h fuel : Nat} {maxvalues : Buffer V}

omit [Sample V] in
theorem shift_returns (h1 : 1 ≤ h) (hn : 2 * h + 1 ≤ n) (hfits : n < 2 ^ 61) (hsize : maxvalues.size = n) (hfuel : n ≤ fuel) :
    Returns (shift n h maxvalues fuel) fun out => out.size = n ∧
      ∀ k, h ≤ k → k < n → out.cell k = maxvalues.cell (k - h) := by
  have hstart : sizeT ((n : Int) - 1) = n - 1 := sizeT_eq (by omega) (by omega)
  -- what is still to be read is below the index
  let Inv (c : Nat) (out : Buffer V) : Prop := out.size = n ∧ ∀ k, k < n →
    out.cell k = if c ≤ k then maxvalues.cell (k - h) else maxvalues.cell k
  rw [shift, hstart]
  refine Returns.mono (forDown_returns Inv h1 (by omega) (by omega) (by omega) ?_ ⟨hsize, fun k hk => ?_⟩) ?_
  · rintro i out hi hi' ⟨hout, hcell⟩
    apply Buffer.bind_load (show i - h < out.size by omega)
    rw [(hcell (i - h) (by omega)).trans (if_neg (by omega))]
    exact Buffer.store_returns (by omega) ⟨hout, Buffer.set_down hcell⟩
  · rw [if_neg (by omega)]
  · rintro out ⟨hout, hcell⟩
    exact ⟨hout, fun k hk hkn => (hcell k hkn).trans (if_pos hk)⟩

omit [Sample V] in
theorem clampLast_returns (h1 : 1 ≤ h) (hn : 2 * h + 1 ≤ n) (hfits : n < 2 ^ 61) (hsize : maxvalues.size = n)
    (hfuel : n ≤ fuel) :
    Returns (clampLast n h maxvalues fuel) fun out => out.size = n ∧
      ∀ k, k < n → out.cell k = if n - h ≤ k then maxvalues.cell (n - 1 - h) else maxvalues.cell k := by
  have hstart : sizeT ((n : Int) - 1) = n - 1 := sizeT_eq (by omega) (by omega)
  have hstop : sizeT ((n : Int) - h) = n - h := sizeT_eq (by omega) (by omega)
  have hlast : sizeT ((n : Int) - h - 1) = n - 1 - h := sizeT_eq (by omega) (by omega)
  rw [clampLast, hstart, hstop, hlast]
  refine forDown_returns (fun c (out : Buffer V) => out.size = n ∧ ∀ k, k < n →
    out.cell k = if c ≤ k then maxvalues.cell (n - 1 - h) else maxvalues.cell k) (by omega) (by omega) (by omega) (by omega)
    ?_ ⟨hsize, fun k hk => ?_⟩
  · rintro i out hi hi' ⟨hout, hcell⟩
    apply Buffer.bind_load (show n - 1 - h < out.size by omega)
    rw [(hcell (n - 1 - h) (by omega)).trans (if_neg (by omega))]
    exact Buffer.store_returns (by omega) ⟨hout, Buffer.set_down hcell⟩
  · rw [if_neg (by omega)]

theorem fillFirst_returns {array : Floats V} (hn : 2 * h + 1 ≤ array.size) (hsize : maxvalues.size = array.size) :
    Returns (fillFirst array h maxvalues) fun out => ∀ k, h ≤ k → out.cell k = maxvalues.cell k := by
  refine Returns.mono (forUp_returns (fun _ (out : Buffer V) => out.size = array.size ∧
    ∀ k, h ≤ k → out.cell k = maxvalues.cell k) (Nat.zero_le h) ?_ ⟨hsize, fun _ _ => rfl⟩) fun out hout => hout.2
  rintro i out _ hi ⟨hout, hcell⟩
  apply (maxInto_returns (by omega) (by omega)).mono
  rintro out' ⟨hout', hcell'⟩
  refine ⟨by omega, fun k hk => ?_⟩
  rw [hcell', Function.update_of_ne (by omega)]
  exact hcell k hk

end Loops

/-- The filter ends, and every position gets the maximum around it, but for half a width at either end; the last ones repeat
the last that did. -/
def Centred (array : Floats V) (h : Nat) (maxvalues : Buffer V) : Prop :=
  ∃ fuel, Returns (maxFilterFrequency array h maxvalues fuel) fun out =>
    (∀ i, h ≤ i → i ≤ array.size - 1 - h → IsMaxOver array.cell (i - h) (i + h) (out.cell i)) ∧
      ∀ i, array.size - 1 - h < i → i < array.size → out.cell i = out.cell (array.size - 1 - h)

theorem centred_of_pos {array : Floats V} {h : Nat} {maxvalues : Buffer V} (h1 : 1 ≤ h) (hn : 2 * h + 1 ≤ array.size)
    (hsize : maxvalues.size = array.size) : Centred array h maxvalues := by
  have hfits := array.fits
  have hhalf : (h + h + 1) / 2 = h := by omega
  refine ⟨array.size, ?_⟩
  rw [maxFilterFrequency, olafMaxFilter]
  apply (lemire_windows (w := h + h + 1) (by omega) (by omega) (by omega) (Nat.le_refl array.size)).bind
  rintro out1 ⟨hsize1, hmax⟩
  dsimp only
  rw [hhalf]
  apply (shift_returns h1 hn hfits (hsize1.trans hsize) (Nat.le_refl _)).bind
  rintro out2 ⟨hsize2, hshift⟩
  apply (clampLast_returns h1 hn hfits hsize2 (Nat.le_refl _)).bind
  rintro out3 ⟨hsize3, hclamp⟩
  apply (fillFirst_returns hn hsize3).mono
  intro out hkept
  have hmiddle : ∀ i, h ≤ i → i ≤ array.size - 1 - h → out.cell i = out1.cell (i - h) := by
    intro i hi hi'
    rw [hkept i hi, hclamp i (by omega), if_neg (by omega), hshift i hi (by omega)]
  constructor
  · intro i hi hi'
    have hwindow := hmax.window (i - h) (by omega)
    rw [show i - h + (h + h + 1) - 1 = i + h by omega] at hwindow
    rw [hmiddle i hi hi']
    exact hwindow
  · intro i hi hi'
    rw [hmiddle _ (by omega) (Nat.le_refl _), hkept i (by omega), hclamp i hi', if_pos (by omega), hshift _ (by omega) (by omega)]

/-- The first loop never ends. -/
theorem not_centred_zero (array : Floats V) (maxvalues : Buffer V) : ¬ Centred array 0 maxvalues := by
  rintro ⟨fuel, out, hrun, _⟩
  rw [maxFilterFrequency, olafMaxFilter] at hrun
  cases hlemire : lemireMaxFilter array (0 + 0 + 1) maxvalues fuel with
  | none =>
    rw [hlemire] at hrun
    cases hrun
  | some out1 =>
    have hshift : shift array.size 0 out1 fuel = none := forDown_forever ..
    have hrun' : (shift array.size 0 out1 fuel >>= fun maxvalues =>
        clampLast array.size 0 maxvalues fuel >>= fillFirst array 0) = some out := by rwa [hlemire] at hrun
    rw [hshift] at hrun'
    cases hrun'

/-- **When the filter ends and is centred**: when half the width is not zero. -/
theorem centred_iff (array : Floats V) (h : Nat) {maxvalues : Buffer V} (hn : 2 * h + 1 ≤ array.size)
    (hsize : maxvalues.size = array.size) : Centred array h maxvalues ↔ 1 ≤ h := by
  refine ⟨fun hc => Nat.pos_of_ne_zero ?_, fun h1 => centred_of_pos h1 hn hsize⟩
  rintro rfl
  exact not_centred_zero array maxvalues hc

theorem centred_iff_threeValues : Centred threeValues 1 threeValues.toBuffer ↔ 1 ≤ 1 :=
  centred_iff threeValues 1 (by decide) rfl

/-- A window of one. -/
theorem narrowest_not_centred : ¬ ∀ (array : Floats ℚ) (h : Nat) (maxvalues : Buffer ℚ), 2 * h + 1 ≤ array.size →
    maxvalues.size = array.size → Centred array h maxvalues := fun h =>
  not_centred_zero _ _ (h threeValues 0 threeValues.toBuffer (by decide) rfl)

end Olaf.Lemire
