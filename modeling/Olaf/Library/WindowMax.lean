import Mathlib.Logic.Function.Basic
import Mathlib.Order.MinMax
/-!
# The maximum of an array over an interval of indices

An array is its contents as a function of the index. `IsMaxOver a lo hi m` says that `m` is the
largest value of `a` on the closed interval `[lo, hi]`; the rules below grow such an interval by
one index on either side and glue two intervals that touch or overlap, which is how running
maxima, prefix maxima and suffix maxima are computed.
-/

namespace WindowMax

variable {V : Type} [LinearOrder V]

/-- `m` is the maximum of `a` over the indices `lo, …, hi`. -/
structure IsMaxOver (a : Nat → V) (lo hi : Nat) (m : V) : Prop where
  bound : ∀ i, lo ≤ i → i ≤ hi → a i ≤ m
  attained : ∃ i, lo ≤ i ∧ i ≤ hi ∧ a i = m

theorem IsMaxOver.single (a : Nat → V) (i : Nat) : IsMaxOver a i i (a i) :=
  ⟨fun k h1 h2 => by rw [show k = i by omega], i, Nat.le_refl i, Nat.le_refl i, rfl⟩

/-- Two intervals that leave no gap between them: the larger maximum is the maximum of the union. -/
theorem IsMaxOver.union {a : Nat → V} {lo mid mid' hi : Nat} {m m' : V}
    (h : IsMaxOver a lo mid m) (h' : IsMaxOver a mid' hi m') (hlo : lo ≤ mid') (hgap : mid' ≤ mid + 1)
    (hhi : mid ≤ hi) : IsMaxOver a lo hi (max m m') := by
  refine ⟨fun i h1 h2 => ?_, ?_⟩
  · by_cases hi' : i ≤ mid
    · exact le_max_of_le_left (h.bound i h1 hi')
    · exact le_max_of_le_right (h'.bound i (by omega) h2)
  · obtain ⟨i, i1, i2, hi1⟩ := h.attained
    obtain ⟨k, k1, k2, hk⟩ := h'.attained
    rcases le_total m m' with hle | hle
    · exact ⟨k, by omega, k2, by rw [hk, max_eq_right hle]⟩
    · exact ⟨i, i1, by omega, by rw [hi1, max_eq_left hle]⟩

theorem IsMaxOver.extend_right {a : Nat → V} {lo hi : Nat} {m : V} (h : IsMaxOver a lo hi m) (hle : lo ≤ hi + 1) :
    IsMaxOver a lo (hi + 1) (max m (a (hi + 1))) :=
  h.union (.single a (hi + 1)) hle (Nat.le_refl _) (Nat.le_succ _)

theorem IsMaxOver.extend_left {a : Nat → V} {lo hi : Nat} {m : V} (h : IsMaxOver a (lo + 1) hi m) (hle : lo ≤ hi) :
    IsMaxOver a lo hi (max m (a lo)) := by
  rw [max_comm]
  exact (IsMaxOver.single a lo).union h (Nat.le_succ _) (Nat.le_refl _) hle

/-- The maximum of an interval is one value. -/
theorem IsMaxOver.unique {a : Nat → V} {lo hi : Nat} {m m' : V} (h : IsMaxOver a lo hi m)
    (h' : IsMaxOver a lo hi m') : m = m' := by
  obtain ⟨i, i1, i2, rfl⟩ := h.attained
  obtain ⟨k, k1, k2, rfl⟩ := h'.attained
  exact le_antisymm (h'.bound i i1 i2) (h.bound k k1 k2)

/-- Moving the array under the interval. -/
theorem IsMaxOver.shift {a : Nat → V} {d lo hi : Nat} {m : V} (h : IsMaxOver (fun i => a (d + i)) lo hi m) :
    IsMaxOver a (d + lo) (d + hi) m := by
  refine ⟨fun i h1 h2 => ?_, ?_⟩
  · have := h.bound (i - d) (by omega) (by omega)
    rwa [show d + (i - d) = i by omega] at this
  · obtain ⟨i, i1, i2, hi⟩ := h.attained
    exact ⟨d + i, by omega, by omega, hi⟩

/-- `out` holds the maxima of the first `stop` windows of width `w`, and behind them what `old` holds. -/
structure WindowMaxima (a : Nat → V) (w stop : Nat) (old out : Nat → V) : Prop where
  window : ∀ k, k < stop → IsMaxOver a k (k + w - 1) (out k)
  kept : ∀ k, stop ≤ k → out k = old k

theorem windowMaxima_zero (a : Nat → V) (w : Nat) (old : Nat → V) : WindowMaxima a w 0 old old :=
  ⟨fun k hk => absurd hk (Nat.not_lt_zero k), fun _ _ => rfl⟩

theorem WindowMaxima.next {a old out : Nat → V} {w stop : Nat} {v : V} (h : WindowMaxima a w stop old out)
    (hv : IsMaxOver a stop (stop + w - 1) v) : WindowMaxima a w (stop + 1) old (Function.update out stop v) := by
  constructor
  · intro k hk
    by_cases hstop : k = stop
    · rw [hstop, Function.update_self]
      exact hv
    · rw [Function.update_of_ne hstop]
      exact h.window k (by omega)
  · intro k hk
    rw [Function.update_of_ne (by omega)]
    exact h.kept k (by omega)

/-- A running maximum that starts below everything is the maximum of the interval it has run over. -/
theorem isMaxOver_foldl (a : Nat → V) (lo : Nat) (start : V) :
    ∀ (len : Nat), (∀ i, lo ≤ i → i ≤ lo + len → start ≤ a i) →
      IsMaxOver a lo (lo + len)
        ((List.range' lo (len + 1)).foldl (fun m j => if m < a j then a j else m) start)
  | 0, hs => by
    have h0 := hs lo (Nat.le_refl _) (Nat.le_refl _)
    have : (if start < a lo then a lo else start) = a lo := by
      split
      · rfl
      · exact le_antisymm h0 (not_lt.1 ‹_›)
    simpa [List.range', this] using IsMaxOver.single a lo
  | len + 1, hs => by
    have ih := isMaxOver_foldl a lo start len fun i h1 h2 => hs i h1 (by omega)
    rw [List.range'_concat, List.foldl_append]
    simp only [List.foldl_cons, List.foldl_nil, Nat.one_mul]
    generalize (List.range' lo (len + 1)).foldl _ start = m at ih ⊢
    have hmax : (if m < a (lo + (len + 1)) then a (lo + (len + 1)) else m) = max m (a (lo + (len + 1))) := by
      split
      · exact (max_eq_right (le_of_lt ‹_›)).symm
      · exact (max_eq_left (not_lt.1 ‹_›)).symm
    rw [hmax]
    exact ih.extend_right (by omega)

end WindowMax
