import Mathlib.Data.List.Basic
/-!
# Binary search when any of several hits may be returned

`BSearch` is what the C library promises of `bsearch`. The array has to be partitioned by the comparison with
the key (`Partitioned`); then a hit is an index inside the array whose element compares equal to the key, which
one of several is not said, and a miss means that no element does. `BSearch.halving` is the usual loop.
-/

namespace Searching

variable {α : Type} {c : α → Int} {xs : List α}

/-- `c a` is the key compared with `a`: the elements the key is above come first, then those it equals, then
those it is below. -/
def Partitioned (c : α → Int) (xs : List α) : Prop :=
  xs.Pairwise fun a b => (c a < 0 → c b < 0) ∧ (c a ≤ 0 → c b ≤ 0)

/-- A search function for an array and the comparison with the key. -/
structure BSearch (α : Type) where
  search : (α → Int) → List α → Option Nat
  hit : ∀ {c xs m}, Partitioned c xs → search c xs = some m → ∃ a, xs[m]? = some a ∧ c a = 0
  miss : ∀ {c xs}, Partitioned c xs → search c xs = none → ∀ a ∈ xs, c a ≠ 0

/-- `while (lo < hi)`, with the middle of the interval as the probe. -/
def halve (c : α → Int) (xs : List α) : (fuel lo hi : Nat) → Option Nat
  | 0, _, _ => none
  | fuel + 1, lo, hi =>
    if lo < hi then
      match xs[(lo + hi) / 2]? with
      | none => none
      | some a =>
        if c a < 0 then halve c xs fuel lo ((lo + hi) / 2)
        else if 0 < c a then halve c xs fuel ((lo + hi) / 2 + 1) hi
        else some ((lo + hi) / 2)
    else none

theorem halve_hit : ∀ {fuel lo hi m : Nat}, halve c xs fuel lo hi = some m → ∃ a, xs[m]? = some a ∧ c a = 0
  | 0, _, _, _, h => by simp [halve] at h
  | fuel + 1, lo, hi, m, h => by
    simp only [halve] at h
    split at h
    · split at h
      · cases h
      · rename_i a ha
        split at h
        · exact halve_hit h
        split at h
        · exact halve_hit h
        · cases h
          exact ⟨a, ha, by omega⟩
    · cases h

/-- Nothing outside `[lo, hi)` compares equal. -/
def Outside (c : α → Int) (xs : List α) (lo hi : Nat) : Prop :=
  ∀ j a, xs[j]? = some a → (j < lo → 0 < c a) ∧ (hi ≤ j → c a < 0)

theorem Partitioned.get (hp : Partitioned c xs) {i j : Nat} {a b : α} (hij : i < j) (ha : xs[i]? = some a)
    (hb : xs[j]? = some b) : (c a < 0 → c b < 0) ∧ (c a ≤ 0 → c b ≤ 0) := by
  obtain ⟨hi, rfl⟩ := List.getElem?_eq_some_iff.1 ha
  obtain ⟨hj, rfl⟩ := List.getElem?_eq_some_iff.1 hb
  exact List.pairwise_iff_getElem.1 hp i j hi hj hij

theorem halve_miss (hp : Partitioned c xs) : ∀ {fuel lo hi : Nat}, hi ≤ lo + fuel → hi ≤ xs.length →
    Outside c xs lo hi → halve c xs fuel lo hi = none → ∀ a ∈ xs, c a ≠ 0
  | 0, lo, hi, hf, _, ho, _, a, ha => by
    obtain ⟨j, hj⟩ := List.mem_iff_getElem?.1 ha
    have := ho j a hj
    rcases Nat.lt_or_ge j lo with h | h <;> omega
  | fuel + 1, lo, hi, hf, hl, ho, h, a, ha => by
    simp only [halve] at h
    split at h
    · rename_i hlt
      have hm : (lo + hi) / 2 < xs.length := by omega
      rw [List.getElem?_eq_getElem hm] at h
      have hx := List.getElem?_eq_getElem hm
      simp only at h
      split at h
      · -- the key is below the middle, so also below all that follows
        rename_i hneg
        refine halve_miss hp (by omega) (by omega) (fun j b hb => ⟨(ho j b hb).1, fun hj => ?_⟩) h a ha
        rcases Nat.eq_or_lt_of_le hj with rfl | hj
        · rw [hx] at hb; cases hb; exact hneg
        · exact (hp.get hj hx hb).1 hneg
      split at h
      · rename_i hpos
        refine halve_miss hp (by omega) hl (fun j b hb => ⟨fun hj => ?_, (ho j b hb).2⟩) h a ha
        rcases Nat.eq_or_lt_of_le (Nat.le_of_lt_succ hj) with rfl | hj
        · rw [hx] at hb; cases hb; exact hpos
        · by_contra hle
          have := (hp.get hj hb hx).2 (by omega)
          omega
      · cases h
    · obtain ⟨j, hj⟩ := List.mem_iff_getElem?.1 ha
      have := ho j a hj
      rcases Nat.lt_or_ge j lo with h' | h' <;> omega

/-- The search by halving, one of them. -/
def BSearch.halving (α : Type) : BSearch α where
  search c xs := halve c xs xs.length 0 xs.length
  hit _ h := halve_hit h
  miss hp h := halve_miss hp (by omega) (Nat.le_refl _)
    (fun _ _ hj => ⟨by omega, fun hle => by rw [List.getElem?_eq_none hle] at hj; cases hj⟩) h

end Searching
