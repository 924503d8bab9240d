import Mathlib.Order.Basic
/-!
# A buffer that is emptied above a threshold

Entries come in batches. A batch goes into the buffer whole, and only then is the buffer emptied if it holds more than the
threshold. So what a batch finds free depends on the batches before it, and the least that it may find is what lies behind
the threshold: `fits_iff`.
-/

namespace Flushing

variable (capacity threshold : Nat)

/-- How full the buffer is after a batch. -/
def after (index len : Nat) : Nat := if index + len > threshold then 0 else index + len

/-- Every batch finds room. -/
def Fits : (index : Nat) → (lens : List Nat) → Prop
  | _, [] => True
  | index, len :: lens => index + len ≤ capacity ∧ Fits (after threshold index len) lens

variable {capacity threshold} {index : Nat}

theorem after_le (len : Nat) : after threshold index len ≤ threshold := by
  unfold after
  split <;> omega

theorem fits_of_le {limit : Nat} (hroom : threshold + limit ≤ capacity) {lens : List Nat} (hlens : ∀ len ∈ lens, len ≤ limit)
    (h : index ≤ threshold) : Fits capacity threshold index lens := by
  induction lens generalizing index with
  | nil => trivial
  | cons len lens ih =>
    have hlen := hlens len List.mem_cons_self
    exact ⟨by omega, ih (fun len' h' => hlens len' (List.mem_cons_of_mem len h')) (after_le len)⟩

/-- Batches of one that fill the buffer just up to the threshold, and one more batch. -/
theorem fits_singles (len : Nat) {k : Nat} (hk : index + k ≤ threshold)
    (h : Fits capacity threshold index (List.replicate k 1 ++ [len])) : index + k + len ≤ capacity := by
  induction k generalizing index with
  | zero => exact h.1
  | succ k ih =>
    obtain ⟨_, hrest⟩ := h
    rw [show after threshold index 1 = index + 1 from if_neg (by omega)] at hrest
    have := ih (by omega) hrest
    omega

/-- **The largest batches that always find room** are those that fit behind the threshold. -/
theorem fits_iff (hle : threshold ≤ capacity) (limit : Nat) :
    (∀ lens : List Nat, (∀ len ∈ lens, len ≤ limit) → Fits capacity threshold 0 lens) ↔ threshold + limit ≤ capacity := by
  refine ⟨fun h => ?_, fun hroom lens hlens => fits_of_le hroom hlens (Nat.zero_le _)⟩
  by_cases hlimit : limit = 0
  · omega
  · have hfits := h (List.replicate threshold 1 ++ [limit]) fun len hlen => by
      rcases List.mem_append.1 hlen with hlen | hlen
      · rw [List.eq_of_mem_replicate hlen]; omega
      · exact Nat.le_of_eq (List.mem_singleton.1 hlen)
    have := fits_singles limit (by omega) hfits
    omega

end Flushing
