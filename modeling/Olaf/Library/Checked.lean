import Mathlib.Algebra.Group.Int.Defs
import Mathlib.Algebra.Group.Nat.Defs
import Mathlib.Data.List.Forall2
import Mathlib.Order.Basic
/-!
# Runs that end at the first bad access

A run is an `Option`: it ends in a fault (`none`) when an array is accessed outside its bounds, an assertion fails or a
loop uses up its fuel. `Returns x post` is total correctness: `x` ends without a fault, and its result satisfies `post`. The
rules follow the statements of a program: `bind` for two in a row, `load` and `store` for an access, `forUp` and
`forDown` for a loop that counts, with an invariant, a fold for one over the elements of an input, and `whileLoop` for any
other, with a measure as well.

A `size_t` is a number below `2^64`; `sizeT` is the conversion to it, which is where an index that is counted down past zero
goes.
-/

namespace Checked

variable {α β σ V : Type}

def sizeT (x : Int) : Nat := (x % 2 ^ 64).toNat

theorem sizeT_eq {x : Int} {n : Nat} (h : x = n) (hn : n < 2 ^ 64) : sizeT x = n := by
  unfold sizeT
  omega

/-- `x` ends without a fault and its result satisfies `post`. -/
def Returns (x : Option α) (post : α → Prop) : Prop := ∃ a, x = some a ∧ post a

theorem Returns.pure {post : α → Prop} {a : α} (h : post a) : Returns (some a) post := ⟨a, rfl, h⟩

theorem Returns.mono {x : Option α} {post post' : α → Prop} (h : Returns x post) (himp : ∀ a, post a → post' a) :
    Returns x post' := by
  obtain ⟨a, hx, ha⟩ := h
  exact ⟨a, hx, himp a ha⟩

theorem Returns.bind {x : Option α} {f : α → Option β} {mid : α → Prop} {post : β → Prop} (h : Returns x mid)
    (hf : ∀ a, mid a → Returns (f a) post) : Returns (x >>= f) post := by
  obtain ⟨a, rfl, ha⟩ := h
  exact hf a ha

/-! ## Arrays -/

/-- An array in memory. -/
structure Buffer (V : Type) where
  size : Nat
  cell : Nat → V

namespace Buffer

def load (b : Buffer V) (i : Nat) : Option V := if i < b.size then some (b.cell i) else none

def set (b : Buffer V) (i : Nat) (v : V) : Buffer V := { b with cell := Function.update b.cell i v }

def store (b : Buffer V) (i : Nat) (v : V) : Option (Buffer V) := if i < b.size then some (b.set i v) else none

variable {b : Buffer V} {i k : Nat} {v : V}

@[simp] theorem set_size : (b.set i v).size = b.size := rfl

@[simp] theorem set_cell_self : (b.set i v).cell i = v := Function.update_self ..

theorem set_cell_ne (h : k ≠ i) : (b.set i v).cell k = b.cell k := Function.update_of_ne h ..

/-- A loop that goes down has set the cells above `i` and sets that one. -/
theorem set_down {n : Nat} {new old : Nat → V} (hcell : ∀ k, k < n → b.cell k = if i + 1 ≤ k then new k else old k) :
    ∀ k, k < n → (b.set i (new i)).cell k = if i ≤ k then new k else old k := by
  intro k hk
  by_cases hki : k = i
  · rw [hki, set_cell_self, if_pos (Nat.le_refl i)]
  · rw [set_cell_ne hki, hcell k hk]
    by_cases hle : i ≤ k
    · rw [if_pos (by omega), if_pos hle]
    · rw [if_neg (by omega), if_neg hle]

theorem store_returns {post : Buffer V → Prop} (h : i < b.size) (hp : post (b.set i v)) : Returns (b.store i v) post :=
  ⟨b.set i v, if_pos h, hp⟩

theorem bind_load {f : V → Option β} {post : β → Prop} (h : i < b.size) (hf : Returns (f (b.cell i)) post) :
    Returns (b.load i >>= f) post := by
  rw [load, if_pos h]
  exact hf

theorem bind_store {f : Buffer V → Option β} {post : β → Prop} (h : i < b.size) (hf : Returns (f (b.set i v)) post) :
    Returns (b.store i v >>= f) post := by
  rw [store, if_pos h]
  exact hf

end Buffer

/-- An array of elements of four bytes; no object has `2^63`. -/
structure Floats (V : Type) extends Buffer V where
  fits : size < 2 ^ 61

/-! ## Loops -/

/-- `for (i = lo; i < hi; i++)`. -/
def forUp (lo hi : Nat) (body : Nat → σ → Option σ) (s : σ) : Option σ :=
  (List.range' lo (hi - lo)).foldlM (fun s i => body i s) s

theorem forUp_returns (Inv : Nat → σ → Prop) {lo hi : Nat} {body : Nat → σ → Option σ} {s : σ} (hle : lo ≤ hi)
    (hbody : ∀ i s, lo ≤ i → i < hi → Inv i s → Returns (body i s) (Inv (i + 1))) (h : Inv lo s) :
    Returns (forUp lo hi body s) (Inv hi) := by
  have hloop : ∀ len lo' s, lo ≤ lo' → lo' + len = hi → Inv lo' s →
      Returns ((List.range' lo' len).foldlM (fun s i => body i s) s) (Inv hi) := by
    intro len
    induction len with
    | zero =>
      intro lo' s _ hlen hinv
      obtain rfl : lo' = hi := by omega
      exact Returns.pure hinv
    | succ len ih =>
      intro lo' s hlo hlen hinv
      rw [List.range'_succ, List.foldlM_cons]
      exact (hbody lo' s hlo (by omega) hinv).bind fun s' hs' => ih (lo' + 1) s' (by omega) (by omega) hs'
  exact hloop (hi - lo) lo s (Nat.le_refl lo) (by omega) h

theorem forUp_empty {lo hi : Nat} (body : Nat → σ → Option σ) (s : σ) (h : hi ≤ lo) : forUp lo hi body s = some s := by
  rw [forUp, Nat.sub_eq_zero_of_le h]
  rfl

/-- A fold, given what it has done so far. -/
theorem foldlM_returns (Inv : List α → σ → Prop) {f : σ → α → Option σ}
    (hf : ∀ done a s, Inv done s → Returns (f s a) (Inv (done ++ [a]))) (l : List α) {done : List α} {s : σ} (h : Inv done s) :
    Returns (l.foldlM f s) (Inv (done ++ l)) := by
  induction l generalizing done s with
  | nil =>
    rw [List.append_nil]
    exact Returns.pure h
  | cons a l ih =>
    rw [List.foldlM_cons]
    refine (hf done a s h).bind fun s' h' => ?_
    have hrest := ih h'
    rw [List.append_assoc, List.singleton_append] at hrest
    exact hrest

/-- One result for each element. -/
theorem mapM_returns {f : α → Option β} {post : α → β → Prop} {l : List α} (hf : ∀ a ∈ l, Returns (f a) (post a)) :
    Returns (l.mapM f) (List.Forall₂ post l) := by
  induction l with
  | nil => exact Returns.pure List.Forall₂.nil
  | cons a l ih =>
    rw [List.mapM_cons]
    refine (hf a List.mem_cons_self).bind fun b hb => ?_
    refine (ih fun a ha => hf a (List.mem_cons_of_mem _ ha)).bind fun bs hbs => ?_
    exact Returns.pure (List.Forall₂.cons hb hbs)

/-- What every step keeps when it does not fault. -/
theorem foldlM_keeps (Inv : σ → Prop) {f : σ → α → Option σ} (hf : ∀ {s a s'}, Inv s → f s a = some s' → Inv s') {l : List α}
    {s s' : σ} (h : Inv s) (hrun : l.foldlM f s = some s') : Inv s' := by
  induction l generalizing s with
  | nil =>
    obtain rfl := Option.some.inj hrun
    exact h
  | cons a l ih =>
    rw [List.foldlM_cons] at hrun
    obtain ⟨mid, hstep, hrest⟩ := Option.bind_eq_some_iff.1 hrun
    exact ih (hf h hstep) hrest

/-- `while (cond(s)) s = body(s)`. -/
def whileLoop (cond : σ → Bool) (body : σ → Option σ) : (fuel : Nat) → σ → Option σ
  | 0, _ => none
  | fuel + 1, s => if cond s then body s >>= whileLoop cond body fuel else some s

/-- What every turn keeps holds at the end, and a measure that every turn lowers brings it there. -/
theorem whileLoop_returns (Inv : σ → Prop) (measure : σ → Nat) {cond : σ → Bool} {body : σ → Option σ}
    (hbody : ∀ s, Inv s → cond s = true → Returns (body s) fun s' => Inv s' ∧ measure s' < measure s) {fuel : Nat} {s : σ}
    (hfuel : measure s < fuel) (h : Inv s) :
    Returns (whileLoop cond body fuel s) fun s' => Inv s' ∧ cond s' = false := by
  induction fuel generalizing s with
  | zero => omega
  | succ fuel ih =>
    unfold whileLoop
    by_cases hc : cond s = true
    · rw [if_pos hc]
      refine (hbody s h hc).bind fun s' hs' => ?_
      obtain ⟨hinv, hless⟩ := hs'
      exact ih (by omega) hinv
    · rw [if_neg hc]
      exact Returns.pure ⟨h, eq_false_of_ne_true hc⟩

/-- More fuel changes nothing. -/
theorem whileLoop_mono {cond : σ → Bool} {body : σ → Option σ} {fuel fuel' : Nat} (hle : fuel ≤ fuel') {s s' : σ}
    (h : whileLoop cond body fuel s = some s') : whileLoop cond body fuel' s = some s' := by
  induction fuel generalizing s fuel' with
  | zero => cases h
  | succ fuel ih =>
    obtain ⟨fuel', rfl⟩ := Nat.exists_eq_add_one_of_ne_zero (show fuel' ≠ 0 by omega)
    rw [whileLoop] at h ⊢
    by_cases hc : cond s = true
    · rw [if_pos hc] at h ⊢
      obtain ⟨mid, hbody, hrest⟩ := Option.bind_eq_some_iff.1 h
      exact Option.bind_eq_some_iff.2 ⟨mid, hbody, ih (by omega) hrest⟩
    · rw [if_neg hc] at h ⊢
      exact h

/-- What every turn keeps when it does not fault. -/
theorem whileLoop_keeps (Inv : σ → Prop) {cond : σ → Bool} {body : σ → Option σ}
    (hbody : ∀ {s s'}, Inv s → cond s = true → body s = some s' → Inv s') {fuel : Nat} {s s' : σ} (h : Inv s)
    (hrun : whileLoop cond body fuel s = some s') : Inv s' := by
  induction fuel generalizing s with
  | zero => cases hrun
  | succ fuel ih =>
    rw [whileLoop] at hrun
    by_cases hc : cond s = true
    · rw [if_pos hc] at hrun
      obtain ⟨mid, hmid, hrest⟩ := Option.bind_eq_some_iff.1 hrun
      exact ih (hbody h hc hmid) hrest
    · rw [if_neg hc] at hrun
      obtain rfl := Option.some.inj hrun
      exact h

/-- A loop whose condition always holds never ends. -/
theorem whileLoop_forever {cond : σ → Bool} (body : σ → Option σ) (hc : ∀ s, cond s = true) (fuel : Nat) (s : σ) :
    whileLoop cond body fuel s = none := by
  induction fuel generalizing s with
  | zero => rfl
  | succ fuel ih =>
    rw [whileLoop, if_pos (hc s)]
    cases body s with
    | none => rfl
    | some s' => exact ih s'

/-- `for (size_t i = start; i >= stop; i--)`. -/
def forDown (start stop : Nat) (body : Nat → σ → Option σ) (fuel : Nat) (s : σ) : Option σ := do
  let r ← whileLoop (fun r : Nat × σ => r.1 ≥ stop) (fun r => do
      let s ← body r.1 r.2
      return (sizeT (r.1 - 1), s))
    fuel (start, s)
  return r.2

/-- `Inv c` is about the indices from `c` on. -/
theorem forDown_returns (Inv : Nat → σ → Prop) {start stop fuel : Nat} {body : Nat → σ → Option σ} {s : σ}
    (hstop : 1 ≤ stop) (hle : stop ≤ start + 1) (hstart : start < 2 ^ 64) (hfuel : start < fuel)
    (hbody : ∀ i s, stop ≤ i → i ≤ start → Inv (i + 1) s → Returns (body i s) (Inv i)) (h : Inv (start + 1) s) :
    Returns (forDown start stop body fuel s) (Inv stop) := by
  refine Returns.bind (whileLoop_returns (fun r => r.1 ≤ start ∧ stop ≤ r.1 + 1 ∧ Inv (r.1 + 1) r.2) (fun r => r.1) ?_ hfuel
    ⟨Nat.le_refl _, hle, h⟩) ?_
  · rintro ⟨i, s⟩ ⟨hi, _, hinv⟩ hcond
    rw [decide_eq_true_eq] at hcond
    dsimp only at *
    apply (hbody i s hcond hi hinv).bind
    intro s' hs'
    have hnext : sizeT ((i : Int) - 1) = i - 1 := sizeT_eq (by omega) (by omega)
    refine Returns.pure ?_
    dsimp only
    rw [hnext, show i - 1 + 1 = i by omega]
    exact ⟨⟨by omega, hcond, hs'⟩, by omega⟩
  · rintro ⟨i, s⟩ ⟨⟨_, hi, hinv⟩, hcond⟩
    rw [decide_eq_false_iff_not] at hcond
    dsimp only at *
    rw [show i + 1 = stop by omega] at hinv
    exact Returns.pure hinv

/-- No `size_t` is below zero. -/
theorem forDown_forever (start : Nat) (body : Nat → σ → Option σ) (fuel : Nat) (s : σ) :
    forDown start 0 body fuel s = none := by
  rw [forDown, whileLoop_forever _ (fun r => decide_eq_true (Nat.zero_le _))]
  rfl

end Checked
