import Mathlib.Logic.Function.Basic
/-!
# Workers over a shared state

Every worker has a phase of its own, all of them share one state, and a step is atomic: one worker moves. A
schedule lists who moves and what he does, so a statement about every schedule is one about every interleaving.
`run_keeps`: what every step keeps, every run keeps. `run_keeps_of` is the same for the runs in which every step
is taken in a state that meets a condition.
-/

/-- The steps: on what is shared and on the phase of the worker; `none` if the step cannot be taken. -/
structure Workers (W A S P : Type) where
  step : W → A → S → P → Option (S × P)

namespace Workers

structure State (W S P : Type) where
  shared : S
  phase : W → P

variable {W A S P : Type} [DecidableEq W]

def next (sys : Workers W A S P) (s : State W S P) (x : W × A) : Option (State W S P) :=
  (sys.step x.1 x.2 s.shared (s.phase x.1)).map fun r => ⟨r.1, Function.update s.phase x.1 r.2⟩

/-- `none` if some step of the schedule cannot be taken. -/
def run (sys : Workers W A S P) : State W S P → List (W × A) → Option (State W S P)
  | s, [] => some s
  | s, x :: xs => (sys.next s x).bind fun s => run sys s xs

/-- Every step is taken in a state that meets the condition. -/
def Meets (sys : Workers W A S P) (C : State W S P → W × A → Prop) : State W S P → List (W × A) → Prop
  | _, [] => True
  | s, x :: xs => C s x ∧ ∀ s', sys.next s x = some s' → Meets sys C s' xs

variable {sys : Workers W A S P} {s s' : State W S P} {w : W} {a : A}

/-- What a step changes. -/
theorem next_cases (h : sys.next s (w, a) = some s') :
    ∃ shared phase, sys.step w a s.shared (s.phase w) = some (shared, phase) ∧
      s' = ⟨shared, Function.update s.phase w phase⟩ := by
  rw [next, Option.map_eq_some_iff] at h
  obtain ⟨r, hr, rfl⟩ := h
  exact ⟨r.1, r.2, hr, rfl⟩

theorem meets_cons {C : State W S P → W × A → Prop} {x : W × A} {xs : List (W × A)} (hn : sys.next s x = some s') (hc : C s x)
    (hm : sys.Meets C s' xs) : sys.Meets C s (x :: xs) := by
  refine ⟨hc, fun t ht => ?_⟩
  rw [hn] at ht
  cases ht
  exact hm

/-- A condition on the steps alone. -/
theorem meets_of_mem {C : W × A → Prop} {xs : List (W × A)} (h : ∀ x ∈ xs, C x) (s : State W S P) :
    sys.Meets (fun _ => C) s xs := by
  induction xs generalizing s with
  | nil => trivial
  | cons x xs ih => exact ⟨h x (by simp), fun s' _ => ih (fun y hy => h y (by simp [hy])) s'⟩

theorem run_append (xs ys : List (W × A)) : sys.run s (xs ++ ys) = (sys.run s xs).bind fun s' => sys.run s' ys := by
  induction xs generalizing s with
  | nil => rfl
  | cons x xs ih =>
    rw [List.cons_append, run, run]
    cases sys.next s x with
    | none => rfl
    | some s' => exact ih

/-- An invariant of the steps that meet the condition. -/
theorem run_keeps_of {I : State W S P → Prop} {C : State W S P → W × A → Prop}
    (hstep : ∀ s x s', I s → C s x → sys.next s x = some s' → I s') {xs : List (W × A)} {s s' : State W S P} (hs : I s)
    (hm : sys.Meets C s xs) (h : sys.run s xs = some s') : I s' := by
  induction xs generalizing s with
  | nil =>
    cases h
    exact hs
  | cons x xs ih =>
    rw [run, Option.bind_eq_some_iff] at h
    obtain ⟨t, ht, h⟩ := h
    exact ih (hstep s x t hs hm.1 ht) (hm.2 t ht) h

theorem meets_of_forall {C : State W S P → W × A → Prop} (h : ∀ s x, C s x) (xs : List (W × A)) (s : State W S P) :
    sys.Meets C s xs := by
  induction xs generalizing s with
  | nil => trivial
  | cons x xs ih => exact ⟨h s x, fun s' _ => ih s'⟩

/-- **What every step keeps, every run keeps.** -/
theorem run_keeps {I : State W S P → Prop} (hstep : ∀ s x s', I s → sys.next s x = some s' → I s') {xs : List (W × A)}
    {s s' : State W S P} (hs : I s) (h : sys.run s xs = some s') : I s' :=
  run_keeps_of (fun s x s' hi _ hn => hstep s x s' hi hn) hs (meets_of_forall (fun _ _ => trivial) xs s) h

end Workers
