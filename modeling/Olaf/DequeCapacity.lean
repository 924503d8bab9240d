import Olaf.Deque
import Olaf.Queue
/-!
# How long a deque can be used (`olaf_deque.c`)

| here | there |
| --- | --- |
| `LinkedDeque` | `struct Olaf_Deque` (`:26`) with the queue of `queue.c`; the data of an entry is a pointer into `values`, as its index |
| `Op`, `run`   | the calls of `olaf_deque_push_back`, `olaf_deque_pop_back` and `olaf_deque_pop_front` |
| `contents`    | the sequence that they make |

`Refines`: with its links in memory the deque does what `Deque` does with a list. `value_index` is the slot of the next value
and moves on with every push, and no pop gives a slot back; so it is the pushes that are limited by `max_size`, and not the
elements that are held, and the last slot is never of use, since the assertion fails on the push that takes it
(`works_iff`).
-/

namespace Olaf
open Checked

/-- The deque with its queue in memory. -/
structure LinkedDeque where
  maxSize : Nat
  values : Buffer Nat
  valueIndex : Nat
  queue : Queue

namespace LinkedDeque

def new (maxSize : Nat) : LinkedDeque := ⟨maxSize, ⟨maxSize, fun _ => 0⟩, 0, Queue.new⟩

/-- The assertion fails on the push that takes the last slot. -/
def pushBack (malloc : Queue.Malloc) (d : LinkedDeque) (value : Nat) : Option LinkedDeque := do
  let values ← d.values.store d.valueIndex value
  let queue ← d.queue.pushTail malloc d.valueIndex
  let d := { d with values := values, queue := queue, valueIndex := d.valueIndex + 1 }
  if d.valueIndex = d.maxSize then none else return d

def back (d : LinkedDeque) : Option Nat := do
  let value ← (← d.queue.peekTail)
  d.values.load value

def front (d : LinkedDeque) : Option Nat := do
  let value ← (← d.queue.peekHead)
  d.values.load value

def empty (d : LinkedDeque) : Bool := d.queue.isEmpty

def popBack (d : LinkedDeque) : Option LinkedDeque := do
  let (queue, _) ← d.queue.popTail
  return { d with queue := queue }

def popFront (d : LinkedDeque) : Option LinkedDeque := do
  let (queue, _) ← d.queue.popHead
  return { d with queue := queue }

/-- A call that changes the deque. -/
inductive Op
  | pushBack (value : Nat)
  | popBack
  | popFront

def step (malloc : Queue.Malloc) (d : LinkedDeque) : Op → Option LinkedDeque
  | .pushBack value => d.pushBack malloc value
  | .popBack => d.popBack
  | .popFront => d.popFront

/-- Some calls in a row; `none` when one of them does not return. -/
def run (malloc : Queue.Malloc) (ops : List Op) (d : LinkedDeque) : Option LinkedDeque := ops.foldlM (step malloc) d

def Op.apply (items : List Nat) : Op → List Nat
  | .pushBack value => items ++ [value]
  | .popBack => items.dropLast
  | .popFront => items.tail

/-- The elements that the calls leave. -/
def contents (ops : List Op) : List Nat := ops.foldl Op.apply []

def Op.isPush : Op → Bool
  | .pushBack _ => true
  | _ => false

def pushes (ops : List Op) : Nat := ops.countP Op.isPush

/-- No more than `maxSize` elements at any moment. -/
def Fits (maxSize : Nat) (ops : List Op) : Prop := ∀ k, (contents (ops.take k)).length ≤ maxSize

/-- The deque answers as the sequence does; the ends of an empty one are not asked for. -/
structure Answers (d : LinkedDeque) (items : List Nat) : Prop where
  empty : d.empty = items.isEmpty
  front : ∀ x ∈ items.head?, d.front = some x
  back : ∀ x ∈ items.getLast?, d.back = some x

/-- It does so from the start to the end. -/
def Works (malloc : Queue.Malloc) (maxSize : Nat) (ops : List Op) : Prop :=
  ∀ k, Returns (run malloc (ops.take k) (new maxSize)) fun d => Answers d (contents (ops.take k))

/-! ## The links in memory -/

/-- The data of the entries is the queue of the other deque. -/
structure Refines (d : LinkedDeque) (d' : Deque) : Prop where
  maxSize : d.maxSize = d'.maxSize
  values : d.values = d'.values
  valueIndex : d.valueIndex = d'.valueIndex
  queue : ∃ ns, d.queue.Linked ns ∧ ns.map Prod.snd = d'.queue

variable {malloc : Queue.Malloc} {d : LinkedDeque} {d' : Deque}

theorem refines_new (maxSize : Nat) : Refines (new maxSize) (Deque.new maxSize) := ⟨rfl, rfl, rfl, [], Queue.linked_new, rfl⟩

variable (malloc) in
/-- Both push the value, or neither. -/
theorem Refines.pushBack (h : Refines d d') (value : Nat) :
    Option.Rel Refines (d.pushBack malloc value) (d'.pushBack value) := by
  obtain ⟨ns, hlinked, hns⟩ := h.queue
  rw [LinkedDeque.pushBack, Deque.pushBack, h.values, h.valueIndex]
  cases d'.values.store d'.valueIndex value with
  | none => exact .none
  | some values =>
    obtain ⟨queue, hqueue, a, hlinked'⟩ := Queue.pushTail_returns hlinked malloc d'.valueIndex
    dsimp only [Option.bind_eq_bind, Option.bind_some]
    rw [hqueue]
    dsimp only [Option.bind_some]
    rw [h.maxSize]
    split
    · exact .none
    · refine .some ⟨rfl, rfl, rfl, _, hlinked', ?_⟩
      rw [List.map_append, hns]
      rfl

theorem Refines.popBack (h : Refines d d') : Returns d.popBack fun e => Refines e d'.popBack := by
  obtain ⟨ns, hlinked, hns⟩ := h.queue
  refine (Queue.popTail_returns hlinked).bind fun r hr => ?_
  refine Returns.pure ⟨h.maxSize, h.values, h.valueIndex, _, hr.1, ?_⟩
  rw [List.map_dropLast, hns]
  rfl

theorem Refines.popFront (h : Refines d d') : Returns d.popFront fun e => Refines e d'.popFront := by
  obtain ⟨ns, hlinked, hns⟩ := h.queue
  refine (Queue.popHead_returns hlinked).bind fun r hr => ?_
  refine Returns.pure ⟨h.maxSize, h.values, h.valueIndex, _, hr.1, ?_⟩
  rw [List.map_tail, hns]
  rfl

theorem Refines.empty (h : Refines d d') : d.empty = d'.empty := by
  obtain ⟨ns, hlinked, hns⟩ := h.queue
  rw [LinkedDeque.empty, hlinked.isEmpty, Deque.empty, ← hns, List.isEmpty_map]

theorem Refines.front (h : Refines d d') : d.front = d'.front := by
  obtain ⟨ns, hlinked, hns⟩ := h.queue
  rw [LinkedDeque.front, hlinked.peekHead, Deque.front, ← hns, List.head?_map, h.values]
  rfl

theorem Refines.back (h : Refines d d') : d.back = d'.back := by
  obtain ⟨ns, hlinked, hns⟩ := h.queue
  rw [LinkedDeque.back, hlinked.peekTail, Deque.back, ← hns, List.getLast?_map, h.values]
  rfl

/-! ## Runs -/

/-- After `ops`, while there is room for one more push. -/
structure After (maxSize : Nat) (ops : List Op) (d : LinkedDeque) : Prop where
  deque : ∃ d', Refines d d' ∧ d'.Holds (contents ops) ∧ d'.valueIndex = pushes ops ∧ d'.maxSize = maxSize

theorem contents_concat (ops : List Op) (op : Op) : contents (ops ++ [op]) = op.apply (contents ops) := by
  rw [contents, List.foldl_append]
  rfl

theorem pushes_concat (ops : List Op) (op : Op) : pushes (ops ++ [op]) = pushes ops + if op.isPush then 1 else 0 := by
  rw [pushes, List.countP_append, List.countP_singleton, pushes]

/-- A call for which there is room. -/
theorem After.step {maxSize : Nat} {ops : List Op} (h : After maxSize ops d) {op : Op} (hroom : pushes (ops ++ [op]) < maxSize) :
    Returns (step malloc d op) (After maxSize (ops ++ [op])) := by
  obtain ⟨d', hrefines, hholds, hindex, hmax⟩ := h.deque
  cases op with
  | pushBack value =>
    rw [pushes_concat, Op.isPush, if_pos rfl] at hroom
    obtain ⟨e', he', hholds', hindex', hmax'⟩ := hholds.pushBack (by omega) value
    have hrel := hrefines.pushBack malloc value
    rw [he'] at hrel
    cases hpush : d.pushBack malloc value with
    | none =>
      rw [hpush] at hrel
      cases hrel
    | some e =>
      rw [hpush] at hrel
      cases hrel with
      | some hrel =>
        refine ⟨e, hpush, e', hrel, ?_, ?_, hmax'.trans hmax⟩
        · rw [contents_concat]
          exact hholds'
        · rw [pushes_concat, hindex', hindex]
          rfl
  | popBack =>
    refine hrefines.popBack.mono fun e he => ⟨_, he, ?_, ?_, hmax⟩
    · rw [contents_concat]
      exact hholds.popBack
    · rw [pushes_concat]
      exact hindex
  | popFront =>
    refine hrefines.popFront.mono fun e he => ⟨_, he, ?_, ?_, hmax⟩
    · rw [contents_concat]
      exact hholds.popFront
    · rw [pushes_concat]
      exact hindex

/-- The push that takes the last slot. -/
theorem After.full {maxSize : Nat} {ops : List Op} (h : After maxSize ops d) {value : Nat} (hfull : pushes ops + 1 = maxSize) :
    d.pushBack malloc value = none := by
  obtain ⟨d', hrefines, hholds, hindex, hmax⟩ := h.deque
  obtain ⟨ns, hlinked, _⟩ := hrefines.queue
  have hsize := hholds.size
  rw [LinkedDeque.pushBack, hrefines.values, hrefines.valueIndex, Buffer.store, if_pos (by omega), Option.bind_eq_bind,
    Option.bind_some]
  obtain ⟨queue, hqueue, _⟩ := Queue.pushTail_returns hlinked malloc d'.valueIndex
  rw [hqueue, Option.bind_eq_bind, Option.bind_some]
  dsimp only
  rw [hrefines.maxSize, hindex, hmax, if_pos hfull]

theorem run_concat (ops : List Op) (op : Op) (d : LinkedDeque) :
    run malloc (ops ++ [op]) d = run malloc ops d >>= fun e => step malloc e op := by
  rw [run, List.foldlM_append]
  congr 1
  funext e
  rw [List.foldlM_cons]
  exact bind_pure _

/-- **While there is room every call returns.** -/
theorem run_returns (malloc : Queue.Malloc) {maxSize : Nat} (ops : List Op) (hroom : pushes ops < maxSize) :
    Returns (run malloc ops (new maxSize)) (After maxSize ops) := by
  induction ops using List.reverseRecOn with
  | nil => exact Returns.pure ⟨_, refines_new maxSize, Deque.holds_new maxSize, rfl, rfl⟩
  | append_singleton ops op ih =>
    have hless := pushes_concat ops op
    rw [run_concat]
    exact (ih (by omega)).bind fun e he => he.step hroom

/-- Once a push has taken the last slot nothing returns. -/
theorem run_full (malloc : Queue.Malloc) {maxSize : Nat} (hmax : 1 ≤ maxSize) (ops : List Op) (hfull : maxSize ≤ pushes ops) :
    run malloc ops (new maxSize) = none := by
  induction ops using List.reverseRecOn with
  | nil =>
    have hnone : pushes [] = 0 := rfl
    omega
  | append_singleton ops op ih =>
    rw [run_concat]
    by_cases hbefore : maxSize ≤ pushes ops
    · rw [ih hbefore]
      rfl
    · obtain ⟨d, hd, hafter⟩ := run_returns malloc ops (Nat.lt_of_not_le hbefore)
      rw [hd, Option.bind_eq_bind, Option.bind_some]
      rw [pushes_concat] at hfull
      cases op with
      | pushBack value =>
        rw [Op.isPush, if_pos rfl] at hfull
        exact hafter.full (by omega)
      | popBack =>
        rw [if_neg (by decide)] at hfull
        omega
      | popFront =>
        rw [if_neg (by decide)] at hfull
        omega

theorem After.answers {maxSize : Nat} {ops : List Op} (h : After maxSize ops d) : Answers d (contents ops) := by
  obtain ⟨d', hrefines, hholds, _⟩ := h.deque
  refine ⟨?_, fun x hx => ?_, fun x hx => ?_⟩
  · rw [hrefines.empty, hholds.empty]
  · rw [hrefines.front, hholds.front]
    exact hx
  · rw [hrefines.back, hholds.back]
    exact hx

/-- A deque that works was not full. -/
theorem works_pushes {maxSize : Nat} (hmax : 1 ≤ maxSize) {ops : List Op} (h : Works malloc maxSize ops) :
    pushes ops < maxSize := by
  by_contra hfull
  obtain ⟨d, hd, _⟩ := h ops.length
  rw [List.take_length, run_full malloc hmax ops (by omega)] at hd
  cases hd

/-- **The deque works for a sequence of operations iff fewer than `max_size` of them are pushes.** -/
theorem works_iff (malloc : Queue.Malloc) {maxSize : Nat} (hmax : 1 ≤ maxSize) (ops : List Op) :
    Works malloc maxSize ops ↔ pushes ops < maxSize := by
  refine ⟨works_pushes hmax, fun hroom k => ?_⟩
  have hless : pushes (ops.take k) ≤ pushes ops := (List.take_sublist k ops).countP_le
  exact (run_returns malloc (ops.take k) (Nat.lt_of_le_of_lt hless hroom)).mono fun d hd => hd.answers

/-- Behind the highest address in use. -/
def bump : Queue.Malloc where
  pick used := used.foldr max 0 + 1
  fresh used := by
    have hle : ∀ a ∈ used, a ≤ used.foldr max 0 := by
      intro a ha
      induction used with
      | nil => cases ha
      | cons b used ih =>
        rw [List.foldr_cons]
        rcases List.mem_cons.1 ha with rfl | ha
        · exact Nat.le_max_left _ _
        · exact Nat.le_trans (ih ha) (Nat.le_max_right _ _)
    intro hmem
    have := hle _ hmem
    omega

theorem works_iff_two : 1 ≤ 3 ∧ (Works bump 3 [.pushBack 5, .popBack, .pushBack 6] ↔
    pushes [.pushBack 5, .popBack, .pushBack 6] < 3) :=
  ⟨by decide, works_iff bump (by decide) _⟩

/-- Three pushes to a deque of three, with never more than one element in it. -/
theorem threePushes_fail : ¬ ∀ (malloc : Queue.Malloc) (maxSize : Nat) (ops : List Op), 1 ≤ maxSize → Fits maxSize ops →
    Works malloc maxSize ops := by
  intro h
  have hworks := h bump 3 [.pushBack 5, .popBack, .pushBack 6, .popFront, .pushBack 7] (by decide) ?_
  · exact absurd (works_pushes (by decide) hworks) (by decide)
  · intro k
    match k with
    | 0 | 1 | 2 | 3 | 4 => decide
    | k + 5 =>
      rw [List.take_of_length_le (by simp)]
      decide

end LinkedDeque

end Olaf
