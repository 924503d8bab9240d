import Olaf.Library.Checked
/-!
# The double-ended queue (`olaf_deque.c`)

| here | there |
| --- | --- |
| `Deque` | `struct Olaf_Deque` (`:26`); `queue` is the data pointers of the entries of the linked queue from head to tail, as indices into `values` |
| `new`, `pushBack`, `back`, `front`, `empty`, `popBack`, `popFront` | the functions of these names (`:33-80`) |

A value that is pushed takes the next slot of `values` and keeps it; popping only unlinks its entry, and does nothing when
there is none. The back and the front of an empty queue are read through a null pointer. `Holds` says which values the
queue stands for.
-/

namespace Olaf
open Checked

/-- A slot of `values` belongs to the value that was pushed into it. -/
structure Deque where
  maxSize : Nat
  values : Buffer Nat
  valueIndex : Nat
  queue : List Nat

namespace Deque

def new (maxSize : Nat) : Deque := ⟨maxSize, ⟨maxSize, fun _ => 0⟩, 0, []⟩

/-- The value goes into the next slot. -/
def pushBack (d : Deque) (value : Nat) : Option Deque := do
  let values ← d.values.store d.valueIndex value
  let d := { d with values := values, queue := d.queue ++ [d.valueIndex], valueIndex := d.valueIndex + 1 }
  -- `assert(false)`: growing the array is not implemented
  if d.valueIndex = d.maxSize then none else return d

/-- `none` for an empty deque. -/
def back (d : Deque) : Option Nat := d.queue.getLast? >>= d.values.load

def front (d : Deque) : Option Nat := d.queue.head? >>= d.values.load

def empty (d : Deque) : Bool := d.queue.isEmpty

/-- The slot stays. -/
def popBack (d : Deque) : Deque := { d with queue := d.queue.dropLast }

def popFront (d : Deque) : Deque := { d with queue := d.queue.tail }

/-- The queue stands for `items`. -/
structure Holds (d : Deque) (items : List Nat) : Prop where
  size : d.values.size = d.maxSize
  slots : ∀ p ∈ d.queue, p < d.valueIndex
  index : d.valueIndex ≤ d.maxSize
  items : d.queue.map d.values.cell = items

variable {d : Deque} {items : List Nat}

theorem holds_new (maxSize : Nat) : Holds (new maxSize) [] := ⟨rfl, by simp [new], Nat.zero_le _, rfl⟩

/-- A push for which there is room. -/
theorem Holds.pushBack (h : Holds d items) (hroom : d.valueIndex + 1 < d.maxSize) (value : Nat) :
    Returns (d.pushBack value) fun d' =>
      Holds d' (items ++ [value]) ∧ d'.valueIndex = d.valueIndex + 1 ∧ d'.maxSize = d.maxSize := by
  have hsize := h.size
  apply Buffer.bind_store (by omega)
  rw [if_neg (by dsimp only; omega)]
  refine Returns.pure ⟨⟨h.size, fun p hp => ?_, by dsimp only; omega, ?_⟩, rfl, rfl⟩
  · rcases List.mem_append.1 hp with hp | hp
    · exact Nat.lt_succ_of_lt (h.slots p hp)
    · rw [List.mem_singleton.1 hp]
      exact Nat.lt_succ_self _
  · -- the slots in use are not the one that is written
    have hold : d.queue.map (d.values.set d.valueIndex value).cell = d.queue.map d.values.cell :=
      List.map_congr_left fun p hp => Buffer.set_cell_ne (Nat.ne_of_lt (h.slots p hp))
    simp [hold, h.items]

/-- What an entry points at has been written. -/
theorem Holds.load (h : Holds d items) (p : Nat) (hp : p ∈ d.queue) : d.values.load p = some (d.values.cell p) := by
  have := h.slots p hp
  have := h.index
  have := h.size
  exact if_pos (by omega)

theorem Holds.back (h : Holds d items) : d.back = items.getLast? := by
  rw [← h.items, List.getLast?_map, Deque.back]
  cases hlast : d.queue.getLast? with
  | none => rfl
  | some p => exact h.load p (List.mem_of_getLast? hlast)

theorem Holds.front (h : Holds d items) : d.front = items.head? := by
  rw [← h.items, List.head?_map, Deque.front]
  cases hhead : d.queue.head? with
  | none => rfl
  | some p => exact h.load p (List.mem_of_head? hhead)

theorem Holds.empty (h : Holds d items) : d.empty = items.isEmpty := by
  rw [← h.items, List.isEmpty_map, Deque.empty]

/-- Taking from an end leaves the rest. -/
theorem Holds.popBack (h : Holds d items) : Holds d.popBack items.dropLast := by
  refine ⟨h.size, fun p hp => h.slots p (List.dropLast_subset _ hp), h.index, ?_⟩
  rw [← h.items]
  exact List.map_dropLast

theorem Holds.popFront (h : Holds d items) : Holds d.popFront items.tail := by
  refine ⟨h.size, fun p hp => h.slots p (List.mem_of_mem_tail hp), h.index, ?_⟩
  rw [← h.items]
  exact List.map_tail

end Deque

end Olaf
