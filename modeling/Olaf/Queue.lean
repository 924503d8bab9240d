import Mathlib.Data.List.Induction
import Olaf.Library.Checked
import Olaf.Library.Segments
/-!
# The queue of entries that are linked both ways (`queue.c`)

| here | there |
| --- | --- |
| `Entry`, `Queue` | `struct _QueueEntry` (`:38`) and `struct _Queue` (`:47`), with the entries that are allocated |
| `Malloc`         | `malloc`, for the size of an entry: an address that is not in use, maybe one that was |
| `pushTail`, `popHead`, `popTail` | `queue_push_tail` (`:168`), `queue_pop_head` (`:122`) and `queue_pop_tail` (`:209`) |
| `peekHead`, `peekTail`, `isEmpty` | `queue_peek_head` (`:159`), `queue_peek_tail` (`:247`) and `queue_is_empty` (`:256`) |

`Linked` says which entries are in a queue, from the head over the links to the next one and from the tail over those to the
one before. Read backwards a queue is one too (`flip`), and taking from the tail is taking from the head of that.
-/

namespace Olaf
open Checked Segments

namespace Queue

/-- An entry has the addresses of the two next to it. -/
structure Entry where
  data : Nat
  prev : Option Nat
  next : Option Nat

/-- It always finds memory. -/
structure Malloc where
  pick : List Nat → Nat
  fresh : ∀ used, pick used ∉ used

end Queue

structure Queue where
  head : Option Nat
  tail : Option Nat
  entryAt : Nat → Option Queue.Entry
  allocated : List Nat

namespace Queue

/-- `queue_new`, in memory without entries. -/
def new : Queue := ⟨none, none, fun _ => none, []⟩

def isEmpty (q : Queue) : Bool := q.head.isNone

/-- The new entry goes behind the last one. -/
def pushTail (malloc : Malloc) (q : Queue) (data : Nat) : Option Queue := do
  let newEntry := malloc.pick q.allocated
  let q := { q with
    entryAt := Function.update q.entryAt newEntry (some ⟨data, q.tail, none⟩)
    allocated := newEntry :: q.allocated }
  match q.tail with
  | none => return { q with head := some newEntry, tail := some newEntry }
  | some tail => do
    let e ← q.entryAt tail
    return { q with entryAt := Function.update q.entryAt tail (some { e with next := some newEntry }), tail := some newEntry }

/-- Freeing what is not allocated is not defined. -/
def free (q : Queue) (entry : Nat) : Option Queue := do
  let _ ← q.entryAt entry
  return { q with entryAt := Function.update q.entryAt entry none, allocated := q.allocated.erase entry }

/-- The first entry has none before it; without one there is no last. -/
def endHead (q : Queue) : Option Queue :=
  match q.head with
  | none => some { q with tail := none }
  | some head => (q.entryAt head).map fun h => { q with entryAt := Function.update q.entryAt head (some { h with prev := none }) }

/-- The last entry has none behind it; without one there is no first. -/
def endTail (q : Queue) : Option Queue :=
  match q.tail with
  | none => some { q with head := none }
  | some tail => (q.entryAt tail).map fun t => { q with entryAt := Function.update q.entryAt tail (some { t with next := none }) }

/-- Without an entry the result is null. -/
def popHead (q : Queue) : Option (Queue × Option Nat) :=
  match q.head with
  | none => some (q, none)
  | some entry => do
    let e ← q.entryAt entry
    let q ← { q with head := e.next }.endHead
    let q ← q.free entry
    return (q, some e.data)

/-- As `popHead` at the other end. -/
def popTail (q : Queue) : Option (Queue × Option Nat) :=
  match q.head with
  | none => some (q, none)
  | some _ => do
    let entry ← q.tail
    let e ← q.entryAt entry
    let q ← { q with tail := e.prev }.endTail
    let q ← q.free entry
    return (q, some e.data)

/-- `none` for an access through a null pointer. -/
def peekHead (q : Queue) : Option (Option Nat) :=
  match q.head with
  | none => some none
  | some head => (q.entryAt head).map fun e => some e.data

def peekTail (q : Queue) : Option (Option Nat) :=
  match q.head with
  | none => some none
  | some _ => do
    let e ← q.entryAt (← q.tail)
    return some e.data

/-- The queue has the entries `ns`, each with its address and its data. -/
structure Linked (q : Queue) (ns : List (Nat × Nat)) : Prop where
  forward : Segment q.entryAt Entry.next q.head (ns.map Prod.fst) none
  backward : Segment q.entryAt Entry.prev q.tail (ns.map Prod.fst).reverse none
  nodup : (ns.map Prod.fst).Nodup
  data : ∀ n ∈ ns, (q.entryAt n.1).map Entry.data = some n.2
  allocated : ∀ a, q.entryAt a ≠ none → a ∈ q.allocated

variable {q : Queue} {ns : List (Nat × Nat)}

/-- A new queue has no entries. -/
theorem linked_new : Linked new [] := ⟨rfl, rfl, List.nodup_nil, nofun, fun _ h => absurd rfl h⟩

theorem Linked.head (h : Linked q ns) : q.head = ns.head?.map Prod.fst := by
  rw [h.forward.head, List.head?_map]

theorem Linked.tail (h : Linked q ns) : q.tail = ns.getLast?.map Prod.fst := by
  rw [h.backward.head, List.head?_reverse, List.getLast?_map]

theorem Linked.isEmpty (h : Linked q ns) : q.isEmpty = ns.isEmpty := by
  rw [Queue.isEmpty, h.head]
  cases ns <;> rfl

theorem Linked.peekHead (h : Linked q ns) : q.peekHead = some (ns.head?.map Prod.snd) := by
  rw [Queue.peekHead, h.head]
  cases ns with
  | nil => rfl
  | cons n ns =>
    obtain ⟨e, he, hdata⟩ := Option.map_eq_some_iff.1 (h.data n List.mem_cons_self)
    dsimp only [List.head?_cons, Option.map_some]
    rw [he, Option.map_some, hdata]

theorem Linked.peekTail (h : Linked q ns) : q.peekTail = some (ns.getLast?.map Prod.snd) := by
  rw [Queue.peekTail, h.head, h.tail]
  rcases List.eq_nil_or_concat ns with rfl | ⟨ns, n, rfl⟩
  · rfl
  · rw [List.concat_eq_append] at h ⊢
    obtain ⟨e, he, hdata⟩ := Option.map_eq_some_iff.1 (h.data n (by simp))
    rw [List.getLast?_concat]
    cases ns with
    | nil =>
      dsimp only [List.nil_append, List.head?_cons, Option.map_some, Option.bind_eq_bind, Option.bind_some]
      rw [he, Option.bind_some, hdata]
      rfl
    | cons m ns =>
      dsimp only [List.cons_append, List.head?_cons, Option.map_some, Option.bind_eq_bind, Option.bind_some]
      rw [he, Option.bind_some, hdata]
      rfl

/-! ## Adding and taking an entry -/

/-- A new entry is none of those in the queue. -/
theorem Linked.fresh (h : Linked q ns) (malloc : Malloc) :
    q.entryAt (malloc.pick q.allocated) = none ∧ ∀ n ∈ ns, n.1 ≠ malloc.pick q.allocated := by
  have hnone : q.entryAt (malloc.pick q.allocated) = none := by
    by_contra hsome
    exact malloc.fresh _ (h.allocated _ hsome)
  refine ⟨hnone, fun n hn heq => ?_⟩
  have hdata := h.data n hn
  rw [heq, hnone] at hdata
  cases hdata

theorem new_allocated {memory : Nat → Option Entry} {used : List Nat} (h : ∀ b, memory b ≠ none → b ∈ used) (a : Nat)
    (e : Entry) (b : Nat) (hb : Function.update memory a (some e) b ≠ none) : b ∈ a :: used := by
  by_cases hab : b = a
  · exact hab ▸ List.mem_cons_self
  · rw [Function.update_of_ne hab] at hb
    exact List.mem_cons_of_mem _ (h b hb)

theorem set_allocated {memory : Nat → Option Entry} {used : List Nat} (h : ∀ b, memory b ≠ none → b ∈ used) {a : Nat}
    {e : Entry} (ha : memory a = some e) (e' : Entry) (b : Nat) (hb : Function.update memory a (some e') b ≠ none) :
    b ∈ used := by
  by_cases hab : b = a
  · exact hab ▸ h a (by rw [ha]; nofun)
  · rw [Function.update_of_ne hab] at hb
    exact h b hb

/-- A field that an entry keeps is kept everywhere. -/
theorem map_set {β : Type} {memory : Nat → Option Entry} {a : Nat} {e e' : Entry} (ha : memory a = some e) (f : Entry → β)
    (hf : f e' = f e) (b : Nat) : (Function.update memory a (some e') b).map f = (memory b).map f := by
  by_cases hab : b = a
  · rw [hab, Function.update_self, ha, Option.map_some, Option.map_some, hf]
  · rw [Function.update_of_ne hab]

/-- **A value that is pushed is the last one.** -/
theorem pushTail_returns (h : Linked q ns) (malloc : Malloc) (data : Nat) :
    Returns (pushTail malloc q data) fun q' => ∃ a, Linked q' (ns ++ [(a, data)]) := by
  obtain ⟨hfree, hother⟩ := h.fresh malloc
  rw [pushTail, h.tail]
  generalize malloc.pick q.allocated = a at hfree hother
  rcases List.eq_nil_or_concat ns with rfl | ⟨ns, l, rfl⟩
  · refine Returns.pure ⟨a, ⟨rfl, _, Function.update_self .., rfl⟩, ⟨rfl, _, Function.update_self .., rfl⟩,
      List.nodup_singleton a, fun n hn => ?_, new_allocated h.allocated a _⟩
    rw [List.mem_singleton.1 hn]
    dsimp only
    rw [Function.update_self]
    rfl
  · rw [List.concat_eq_append] at h hother ⊢
    obtain ⟨e, he, hdata⟩ := Option.map_eq_some_iff.1 (h.data l (by simp))
    have hla : l.1 ≠ a := hother l (by simp)
    have hnodup := h.nodup
    rw [List.map_append, List.map_singleton, List.nodup_append] at hnodup
    have hne : a ∉ ns.map Prod.fst ++ [l.1] := by
      intro hmem
      rw [← List.map_singleton, ← List.map_append] at hmem
      obtain ⟨n, hn, heq⟩ := List.mem_map.1 hmem
      exact hother n hn heq
    rw [List.getLast?_concat, Option.map_some]
    dsimp only
    have hlast : Function.update q.entryAt a (some ⟨data, some l.1, none⟩) l.1 = some e := by
      rw [Function.update_of_ne hla, he]
    rw [hlast, Option.bind_eq_bind, Option.bind_some]
    -- the new entry, and the one before it with a new link
    have hnew : Function.update (Function.update q.entryAt a (some ⟨data, some l.1, none⟩)) l.1
        (some ⟨e.data, e.prev, some a⟩) a = some ⟨data, some l.1, none⟩ := by
      rw [Function.update_of_ne (Ne.symm hla), Function.update_self]
    have hkeep : ∀ {β : Type} (f : Entry → β), f ⟨e.data, e.prev, some a⟩ = f e → ∀ b ≠ a,
        (Function.update (Function.update q.entryAt a (some ⟨data, some l.1, none⟩)) l.1
          (some ⟨e.data, e.prev, some a⟩) b).map f = (q.entryAt b).map f := by
      intro β f hf b hb
      rw [map_set hlast f hf, Function.update_of_ne hb]
    refine Returns.pure ⟨a, ?_, ?_, ?_, ?_, set_allocated (new_allocated h.allocated a _) hlast _⟩
    · have hforward := h.forward
      rw [List.map_append, List.map_singleton] at hforward
      rw [List.map_append, List.map_append, List.map_singleton, List.map_singleton, segment_append]
      refine ⟨_, (hforward.update hne _).relink (fun hmem => ?_) rfl, rfl, _, hnew, rfl⟩
      exact hnodup.2.2 _ hmem _ List.mem_cons_self rfl
    · have hbackward := h.backward
      rw [h.tail, List.getLast?_concat] at hbackward
      rw [List.map_append, List.map_singleton, List.reverse_append, List.reverse_singleton, List.singleton_append]
      refine ⟨rfl, _, hnew, hbackward.congr fun b hb => hkeep Entry.prev rfl b ?_⟩
      rintro rfl
      rw [List.mem_reverse, List.map_append] at hb
      exact hne hb
    · rw [List.map_append, List.map_singleton, List.nodup_append, List.map_append]
      refine ⟨?_, List.nodup_singleton a, fun b hb c hc heq => ?_⟩
      · rw [← List.map_append]
        exact h.nodup
      · rw [heq, List.mem_singleton.1 hc] at hb
        exact hne hb
    · intro n hn
      rcases List.mem_append.1 hn with hn | hn
      · exact (hkeep Entry.data rfl n.1 (hother n hn)).trans (h.data n hn)
      · rw [List.mem_singleton.1 hn]
        dsimp only
        rw [hnew]
        rfl

theorem Linked.cons_entry {n : Nat × Nat} (h : Linked q (n :: ns)) :
    ∃ prev, q.entryAt n.1 = some ⟨n.2, prev, ns.head?.map Prod.fst⟩ := by
  obtain ⟨_, e, he, hrest⟩ := h.forward
  have hdata := h.data n List.mem_cons_self
  rw [he, Option.map_some] at hdata
  refine ⟨e.prev, ?_⟩
  rw [he, ← Option.some.inj hdata, ← List.head?_map, ← hrest.head]

theorem free_allocated {memory : Nat → Option Entry} {used : List Nat} (h : ∀ b, memory b ≠ none → b ∈ used) (a b : Nat)
    (hb : Function.update memory a none b ≠ none) : b ∈ used.erase a := by
  by_cases hab : b = a
  · rw [hab, Function.update_self] at hb
    exact absurd rfl hb
  · rw [Function.update_of_ne hab] at hb
    exact (List.mem_erase_of_ne hab).2 (h b hb)

/-- **The first value is taken off**, if there is one. -/
theorem popHead_returns (h : Linked q ns) :
    Returns q.popHead fun r => Linked r.1 ns.tail ∧ r.2 = ns.head?.map Prod.snd := by
  rw [popHead, h.head]
  cases ns with
  | nil => exact Returns.pure ⟨h, rfl⟩
  | cons n ns =>
    obtain ⟨prev, hn⟩ := h.cons_entry
    have hnodup := List.nodup_cons.1 h.nodup
    obtain ⟨_, e, he, hforward⟩ := h.forward
    obtain rfl := Option.some.inj (hn.symm.trans he)
    have hbackward := h.backward
    have hdata : ∀ m ∈ ns, (q.entryAt m.1).map Entry.data = some m.2 := fun m hm => h.data m (List.mem_cons_of_mem _ hm)
    dsimp only [List.head?_cons, Option.map_some]
    rw [hn]
    dsimp only [Option.bind_eq_bind, Option.bind_some]
    cases ns with
    | nil =>
      dsimp only [endHead, List.head?_nil, Option.map_none, Option.bind_some, free, Option.bind_eq_bind]
      rw [hn]
      refine Returns.pure ⟨⟨rfl, rfl, List.nodup_nil, nofun, ?_⟩, rfl⟩
      exact free_allocated h.allocated _
    | cons m ns =>
      obtain ⟨_, e, hm, hforward'⟩ := hforward
      have hmn : n.1 ≠ m.1 := by
        intro heq
        refine hnodup.1 ?_
        rw [heq]
        exact List.mem_cons_self
      have hm : q.entryAt m.1 = some e := hm
      dsimp only [endHead, List.head?_cons, Option.map_some]
      rw [hm]
      dsimp only [Option.map_some, Option.bind_some, free, Option.bind_eq_bind]
      rw [Function.update_of_ne hmn, hn]
      dsimp only [Option.bind_some]
      have hkeep : ∀ {β : Type} (f : Entry → β), f ⟨e.data, none, e.next⟩ = f e → ∀ b ≠ n.1,
          (Function.update (Function.update q.entryAt m.1 (some ⟨e.data, none, e.next⟩)) n.1 none b).map f =
            (q.entryAt b).map f := by
        intro β f hf b hb
        rw [Function.update_of_ne hb, map_set hm f hf]
      have hne : ∀ b ∈ (m :: ns).map Prod.fst, b ≠ n.1 := by
        rintro b hb rfl
        exact hnodup.1 hb
      refine Returns.pure ⟨⟨?_, ?_, hnodup.2, fun k hk => ?_, free_allocated (set_allocated h.allocated hm _) _⟩, rfl⟩
      · exact Segment.congr (show Segment _ _ _ ((m :: ns).map Prod.fst) _ from ⟨rfl, e, hm, hforward'⟩) fun b hb =>
          hkeep Entry.next rfl b (hne b hb)
      · -- nothing is before the second entry now
        rw [List.map_cons, List.map_cons, List.reverse_cons, List.reverse_cons, segment_append] at hbackward
        obtain ⟨_, hrest, rfl, _⟩ := hbackward
        have hrelink := hrest.relink (fun hmem => ?_) (show Entry.prev ⟨e.data, none, e.next⟩ = none from rfl)
        · rw [List.tail_cons, List.map_cons, List.reverse_cons]
          refine hrelink.update (fun hmem => ?_) _
          rw [← List.reverse_cons, List.mem_reverse] at hmem
          exact hnodup.1 hmem
        · exact (List.nodup_cons.1 hnodup.2).1 (List.mem_reverse.1 hmem)
      · exact (hkeep Entry.data rfl k.1 (hne _ (List.mem_map_of_mem hk))).trans (hdata k hk)

/-! ## A queue read backwards -/

def Entry.flip (e : Entry) : Entry := ⟨e.data, e.next, e.prev⟩

/-- The queue read backwards. -/
def flip (q : Queue) : Queue := ⟨q.tail, q.head, fun a => (q.entryAt a).map Entry.flip, q.allocated⟩

/-- It has the entries in the other order. -/
theorem linked_flip (h : Linked q ns) : Linked q.flip ns.reverse where
  forward := by
    rw [List.map_reverse]
    refine h.backward.congr fun a _ => ?_
    rw [flip, Option.map_map]
    rfl
  backward := by
    rw [List.map_reverse, List.reverse_reverse]
    refine h.forward.congr fun a _ => ?_
    rw [flip, Option.map_map]
    rfl
  nodup := by
    rw [List.map_reverse, List.nodup_reverse]
    exact h.nodup
  data n hn := by
    have hdata := h.data n (List.mem_reverse.1 hn)
    rw [← hdata, flip, Option.map_map]
    rfl
  allocated a ha := h.allocated a fun hnone => ha (Option.map_eq_none_iff.2 hnone)

theorem flip_flip (q : Queue) : q.flip.flip = q := by
  have hentry : ∀ a, ((q.entryAt a).map Entry.flip).map Entry.flip = q.entryAt a := by
    intro a
    rw [Option.map_map]
    exact Option.map_id_apply
  cases q
  simp only [flip, mk.injEq, true_and, and_true]
  exact funext hentry

theorem flip_update (memory : Nat → Option Entry) (a : Nat) (e : Option Entry) :
    (fun b => (Function.update memory a e b).map Entry.flip) =
      Function.update (fun b => (memory b).map Entry.flip) a (e.map Entry.flip) := by
  funext b
  by_cases hb : b = a
  · rw [hb, Function.update_self, Function.update_self]
  · rw [Function.update_of_ne hb, Function.update_of_ne hb]

theorem endTail_flip (q : Queue) : q.endTail = q.flip.endHead.map flip := by
  rw [endTail, endHead]
  cases htail : q.tail with
  | none =>
    dsimp only [flip]
    rw [htail]
    exact congrArg some (flip_flip _).symm
  | some tail =>
    dsimp only [flip]
    rw [htail]
    dsimp only
    cases hentry : q.entryAt tail with
    | none => rfl
    | some t =>
      refine congrArg some ((flip_flip _).symm.trans (congrArg flip ?_))
      rw [flip, mk.injEq]
      exact ⟨rfl, rfl, flip_update _ _ _, rfl⟩

theorem free_flip (q : Queue) (a : Nat) : q.free a = (q.flip.free a).map flip := by
  rw [free, free]
  dsimp only [flip]
  cases hentry : q.entryAt a with
  | none => rfl
  | some e =>
    refine congrArg some ((flip_flip _).symm.trans (congrArg flip ?_))
    rw [flip, mk.injEq]
    exact ⟨rfl, rfl, flip_update _ _ _, rfl⟩

/-- Taking from the tail is taking from the head of the queue read backwards. -/
theorem popTail_flip (h : Linked q ns) : q.popTail = q.flip.popHead.map fun r => (r.1.flip, r.2) := by
  rw [popTail, popHead, h.head]
  cases ns with
  | nil =>
    have htail : q.flip.head = none := h.tail
    rw [htail]
    exact congrArg (fun q => some (q, none)) (flip_flip q).symm
  | cons n ns =>
    have htail := h.tail
    rw [List.getLast?_eq_some_getLast (List.cons_ne_nil n ns), Option.map_some] at htail
    have hhead : q.flip.head = some ((n :: ns).getLast (List.cons_ne_nil n ns)).1 := htail
    rw [htail, hhead]
    generalize ((n :: ns).getLast (List.cons_ne_nil n ns)).1 = entry
    have hentry : q.flip.entryAt entry = (q.entryAt entry).map Entry.flip := rfl
    dsimp only [List.head?_cons, Option.map_some, Option.bind_eq_bind, Option.bind_some]
    rw [hentry]
    cases q.entryAt entry with
    | none => rfl
    | some e =>
      dsimp only [Option.map_some, Option.bind_some]
      rw [endTail_flip]
      have hsame : flip ⟨some n.1, e.prev, q.entryAt, q.allocated⟩ =
          ⟨e.flip.next, q.flip.tail, q.flip.entryAt, q.flip.allocated⟩ := by
        rw [flip, mk.injEq]
        exact ⟨rfl, h.head.symm, rfl, rfl⟩
      rw [hsame]
      cases endHead ⟨e.flip.next, q.flip.tail, q.flip.entryAt, q.flip.allocated⟩ with
      | none => rfl
      | some q' =>
        dsimp only [Option.map_some, Option.bind_some]
        rw [free_flip, flip_flip]
        cases q'.free entry <;> rfl

/-- **The last value is taken off**, if there is one. -/
theorem popTail_returns (h : Linked q ns) :
    Returns q.popTail fun r => Linked r.1 ns.dropLast ∧ r.2 = ns.getLast?.map Prod.snd := by
  rw [popTail_flip h]
  obtain ⟨r, hr, hlinked, hdata⟩ := popHead_returns (linked_flip h)
  rw [hr]
  refine Returns.pure ⟨?_, ?_⟩
  · have hback := linked_flip hlinked
    rw [← List.dropLast_reverse, List.reverse_reverse] at hback
    exact hback
  · rw [hdata, List.head?_reverse]

end Queue

end Olaf
