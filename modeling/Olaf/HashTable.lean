import Olaf.Library.Checked
import Olaf.Library.Segments
/-!
# The chained hash table (`hash-table.c`)

| here | there |
| --- | --- |
| `Pair`, `Entry` | `HashTablePair` and `struct _HashTableEntry` (`:37`); a key is inside a value, and the pointer to it is the one to the value |
| `Table`         | `struct _HashTable` (`:45`): the heads of the chains and the number of entries, with the memory of entries and values |
| `Rover`         | what `rover` points to in `hash_table_remove`: a head, or the link in an entry |
| `remove`, `freeEntry` | `hash_table_remove` (`:383`) and `hash_table_free_entry` (`:101`), with a function for values and none for keys |
| `Iterator`, `iterate`, `iterNext` | `hash_table_iterate` (`:443`) and `hash_table_iter_next` (`:470`) |

What is not allocated, or no longer, is not there, and looking at it is a fault. `Holds` says which chains of nodes a table
stands for; `remove_returns` and `iterNext_returns` are what the two operations do to it.
-/

namespace Olaf.HashTable
open Checked Segments

structure Pair where
  key : Nat
  value : Nat

structure Entry where
  pair : Pair
  next : Option Nat

/-- The entries and values that are allocated, at their addresses. -/
structure Table (V : Type) where
  table : List (Option Nat)
  entries : UInt32
  entryAt : Nat → Option Entry
  valueAt : Nat → Option V

structure Iterator where
  nextEntry : Option Nat
  nextChain : Nat

inductive Rover
  | head (index : Nat)
  | link (entry : Nat)

variable {V K : Type}

namespace Table

/-- `*rover`. -/
def load (t : Table V) : Rover → Option (Option Nat)
  | .head index => t.table[index]?
  | .link entry => (t.entryAt entry).map Entry.next

/-- `*rover = p`. -/
def assign (t : Table V) (rover : Rover) (p : Option Nat) : Option (Table V) :=
  match rover with
  | .head index => if index < t.table.length then some { t with table := t.table.set index p } else none
  | .link entry =>
    (t.entryAt entry).map fun e => { t with entryAt := Function.update t.entryAt entry (some { e with next := p }) }

/-- The value first, then the entry. -/
def freeEntry (t : Table V) (entry : Nat) : Option (Table V) := do
  let e ← t.entryAt entry
  let _ ← t.valueAt e.pair.value
  return { t with
    valueAt := Function.update t.valueAt e.pair.value none
    entryAt := Function.update t.entryAt entry none }

section Keys
variable [DecidableEq K] (keyOf : V → K) (hash : K → Nat)

/-- What a pointer to a key points to. -/
def keyAt (t : Table V) (key : Nat) : Option K := (t.valueAt key).map keyOf

/-- The loop of `hash_table_remove`. -/
def removeLoop (key : Nat) : (fuel : Nat) → Rover → Table V → Option (Table V × Bool)
  | 0, _, _ => none
  | fuel + 1, rover, t => do
    match ← t.load rover with
    | none => return (t, false)
    | some entry =>
      let e ← t.entryAt entry
      if (← t.keyAt keyOf key) = (← t.keyAt keyOf e.pair.key) then
        let t ← t.assign rover e.next
        let t ← t.freeEntry entry
        return ({ t with entries := t.entries - 1 }, true)
      else removeLoop key fuel (.link entry) t

/-- Given a turn for every entry and one more. -/
def remove (t : Table V) (key : Nat) : Option (Table V × Bool) := do
  let index := hash (← t.keyAt keyOf key) % t.table.length
  removeLoop keyOf key (t.entries.toNat + 1) (.head index) t

end Keys

/-- The first chain with an entry, from `chain` on; the size of the table when there is none. -/
def nextChain (t : Table V) : (rem chain : Nat) → Option (Option Nat × Nat)
  | 0, chain => some (none, chain)
  | rem + 1, chain => do
    match ← t.table[chain]? with
    | some entry => return (some entry, chain)
    | none => nextChain t rem (chain + 1)

/-- `memory` is what `next_chain` is before it is set; without an entry it stays that. -/
def iterate (t : Table V) (memory : Nat) : Option Iterator := do
  let (nextEntry, chain) ← t.nextChain t.table.length 0
  return ⟨nextEntry, if nextEntry.isSome then chain else memory⟩

/-- `none` for the pair of two null pointers. -/
def iterNext (t : Table V) (iterator : Iterator) : Option (Iterator × Option Pair) :=
  match iterator.nextEntry with
  | none => some (iterator, none)
  | some currentEntry => do
    let e ← t.entryAt currentEntry
    if e.next ≠ none then return ({ iterator with nextEntry := e.next }, some e.pair)
    else
      let (nextEntry, chain) ← t.nextChain (t.table.length - (iterator.nextChain + 1)) (iterator.nextChain + 1)
      return (⟨nextEntry, chain⟩, some e.pair)

end Table

/-! ## The chains of a table -/

/-- An entry with its address, and the value it has with its own. -/
structure Node (V : Type) where
  entry : Nat
  value : Nat
  item : V

/-- The table stands for `chains`. -/
structure Holds (keyOf : V → K) (hash : K → Nat) (t : Table V) (chains : List (List (Node V))) : Prop where
  size : t.table.length = chains.length
  nonempty : chains ≠ []
  chain : ∀ (i : Nat) (ns : List (Node V)), chains[i]? = some ns →
    ∃ p, t.table[i]? = some p ∧ Segment t.entryAt Entry.next p (ns.map Node.entry) none
  stored : ∀ n ∈ chains.flatten,
    (t.entryAt n.entry).map Entry.pair = some ⟨n.value, n.value⟩ ∧ t.valueAt n.value = some n.item
  entries_nodup : (chains.flatten.map Node.entry).Nodup
  values_nodup : (chains.flatten.map Node.value).Nodup
  keys_nodup : (chains.flatten.map fun n => keyOf n.item).Nodup
  hashed : ∀ (i : Nat) (ns : List (Node V)), chains[i]? = some ns → ∀ n ∈ ns, hash (keyOf n.item) % chains.length = i
  count : t.entries.toNat = chains.flatten.length

variable {keyOf : V → K} {hash : K → Nat} {t : Table V} {chains : List (List (Node V))}

/-- A chain in its place. -/
theorem getElem?_focus (pre : List (List (Node V))) (ns : List (Node V)) (post : List (List (Node V))) :
    (pre ++ ns :: post)[pre.length]? = some ns := by
  simp

/-- A chain in its place, or one of the others. -/
theorem getElem?_others {pre post : List (List (Node V))} {new ns : List (Node V)} {i : Nat}
    (hi : (pre ++ new :: post)[i]? = some ns) (old : List (Node V)) : (i = pre.length ∧ ns = new) ∨
      (i ≠ pre.length ∧ ns ∈ pre ++ post ∧ (pre ++ old :: post)[i]? = some ns) := by
  rcases Nat.lt_trichotomy i pre.length with hlt | rfl | hgt
  · rw [List.getElem?_append_left hlt] at hi
    refine Or.inr ⟨Nat.ne_of_lt hlt, List.mem_append_left _ (List.mem_of_getElem? hi), ?_⟩
    rw [List.getElem?_append_left hlt, hi]
  · rw [getElem?_focus] at hi
    exact Or.inl ⟨rfl, (Option.some.inj hi).symm⟩
  · obtain ⟨k, rfl⟩ := Nat.exists_eq_add_of_lt hgt
    have hk : pre.length + k + 1 - pre.length = k + 1 := by omega
    rw [List.getElem?_append_right (by omega), hk, List.getElem?_cons_succ] at hi
    refine Or.inr ⟨by omega, List.mem_append_right _ (List.mem_of_getElem? hi), ?_⟩
    rw [List.getElem?_append_right (by omega), hk, List.getElem?_cons_succ, hi]

theorem flatten_focus (pre : List (List (Node V))) (front : List (Node V)) (x : Node V) (back : List (Node V))
    (post : List (List (Node V))) : (pre ++ (front ++ x :: back) :: post).flatten =
      (pre.flatten ++ front) ++ x :: (back ++ post.flatten) := by
  simp

theorem flatten_without (pre : List (List (Node V))) (front back : List (Node V)) (post : List (List (Node V))) :
    (pre ++ (front ++ back) :: post).flatten = (pre.flatten ++ front) ++ (back ++ post.flatten) := by
  simp

theorem nodup_focus {α β : Type} {f : α → β} {as bs : List α} {x : α} (h : ((as ++ x :: bs).map f).Nodup) :
    (∀ n ∈ as ++ bs, f n ≠ f x) ∧ ((as ++ bs).map f).Nodup := by
  have hperm : ((as ++ x :: bs).map f).Perm ((x :: (as ++ bs)).map f) := List.perm_middle.map f
  rw [hperm.nodup_iff, List.map_cons, List.nodup_cons, List.mem_map] at h
  exact ⟨fun n hn heq => h.1 ⟨n, hn, heq⟩, h.2⟩

/-- The link of an entry, which is where the rest of its chain starts. -/
theorem Holds.entry_focus {pre post : List (List (Node V))} {front back : List (Node V)} {x : Node V}
    (h : Holds keyOf hash t (pre ++ (front ++ x :: back) :: post)) :
    t.entryAt x.entry = some ⟨⟨x.value, x.value⟩, back.head?.map Node.entry⟩ := by
  obtain ⟨hpair, _⟩ := h.stored x (by rw [flatten_focus]; simp)
  obtain ⟨p, _, hseg⟩ := h.chain _ _ (getElem?_focus pre _ post)
  rw [List.map_append, List.map_cons] at hseg
  obtain ⟨e, he, _, hback⟩ := hseg.split
  rw [he, Option.map_some] at hpair
  rw [he, ← Option.some.inj hpair, ← List.head?_map, ← hback.head]

/-! ## Going on to the next entry -/

/-- Where an iterator goes from chain `chain` on, given the chains from there. -/
def firstEntry : (chain : Nat) → List (List (Node V)) → Option Nat × Nat
  | chain, [] => (none, chain)
  | chain, [] :: post => firstEntry (chain + 1) post
  | chain, (n :: _) :: _ => (some n.entry, chain)

theorem Holds.nextChain (pre post : List (List (Node V))) (h : Holds keyOf hash t (pre ++ post)) :
    t.nextChain post.length pre.length = some (firstEntry pre.length post) := by
  induction post generalizing pre with
  | nil => rfl
  | cons ns post ih =>
    obtain ⟨p, hp, hseg⟩ := h.chain _ _ (getElem?_focus pre ns post)
    rw [List.length_cons, Table.nextChain, hp, hseg.head]
    cases ns with
    | nil =>
      have hnext := ih (pre ++ [[]]) (by rw [List.append_assoc]; exact h)
      rw [List.length_append] at hnext
      exact hnext
    | cons n ns => rfl

theorem iterate_returns (h : Holds keyOf hash t chains) (memory : Nat) : Returns (t.iterate memory) fun iterator =>
    iterator.nextEntry = (firstEntry 0 chains).1 ∧
      (iterator.nextEntry.isSome → iterator.nextChain = (firstEntry 0 chains).2) := by
  have hnext := Holds.nextChain [] chains h
  rw [List.length_nil, ← h.size] at hnext
  rw [Table.iterate, hnext]
  refine Returns.pure ⟨rfl, fun hsome => ?_⟩
  exact if_pos hsome

/-- **The iterator moves on before its entry is given out.** -/
theorem iterNext_returns {pre post : List (List (Node V))} {front back : List (Node V)} {x : Node V}
    (h : Holds keyOf hash t (pre ++ (front ++ x :: back) :: post)) : Returns (t.iterNext ⟨some x.entry, pre.length⟩) fun r =>
      r.1.nextEntry = (firstEntry pre.length (back :: post)).1 ∧ r.1.nextChain = (firstEntry pre.length (back :: post)).2 ∧
      r.2 = some ⟨x.value, x.value⟩ := by
  dsimp only [Table.iterNext]
  rw [h.entry_focus]
  cases back with
  | nil =>
    have hnext := Holds.nextChain (pre ++ [front ++ [x]]) post (by rw [List.append_assoc]; exact h)
    have hrem : t.table.length - (pre.length + 1) = post.length := by
      rw [h.size, List.length_append, List.length_cons]
      omega
    rw [List.length_append, List.length_singleton] at hnext
    dsimp only [Option.bind_eq_bind, Option.bind_some, List.head?_nil, Option.map_none]
    rw [if_neg (by simp), hrem, hnext]
    exact Returns.pure ⟨rfl, rfl, rfl⟩
  | cons y back =>
    dsimp only [Option.bind_eq_bind, Option.bind_some, List.head?_cons, Option.map_some]
    rw [if_pos (by simp)]
    exact Returns.pure ⟨rfl, rfl, rfl⟩

/-! ## Removing an entry -/

section Remove
variable {pre post : List (List (Node V))} {front back : List (Node V)} {x : Node V}

/-- The rover that has passed `front` in chain `index`. -/
def roverAt (index : Nat) (front : List (Node V)) : Rover :=
  match front.getLast? with
  | none => .head index
  | some n => .link n.entry

theorem roverAt_nil (index : Nat) : roverAt (V := V) index [] = .head index := rfl

theorem roverAt_concat (index : Nat) (front : List (Node V)) (n : Node V) : roverAt index (front ++ [n]) = .link n.entry := by
  rw [roverAt, List.getLast?_concat]

theorem Holds.load (h : Holds keyOf hash t (pre ++ (front ++ back) :: post)) :
    t.load (roverAt pre.length front) = some (back.head?.map Node.entry) := by
  rcases List.eq_nil_or_concat front with rfl | ⟨front, n, rfl⟩
  · obtain ⟨p, hp, hseg⟩ := h.chain _ _ (getElem?_focus pre ([] ++ back) post)
    rw [roverAt_nil, Table.load, hp, hseg.head, List.nil_append, List.head?_map]
  · rw [List.concat_eq_append] at h ⊢
    rw [List.append_assoc, List.singleton_append] at h
    rw [roverAt_concat, Table.load, h.entry_focus]
    rfl

/-- What is taken out of the memory and of its chain is taken out of the table. -/
theorem Holds.without (h : Holds keyOf hash t (pre ++ (front ++ x :: back) :: post)) {t' : Table V}
    (hsize : t'.table.length = t.table.length) (hentries : t'.entries = t.entries - 1)
    (hother : ∀ i, i ≠ pre.length → t'.table[i]? = t.table[i]?)
    (hchain : ∃ p, t'.table[pre.length]? = some p ∧ Segment t'.entryAt Entry.next p ((front ++ back).map Node.entry) none)
    (hlinks : ∀ n ∈ pre.flatten ++ post.flatten, (t'.entryAt n.entry).map Entry.next = (t.entryAt n.entry).map Entry.next)
    (hpairs : ∀ n ∈ (pre.flatten ++ front) ++ (back ++ post.flatten),
      (t'.entryAt n.entry).map Entry.pair = (t.entryAt n.entry).map Entry.pair)
    (hvalues : ∀ n ∈ (pre.flatten ++ front) ++ (back ++ post.flatten), t'.valueAt n.value = t.valueAt n.value) :
    Holds keyOf hash t' (pre ++ (front ++ back) :: post) := by
  have hnodes : ∀ n ∈ (pre.flatten ++ front) ++ (back ++ post.flatten), n ∈ (pre ++ (front ++ x :: back) :: post).flatten := by
    intro n hn
    rw [flatten_focus]
    simp only [List.mem_append, List.mem_cons] at hn ⊢
    tauto
  have hentriesNodup := h.entries_nodup
  have hvaluesNodup := h.values_nodup
  have hkeysNodup := h.keys_nodup
  have hcount := h.count
  rw [flatten_focus] at hentriesNodup hvaluesNodup hkeysNodup hcount
  constructor
  · rw [hsize, h.size, List.length_append, List.length_append, List.length_cons, List.length_cons]
  · simp
  · intro i ns hi
    rcases getElem?_others hi (front ++ x :: back) with ⟨rfl, rfl⟩ | ⟨hc, hmem, hold⟩
    · exact hchain
    · -- another chain is where it was
      obtain ⟨p, hp, hseg⟩ := h.chain i ns hold
      refine ⟨p, by rw [hother i hc, hp], hseg.congr fun a ha => ?_⟩
      obtain ⟨n, hn, rfl⟩ := List.mem_map.1 ha
      refine hlinks n ?_
      rw [← List.flatten_append]
      exact List.mem_flatten_of_mem hmem hn
  · intro n hn
    rw [flatten_without] at hn
    obtain ⟨hpair, hvalue⟩ := h.stored n (hnodes n hn)
    exact ⟨(hpairs n hn).trans hpair, (hvalues n hn).trans hvalue⟩
  · rw [flatten_without]
    exact (nodup_focus hentriesNodup).2
  · rw [flatten_without]
    exact (nodup_focus hvaluesNodup).2
  · rw [flatten_without]
    exact (nodup_focus hkeysNodup).2
  · intro i ns hi n hn
    have hlength : (pre ++ (front ++ back) :: post).length = (pre ++ (front ++ x :: back) :: post).length := by
      rw [List.length_append, List.length_append, List.length_cons, List.length_cons]
    rw [hlength]
    rcases getElem?_others hi (front ++ x :: back) with ⟨rfl, rfl⟩ | ⟨_, _, hold⟩
    · refine h.hashed _ _ (getElem?_focus pre _ post) n ?_
      rcases List.mem_append.1 hn with hn | hn
      · exact List.mem_append_left _ hn
      · exact List.mem_append_right _ (List.mem_cons_of_mem _ hn)
    · exact h.hashed i ns hold n hn
  · rw [flatten_without, hentries, UInt32.toNat_sub_of_le _ _ ?_, hcount]
    · simp only [List.length_append, List.length_cons, UInt32.toNat_one]
      omega
    · rw [UInt32.le_iff_toNat_le, hcount]
      simp only [List.length_append, List.length_cons, UInt32.toNat_one]
      omega

/-- Chain `pre.length` goes by `x`, and all else is as it was. -/
structure Bypassed (t : Table V) (pre : List (List (Node V))) (front : List (Node V)) (x : Node V) (back : List (Node V))
    (post : List (List (Node V))) (t' : Table V) : Prop where
  size : t'.table.length = t.table.length
  entries : t'.entries = t.entries
  values : t'.valueAt = t.valueAt
  other : ∀ i, i ≠ pre.length → t'.table[i]? = t.table[i]?
  chain : ∃ p, t'.table[pre.length]? = some p ∧ Segment t'.entryAt Entry.next p ((front ++ back).map Node.entry) none
  links : ∀ n ∈ pre.flatten ++ post.flatten, (t'.entryAt n.entry).map Entry.next = (t.entryAt n.entry).map Entry.next
  pairs : ∀ n ∈ (pre.flatten ++ front) ++ (back ++ post.flatten),
    (t'.entryAt n.entry).map Entry.pair = (t.entryAt n.entry).map Entry.pair
  self : t'.entryAt x.entry = t.entryAt x.entry
  free : ∀ a, t.entryAt a = none → t'.entryAt a = none

/-- The first of a chain is behind the head of the chain, any other one behind a link. -/
theorem Holds.assign (h : Holds keyOf hash t (pre ++ (front ++ x :: back) :: post)) :
    Returns (t.assign (roverAt pre.length front) (back.head?.map Node.entry)) (Bypassed t pre front x back post) := by
  have hlt : pre.length < t.table.length := by
    rw [h.size, List.length_append, List.length_cons]
    omega
  obtain ⟨p, hp, hseg⟩ := h.chain _ _ (getElem?_focus pre _ post)
  rw [List.map_append, List.map_cons] at hseg
  obtain ⟨e, he, hfront, hback⟩ := hseg.split
  obtain rfl := Option.some.inj (h.entry_focus.symm.trans he)
  rcases List.eq_nil_or_concat front with rfl | ⟨front, l, rfl⟩
  · rw [roverAt_nil, Table.assign, if_pos hlt]
    exact Returns.pure ⟨List.length_set, rfl, rfl, fun i hi => List.getElem?_set_ne (Ne.symm hi),
      ⟨_, List.getElem?_set_self hlt, hback⟩, fun _ _ => rfl, fun _ _ => rfl, rfl, fun _ ha => ha⟩
  · rw [List.concat_eq_append] at h hfront ⊢
    have h' := h
    rw [List.append_assoc, List.singleton_append] at h'
    have hnodup := h'.entries_nodup
    rw [flatten_focus] at hnodup
    have hne := (nodup_focus hnodup).1
    have hl := h'.entry_focus
    rw [roverAt_concat, Table.assign, hl]
    refine Returns.pure ⟨rfl, rfl, rfl, fun _ _ => rfl, ⟨p, hp, ?_⟩, fun n hn => ?_, fun n _ => ?_, ?_,
      fun a ha => ?_⟩
    · rw [List.map_append, List.map_append, List.map_singleton, segment_append]
      rw [List.map_append, List.map_singleton] at hfront
      refine ⟨_, hfront.relink ?_ rfl, hback.update ?_ _⟩
      · intro hmem
        obtain ⟨n, hn, heq⟩ := List.mem_map.1 hmem
        exact hne n (by simp [hn]) heq
      · intro hmem
        obtain ⟨n, hn, heq⟩ := List.mem_map.1 hmem
        exact hne n (by simp [hn]) heq
    · have hother : n.entry ≠ l.entry := by
        refine hne n ?_
        simp only [List.mem_append, List.mem_cons] at hn ⊢
        tauto
      dsimp only
      rw [Function.update_of_ne hother]
    · dsimp only
      by_cases heq : n.entry = l.entry
      · rw [heq, Function.update_self, hl]
        rfl
      · rw [Function.update_of_ne heq]
    · exact Function.update_of_ne (hne x (by simp)) _ _
    · dsimp only
      rw [Function.update_of_ne, ha]
      rintro rfl
      rw [hl] at ha
      cases ha

/-- The step of `hash_table_remove` at the entry that it looks for. -/
def unlink (t : Table V) (rover : Rover) (e : Entry) (entry : Nat) : Option (Table V × Bool) := do
  let t ← t.assign rover e.next
  let t ← t.freeEntry entry
  return ({ t with entries := t.entries - 1 }, true)

/-- The entry is gone from the table, it is no longer allocated, and nothing else is allocated that was not. -/
structure Removed (keyOf : V → K) (hash : K → Nat) (t : Table V) (chains : List (List (Node V))) (x : Node V)
    (r : Table V × Bool) : Prop where
  found : r.2 = true
  holds : Holds keyOf hash r.1 chains
  value : r.1.valueAt x.value = none
  entry : r.1.entryAt x.entry = none
  freeValue : ∀ a, t.valueAt a = none → r.1.valueAt a = none
  freeEntry : ∀ a, t.entryAt a = none → r.1.entryAt a = none

theorem Holds.unlink (h : Holds keyOf hash t (pre ++ (front ++ x :: back) :: post)) :
    Returns (unlink t (roverAt pre.length front) ⟨⟨x.value, x.value⟩, back.head?.map Node.entry⟩ x.entry)
      (Removed keyOf hash t (pre ++ (front ++ back) :: post) x) := by
  have hentriesNodup := h.entries_nodup
  have hvaluesNodup := h.values_nodup
  rw [flatten_focus] at hentriesNodup hvaluesNodup
  have hne := (nodup_focus hentriesNodup).1
  have hnv := (nodup_focus hvaluesNodup).1
  have hvalue : t.valueAt x.value = some x.item := (h.stored x (by rw [flatten_focus]; simp)).2
  refine h.assign.bind fun t' ht' => ?_
  rw [Table.freeEntry, ht'.self, h.entry_focus]
  dsimp only [Option.bind_eq_bind, Option.bind_some]
  rw [ht'.values, hvalue]
  have hother : ∀ n ∈ pre.flatten ++ post.flatten, Function.update t'.entryAt x.entry none n.entry = t'.entryAt n.entry := by
    intro n hn
    refine Function.update_of_ne (hne n ?_) _ _
    simp only [List.mem_append] at hn ⊢
    tauto
  have hkeep : ∀ n ∈ (pre.flatten ++ front) ++ (back ++ post.flatten),
      Function.update t'.entryAt x.entry none n.entry = t'.entryAt n.entry :=
    fun n hn => Function.update_of_ne (hne n hn) _ _
  refine Returns.pure ⟨rfl, ?_, Function.update_self .., Function.update_self .., fun a ha => update_none ha _,
    fun a ha => update_none (ht'.free a ha) _⟩
  obtain ⟨p, hp, hseg⟩ := ht'.chain
  refine h.without ht'.size (congrArg (· - 1) ht'.entries) ht'.other ⟨p, hp, hseg.update ?_ _⟩ ?_ ?_ ?_
  · intro hmem
    obtain ⟨n, hn, heq⟩ := List.mem_map.1 hmem
    refine hne n ?_ heq
    simp only [List.mem_append] at hn ⊢
    tauto
  · intro n hn
    exact (congrArg _ (hother n hn)).trans (ht'.links n hn)
  · intro n hn
    exact (congrArg _ (hkeep n hn)).trans (ht'.pairs n hn)
  · intro n hn
    exact Function.update_of_ne (hnv n hn) _ _

variable [DecidableEq K]

/-- The rover goes by the entries with other keys. -/
theorem Holds.removeLoop (h : Holds keyOf hash t (pre ++ (front ++ x :: back) :: post)) {passed rest : List (Node V)}
    (hfront : front = passed ++ rest) {fuel : Nat} (hfuel : rest.length < fuel) :
    t.removeLoop keyOf x.value fuel (roverAt pre.length passed) =
      HashTable.unlink t (roverAt pre.length front) ⟨⟨x.value, x.value⟩, back.head?.map Node.entry⟩ x.entry := by
  have hkey : t.keyAt keyOf x.value = some (keyOf x.item) := by
    rw [Table.keyAt, (h.stored x (by rw [flatten_focus]; simp)).2, Option.map_some]
  induction rest generalizing passed fuel with
  | nil =>
    obtain ⟨fuel, rfl⟩ := Nat.exists_eq_add_one_of_ne_zero (show fuel ≠ 0 by omega)
    rw [List.append_nil] at hfront
    subst hfront
    rw [Table.removeLoop, h.load]
    dsimp only [Option.bind_eq_bind, Option.bind_some, List.head?_cons, Option.map_some]
    rw [h.entry_focus]
    dsimp only [Option.bind_eq_bind, Option.bind_some]
    rw [hkey]
    dsimp only [Option.bind_eq_bind, Option.bind_some]
    rw [if_pos rfl]
    rfl
  | cons n rest ih =>
    obtain ⟨fuel, rfl⟩ := Nat.exists_eq_add_one_of_ne_zero (show fuel ≠ 0 by omega)
    have h' := h
    rw [hfront, List.append_assoc, List.cons_append] at h'
    have hkeys := h'.keys_nodup
    rw [flatten_focus] at hkeys
    have hother : keyOf x.item ≠ keyOf n.item := (nodup_focus hkeys).1 x (by simp)
    have hnode : t.keyAt keyOf n.value = some (keyOf n.item) := by
      rw [Table.keyAt, (h'.stored n (by rw [flatten_focus]; simp)).2, Option.map_some]
    rw [Table.removeLoop, h'.load]
    dsimp only [Option.bind_eq_bind, Option.bind_some, List.head?_cons, Option.map_some]
    rw [h'.entry_focus]
    dsimp only [Option.bind_eq_bind, Option.bind_some]
    rw [hkey, hnode]
    dsimp only [Option.bind_eq_bind, Option.bind_some]
    rw [if_neg hother]
    have hnext := @ih (passed ++ [n]) (by rw [hfront, List.append_assoc]; rfl) fuel (by simpa using hfuel)
    rw [roverAt_concat] at hnext
    exact hnext

/-- **Removing takes the entry out of its chain and frees it with its value**, wherever it is in the chain. -/
theorem remove_returns (h : Holds keyOf hash t (pre ++ (front ++ x :: back) :: post)) :
    Returns (t.remove keyOf hash x.value) (Removed keyOf hash t (pre ++ (front ++ back) :: post) x) := by
  have hkey : t.keyAt keyOf x.value = some (keyOf x.item) := by
    rw [Table.keyAt, (h.stored x (by rw [flatten_focus]; simp)).2, Option.map_some]
  have hindex := h.hashed _ _ (getElem?_focus pre _ post) x (by simp)
  have hfuel : front.length < t.entries.toNat + 1 := by
    rw [h.count, flatten_focus]
    simp only [List.length_append, List.length_cons]
    omega
  rw [Table.remove, hkey]
  dsimp only [Option.bind_eq_bind, Option.bind_some]
  rw [h.size, hindex, ← roverAt_nil (V := V), h.removeLoop (List.nil_append front).symm hfuel]
  exact h.unlink

end Remove

end Olaf.HashTable
