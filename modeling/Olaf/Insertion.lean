import Mathlib.Data.List.Perm.Basic
import Mathlib.Data.Nat.Prime.Defs
import Olaf.HashTable
/-!
# Inserting into the chained hash table (`hash-table.c`)

| here | there |
| --- | --- |
| `Malloc`        | `malloc`, for the size of an entry or of a value: an address that is not in use, or the null pointer |
| `hashTablePrimes`, `newTableSize` | `hash_table_primes` (`:61`) and the size in `hash_table_allocate_table` (`:74`) |
| `PrimeTable`    | `struct _HashTable` (`:45`) with its `prime_index` |
| `new`           | `hash_table_new` (`:125`) |
| `moveChain`, `enlarge` | the loop for a chain (`:222-241`) and `hash_table_enlarge` (`:191`); `calloc` says whether there is memory for the new table |
| `seek`          | the loops of `hash_table_insert` (`:290`) and `hash_table_lookup` (`:365`), to the entry with the key |
| `insert`, `lookup` | `hash_table_insert` (`:257`), with a function for values and none for keys, and `hash_table_lookup` (`:350`) |
| `free`          | `hash_table_free` (`:156`), to the memory that it leaves |

An entry is moved to the new table by a change of its link, so while the table is enlarged some entries are in the old chains
and the others in the new ones. `enlarge_returns` says that all of them end in the new ones.
-/

namespace Olaf.HashTable
open Checked Segments

structure Malloc (C : Type) where
  pick : (Nat → Option C) → Option Nat
  fresh : ∀ memory a, pick memory = some a → memory a = none

def hashTablePrimes : List UInt32 :=
  [193, 389, 769, 1543, 3079, 6151, 12289, 24593, 49157, 98317, 196613, 393241, 786433, 1572869, 3145739, 6291469, 12582917,
    25165843, 50331653, 100663319, 201326611, 402653189, 805306457, 1610612741]

/-- Beyond the last prime the size is ten times the number of entries, which wraps. -/
def newTableSize (entries primeIndex : UInt32) : UInt32 :=
  if h : primeIndex.toNat < hashTablePrimes.length then hashTablePrimes[primeIndex.toNat] else entries * 10

structure PrimeTable (V : Type) extends Table V where
  primeIndex : UInt32

variable {V K : Type}

/-- `entryAt` and `valueAt` are what is allocated by then. The result is null when there is no memory. -/
def new (malloc calloc : Bool) (entryAt : Nat → Option Entry) (valueAt : Nat → Option V) : Option (PrimeTable V) :=
  if malloc && calloc then
    some { table := List.replicate (newTableSize 0 0).toNat none, entries := 0, entryAt, valueAt, primeIndex := 0 }
  else none

namespace Table

/-- The entry becomes the first of its chain. -/
def push (t : Table V) (index entry : Nat) (pair : Pair) : Option (Table V) := do
  let next ← t.table[index]?
  return { t with
    table := t.table.set index (some entry)
    entryAt := Function.update t.entryAt entry (some ⟨pair, next⟩) }

/-- The old value is freed, with the key inside it. -/
def overwrite (t : Table V) (entry : Nat) (e : Entry) (value : Nat) : Option (Table V) := do
  let _ ← t.valueAt e.pair.value
  return { t with
    valueAt := Function.update t.valueAt e.pair.value none
    entryAt := Function.update t.entryAt entry (some { e with pair := ⟨value, value⟩ }) }

section Keys
variable [DecidableEq K] (keyOf : V → K) (hash : K → Nat)

omit [DecidableEq K] in
/-- Given a turn for every entry. -/
def moveChain (t : Table V) : (fuel : Nat) → (rover : Option Nat) → Option (Table V)
  | _, none => some t
  | 0, some _ => none
  | fuel + 1, some rover => do
    let e ← t.entryAt rover
    let index := hash (← t.keyAt keyOf e.pair.key) % t.table.length
    let t ← t.push index rover e.pair
    t.moveChain fuel e.next

/-- The first entry of a chain with the key. -/
def seek (t : Table V) (key : K) : (fuel : Nat) → (rover : Option Nat) → Option (Option (Nat × Entry))
  | _, none => some none
  | 0, some _ => none
  | fuel + 1, some rover => do
    let e ← t.entryAt rover
    if (← t.keyAt keyOf e.pair.key) = key then return some (rover, e) else seek t key fuel e.next

/-- The key is what the pointer points to. The result is null when there is no such entry. -/
def lookup (t : Table V) (key : K) : Option (Option Nat) := do
  let rover ← t.table[hash key % t.table.length]?
  let found ← t.seek keyOf key t.entries.toNat rover
  return found.map fun r => r.2.pair.value

end Keys

/-- Every chain is freed from its first entry on. -/
def freeChain (t : Table V) : (fuel : Nat) → (rover : Option Nat) → Option (Table V)
  | _, none => some t
  | 0, some _ => none
  | fuel + 1, some rover => do
    let e ← t.entryAt rover
    let t ← t.freeEntry rover
    t.freeChain fuel e.next

def free (t : Table V) : Option ((Nat → Option Entry) × (Nat → Option V)) := do
  let t ← t.table.foldlM (fun u rover => u.freeChain t.entries.toNat rover) t
  return (t.entryAt, t.valueAt)

end Table

namespace PrimeTable
variable [DecidableEq K] (keyOf : V → K) (hash : K → Nat)

omit [DecidableEq K] in
/-- Without memory for the new table all is as it was, and the result is false. -/
def enlarge (calloc : Bool) (t : PrimeTable V) : Option (PrimeTable V × Bool) :=
  if calloc then do
    let primeIndex := t.primeIndex + 1
    let empty : Table V := { t.toTable with table := List.replicate (newTableSize t.entries primeIndex).toNat none }
    let moved ← t.table.foldlM (fun u rover => u.moveChain keyOf hash t.entries.toNat rover) empty
    return (⟨moved, primeIndex⟩, true)
  else some (t, false)

omit [DecidableEq K] in
/-- More than a third of the table is taken. The product wraps. -/
def Crowded (t : PrimeTable V) : Prop := (t.entries * 3).toNat / t.table.length > 0

instance (t : PrimeTable V) : Decidable t.Crowded := inferInstanceAs (Decidable (_ > _))

omit [DecidableEq K] in
/-- At the start of an insertion. -/
def makeRoom (calloc : Bool) (t : PrimeTable V) : Option (PrimeTable V × Bool) :=
  if t.table.length = 0 then none
  else if t.Crowded then t.enlarge keyOf hash calloc
  else some (t, true)

/-- The result is false when there is no memory. -/
def insert (calloc : Bool) (malloc : Malloc Entry) (t : PrimeTable V) (value : Nat) : Option (PrimeTable V × Bool) := do
  let (t, room) ← t.makeRoom keyOf hash calloc
  if !room then return (t, false)
  let key ← t.keyAt keyOf value
  let index := hash key % t.table.length
  let rover ← t.table[index]?
  match ← t.seek keyOf key t.entries.toNat rover with
  | some (entry, e) =>
    let u ← t.overwrite entry e value
    return ({ t with toTable := u }, true)
  | none =>
    match malloc.pick t.entryAt with
    | none => return (t, false)
    | some newentry =>
      let u ← t.push index newentry ⟨value, value⟩
      return ({ t with toTable := { u with entries := u.entries + 1 } }, true)

end PrimeTable

/-! ## What is in a table -/

/-- The address of the value of a key, with the value. -/
def contents [DecidableEq K] (keyOf : V → K) (chains : List (List (Node V))) (key : K) : Option (Nat × V) :=
  (chains.flatten.find? fun n => keyOf n.item = key).map fun n => (n.value, n.item)

/-- The entries in memory that are not in the table, and the values. -/
def otherEntries (t : Table V) (chains : List (List (Node V))) (a : Nat) : Option Entry :=
  if a ∈ chains.flatten.map Node.entry then none else t.entryAt a

def otherValues (t : Table V) (chains : List (List (Node V))) (a : Nat) : Option V :=
  if a ∈ chains.flatten.map Node.value then none else t.valueAt a

variable {keyOf : V → K} {hash : K → Nat} {t u : Table V} {chains pre post : List (List (Node V))} {ns front back : List (Node V)}
  {x : Node V}

theorem exists_focus {i : Nat} (hi : i < chains.length) : ∃ pre ns post, chains = pre ++ ns :: post ∧ pre.length = i := by
  refine ⟨chains.take i, chains[i], chains.drop (i + 1), ?_, List.length_take_of_le (Nat.le_of_lt hi)⟩
  rw [← List.drop_eq_getElem_cons hi, List.take_append_drop]

/-- A node is somewhere in a chain. -/
theorem exists_node (hx : x ∈ chains.flatten) : ∃ pre front back post, chains = pre ++ (front ++ x :: back) :: post := by
  obtain ⟨ns, hns, hmem⟩ := List.mem_flatten.1 hx
  obtain ⟨pre, post, rfl⟩ := List.append_of_mem hns
  obtain ⟨front, back, rfl⟩ := List.append_of_mem hmem
  exact ⟨pre, front, back, post, rfl⟩

/-- How long a chain is. -/
theorem Holds.length_le (h : Holds keyOf hash t (pre ++ ns :: post)) : ns.length ≤ t.entries.toNat := by
  rw [h.count]
  simp only [List.flatten_append, List.flatten_cons, List.length_append]
  omega

theorem Holds.head (h : Holds keyOf hash t (pre ++ ns :: post)) :
    t.table[pre.length]? = some (ns.head?.map Node.entry) ∧
      Segment t.entryAt Entry.next (ns.head?.map Node.entry) (ns.map Node.entry) none := by
  obtain ⟨p, hp, hseg⟩ := h.chain _ _ (getElem?_focus pre ns post)
  have hhead : p = ns.head?.map Node.entry := by rw [hseg.head, List.head?_map]
  rw [← hhead]
  exact ⟨hp, hseg⟩

theorem Holds.mem_stored (h : Holds keyOf hash t (pre ++ ns :: post)) {n : Node V} (hn : n ∈ ns) :
    (t.entryAt n.entry).map Entry.pair = some ⟨n.value, n.value⟩ ∧ t.valueAt n.value = some n.item :=
  h.stored n (List.mem_flatten_of_mem (List.mem_append_right _ List.mem_cons_self) hn)

theorem Holds.index_lt (h : Holds keyOf hash t chains) (key : K) : hash key % chains.length < chains.length :=
  Nat.mod_lt _ (List.length_pos_iff.2 h.nonempty)

section Contents
variable [DecidableEq K]

theorem contents_eq_none {key : K} : contents keyOf chains key = none ↔ ∀ n ∈ chains.flatten, keyOf n.item ≠ key := by
  rw [contents, Option.map_eq_none_iff, List.find?_eq_none]
  simp only [decide_eq_true_eq, ne_eq]

theorem find?_mem {ns : List (Node V)} (hn : (ns.map fun n => keyOf n.item).Nodup) (hx : x ∈ ns) :
    ns.find? (fun n => keyOf n.item = keyOf x.item) = some x := by
  induction ns with
  | nil => cases hx
  | cons n ns ih =>
    rw [List.map_cons, List.nodup_cons] at hn
    rcases List.mem_cons.1 hx with rfl | hx
    · exact List.find?_cons_of_pos (decide_eq_true rfl)
    · rw [List.find?_cons_of_neg, ih hn.2 hx]
      rw [decide_eq_true_eq]
      exact fun heq => hn.1 (List.mem_map.2 ⟨x, hx, heq.symm⟩)

theorem contents_mem (hn : (chains.flatten.map fun n => keyOf n.item).Nodup) (hx : x ∈ chains.flatten) :
    contents keyOf chains (keyOf x.item) = some (x.value, x.item) := by
  rw [contents, find?_mem hn hx]
  rfl

/-- The order of the nodes does not matter. -/
theorem contents_perm {chains' : List (List (Node V))} (hn : (chains.flatten.map fun n => keyOf n.item).Nodup)
    (hp : chains'.flatten.Perm chains.flatten) : contents keyOf chains' = contents keyOf chains := by
  funext key
  by_cases hkey : ∃ n ∈ chains.flatten, keyOf n.item = key
  · obtain ⟨n, hmem, rfl⟩ := hkey
    rw [contents_mem hn hmem, contents_mem ((hp.map _).nodup_iff.2 hn) (hp.mem_iff.2 hmem)]
  · rw [contents_eq_none.2 fun n hmem heq => hkey ⟨n, hmem, heq⟩,
      contents_eq_none.2 fun n hmem heq => hkey ⟨n, hp.mem_iff.1 hmem, heq⟩]

/-- A node with a new key in front. -/
theorem contents_cons {chains' : List (List (Node V))} (hp : chains'.flatten.Perm (x :: chains.flatten))
    (hn : (chains.flatten.map fun n => keyOf n.item).Nodup) (hkey : ∀ n ∈ chains.flatten, keyOf n.item ≠ keyOf x.item) :
    contents keyOf chains' = Function.update (contents keyOf chains) (keyOf x.item) (some (x.value, x.item)) := by
  have hn' : (chains'.flatten.map fun n => keyOf n.item).Nodup := by
    rw [(hp.map _).nodup_iff, List.map_cons, List.nodup_cons]
    refine ⟨fun hmem => ?_, hn⟩
    obtain ⟨n, hmem, heq⟩ := List.mem_map.1 hmem
    exact hkey n hmem heq
  funext key
  by_cases heq : key = keyOf x.item
  · rw [heq, Function.update_self, contents_mem hn' (hp.mem_iff.2 List.mem_cons_self)]
  rw [Function.update_of_ne heq]
  by_cases hk : ∃ n ∈ chains.flatten, keyOf n.item = key
  · obtain ⟨n, hmem, rfl⟩ := hk
    rw [contents_mem hn hmem, contents_mem hn' (hp.mem_iff.2 (List.mem_cons_of_mem _ hmem))]
  · rw [contents_eq_none.2 fun n hmem h => hk ⟨n, hmem, h⟩, contents_eq_none.2]
    intro n hmem h
    rcases List.mem_cons.1 (hp.mem_iff.1 hmem) with rfl | hmem
    · exact heq h.symm
    · exact hk ⟨n, hmem, h⟩

end Contents

/-! ## Looking for a key -/

section Seek
variable [DecidableEq K]

/-- Over the entries with other keys. -/
theorem seek_skip {key : K} {p m : Option Nat} (hseg : Segment t.entryAt Entry.next p (front.map Node.entry) m)
    (hstored : ∀ n ∈ front, (t.entryAt n.entry).map Entry.pair = some ⟨n.value, n.value⟩ ∧ t.valueAt n.value = some n.item)
    (hkey : ∀ n ∈ front, keyOf n.item ≠ key) (fuel : Nat) :
    t.seek keyOf key (front.length + fuel) p = t.seek keyOf key fuel m := by
  induction front generalizing p with
  | nil => rw [show p = m from hseg, List.length_nil, Nat.zero_add]
  | cons n front ih =>
    obtain ⟨rfl, e, he, hrest⟩ := hseg
    obtain ⟨hpair, hvalue⟩ := hstored n List.mem_cons_self
    rw [he, Option.map_some] at hpair
    have hnode : t.keyAt keyOf e.pair.key = some (keyOf n.item) := by
      rw [Option.some.inj hpair, Table.keyAt, hvalue, Option.map_some]
    rw [List.length_cons, Nat.add_right_comm, Table.seek, he]
    dsimp only [Option.bind_eq_bind, Option.bind_some]
    rw [hnode]
    dsimp only [Option.bind_some]
    rw [if_neg (hkey n List.mem_cons_self)]
    exact ih hrest (fun n hn => hstored n (List.mem_cons_of_mem _ hn)) fun n hn => hkey n (List.mem_cons_of_mem _ hn)

theorem Holds.seek_found (h : Holds keyOf hash t (pre ++ (front ++ x :: back) :: post)) :
    t.seek keyOf (keyOf x.item) t.entries.toNat ((front ++ x :: back).head?.map Node.entry) =
      some (some (x.entry, ⟨⟨x.value, x.value⟩, back.head?.map Node.entry⟩)) := by
  have hlen := h.length_le
  have hkeys := h.keys_nodup
  rw [flatten_focus] at hkeys
  rw [List.length_append, List.length_cons] at hlen
  obtain ⟨_, hseg⟩ := h.head
  rw [List.map_append, List.map_cons] at hseg
  obtain ⟨e, he, hfront, _⟩ := hseg.split
  obtain ⟨fuel, hfuel⟩ := Nat.exists_eq_add_of_le hlen
  rw [hfuel, show front.length + (back.length + 1) + fuel = front.length + (back.length + fuel + 1) by omega,
    seek_skip hfront (fun n hn => h.mem_stored (List.mem_append_left _ hn)) fun n hn => (nodup_focus hkeys).1 n (by simp [hn]),
    Table.seek, h.entry_focus]
  dsimp only [Option.bind_eq_bind, Option.bind_some]
  rw [Table.keyAt, (h.mem_stored (List.mem_append_right _ List.mem_cons_self)).2]
  dsimp only [Option.map_some, Option.bind_some]
  rw [if_pos rfl]
  rfl

theorem Holds.seek_absent (h : Holds keyOf hash t (pre ++ ns :: post)) {key : K} (hkey : ∀ n ∈ ns, keyOf n.item ≠ key) :
    t.seek keyOf key t.entries.toNat (ns.head?.map Node.entry) = some none := by
  obtain ⟨fuel, hfuel⟩ := Nat.exists_eq_add_of_le h.length_le
  rw [hfuel, seek_skip h.head.2 (fun n hn => h.mem_stored hn) hkey]
  cases fuel <;> rfl

/-- **Looking for a key finds its value**, and null when there is none. -/
theorem lookup_eq (h : Holds keyOf hash t chains) (key : K) :
    t.lookup keyOf hash key = some ((contents keyOf chains key).map Prod.fst) := by
  by_cases hkey : ∃ n ∈ chains.flatten, keyOf n.item = key
  · obtain ⟨x, hx, rfl⟩ := hkey
    rw [contents_mem h.keys_nodup hx]
    obtain ⟨pre, front, back, post, rfl⟩ := exists_node hx
    rw [Table.lookup, h.size, h.hashed _ _ (getElem?_focus pre _ post) x (by simp), h.head.1]
    dsimp only [Option.bind_eq_bind, Option.bind_some]
    rw [h.seek_found]
    rfl
  · have hnone : ∀ n ∈ chains.flatten, keyOf n.item ≠ key := fun n hn heq => hkey ⟨n, hn, heq⟩
    rw [contents_eq_none.2 hnone]
    obtain ⟨pre, ns, post, rfl, hpre⟩ := exists_focus (h.index_lt key)
    rw [Table.lookup, h.size, ← hpre, h.head.1]
    dsimp only [Option.bind_eq_bind, Option.bind_some]
    rw [h.seek_absent fun n hn => hnone n (List.mem_flatten_of_mem (List.mem_append_right _ List.mem_cons_self) hn)]
    rfl

end Seek

/-! ## An entry in front of a chain -/

theorem Holds.push_eq (h : Holds keyOf hash t (pre ++ ns :: post)) (entry : Nat) (pair : Pair) : t.push pre.length entry pair =
    some { t with
      table := t.table.set pre.length (some entry)
      entryAt := Function.update t.entryAt entry (some ⟨pair, ns.head?.map Node.entry⟩) } := by
  rw [Table.push, h.head.1]
  rfl

theorem flatten_push (pre : List (List (Node V))) (x : Node V) (ns : List (Node V)) (post : List (List (Node V))) :
    (pre ++ (x :: ns) :: post).flatten.Perm (x :: (pre ++ ns :: post).flatten) := by
  simp only [List.flatten_append, List.flatten_cons, List.cons_append]
  exact List.perm_middle

/-- A new node in front of its chain. -/
theorem Holds.push (h : Holds keyOf hash t (pre ++ ns :: post)) (hentry : ∀ n ∈ (pre ++ ns :: post).flatten, n.entry ≠ x.entry)
    (hvalue : ∀ n ∈ (pre ++ ns :: post).flatten, n.value ≠ x.value)
    (hkey : ∀ n ∈ (pre ++ ns :: post).flatten, keyOf n.item ≠ keyOf x.item) (hitem : t.valueAt x.value = some x.item)
    (hindex : hash (keyOf x.item) % (pre ++ ns :: post).length = pre.length) (hfits : t.entries.toNat + 1 < 2 ^ 32) :
    Holds keyOf hash { t with
      table := t.table.set pre.length (some x.entry)
      entries := t.entries + 1
      entryAt := Function.update t.entryAt x.entry (some ⟨⟨x.value, x.value⟩, ns.head?.map Node.entry⟩) }
        (pre ++ (x :: ns) :: post) := by
  have hflat := flatten_push pre x ns post
  have hlength : (pre ++ (x :: ns) :: post).length = (pre ++ ns :: post).length := by
    simp only [List.length_append, List.length_cons]
  have hlt : pre.length < t.table.length := by
    rw [h.size, List.length_append, List.length_cons]
    omega
  have hmem : ∀ {n : Node V} {ms : List (Node V)} {i : Nat}, (pre ++ ns :: post)[i]? = some ms → n ∈ ms →
      n ∈ (pre ++ ns :: post).flatten := fun hi hn => List.mem_flatten_of_mem (List.mem_of_getElem? hi) hn
  refine ⟨?_, ?_, ?_, ?_, ?_, ?_, ?_, ?_, ?_⟩
  · rw [hlength, ← h.size]
    exact List.length_set
  · simp
  · intro i ms hi
    dsimp only
    rcases getElem?_others hi ns with ⟨rfl, rfl⟩ | ⟨hne, _, hold⟩
    · refine ⟨_, List.getElem?_set_self hlt, rfl, _, Function.update_self .., h.head.2.update ?_ _⟩
      intro hx
      obtain ⟨n, hn, heq⟩ := List.mem_map.1 hx
      exact hentry n (hmem (getElem?_focus pre ns post) hn) heq
    · obtain ⟨p, hp, hsegment⟩ := h.chain i ms hold
      refine ⟨p, by rw [List.getElem?_set_ne (Ne.symm hne), hp], hsegment.update ?_ _⟩
      intro hx
      obtain ⟨n, hn, heq⟩ := List.mem_map.1 hx
      exact hentry n (hmem hold hn) heq
  · intro n hn
    dsimp only
    rcases List.mem_cons.1 (hflat.mem_iff.1 hn) with rfl | hn
    · rw [Function.update_self]
      exact ⟨rfl, hitem⟩
    · rw [Function.update_of_ne (hentry n hn)]
      exact h.stored n hn
  · rw [(hflat.map _).nodup_iff, List.map_cons, List.nodup_cons]
    exact ⟨fun hx => (List.mem_map.1 hx).elim fun n hn => hentry n hn.1 hn.2, h.entries_nodup⟩
  · rw [(hflat.map _).nodup_iff, List.map_cons, List.nodup_cons]
    exact ⟨fun hx => (List.mem_map.1 hx).elim fun n hn => hvalue n hn.1 hn.2, h.values_nodup⟩
  · rw [(hflat.map _).nodup_iff, List.map_cons, List.nodup_cons]
    exact ⟨fun hx => (List.mem_map.1 hx).elim fun n hn => hkey n hn.1 hn.2, h.keys_nodup⟩
  · intro i ms hi n hn
    rw [hlength]
    rcases getElem?_others hi ns with ⟨rfl, rfl⟩ | ⟨_, _, hold⟩
    · rcases List.mem_cons.1 hn with rfl | hn
      · exact hindex
      · exact h.hashed _ _ (getElem?_focus pre ns post) n hn
    · exact h.hashed i ms hold n hn
  · dsimp only
    rw [hflat.length_eq, List.length_cons, ← h.count, UInt32.toNat_add, UInt32.toNat_one, Nat.mod_eq_of_lt hfits]

/-! ## Enlarging the table -/

/-- The chains in a table, from the first on. -/
theorem Holds.table_eq (h : Holds keyOf hash t chains) : t.table = chains.map fun ns => ns.head?.map Node.entry := by
  refine List.ext_getElem? fun i => ?_
  by_cases hi : i < chains.length
  · obtain ⟨pre, ns, post, rfl, rfl⟩ := exists_focus hi
    rw [h.head.1, List.getElem?_map, getElem?_focus, Option.map_some]
  · rw [List.getElem?_eq_none (by rw [h.size]; omega), List.getElem?_eq_none (by rw [List.length_map]; omega)]

/-- The entries of `done` are in the new table `u`, and the others are as they were in `t`. -/
structure Moving (keyOf : V → K) (hash : K → Nat) (t : Table V) (size : Nat) (done : List (Node V)) (u : Table V) : Prop where
  moved : ∃ chains, chains.length = size ∧ chains.flatten.Perm done ∧
    Holds keyOf hash { u with entries := UInt32.ofNat done.length } chains
  others : ∀ a, a ∉ done.map Node.entry → u.entryAt a = t.entryAt a
  values : u.valueAt = t.valueAt
  entries : u.entries = t.entries

section Moving
variable {size : Nat} {done rest : List (Node V)}

theorem Moving.push (h : Holds keyOf hash t chains) (hm : Moving keyOf hash t size done u)
    (hsplit : chains.flatten = done ++ x :: rest) :
    Returns (u.push (hash (keyOf x.item) % u.table.length) x.entry ⟨x.value, x.value⟩) (Moving keyOf hash t size (done ++ [x])) := by
  obtain ⟨chains', hsize, hperm, hholds⟩ := hm.moved
  have hentries := h.entries_nodup
  have hvalues := h.values_nodup
  have hkeys := h.keys_nodup
  have hcount := h.count
  have hlt := t.entries.toNat_lt
  rw [hsplit] at hentries hvalues hkeys hcount
  rw [List.length_append, List.length_cons] at hcount
  have hdone : ∀ n ∈ chains'.flatten, n ∈ done ++ rest := fun n hn => List.mem_append_left _ (hperm.mem_iff.1 hn)
  have htable : u.table.length = chains'.length := hholds.size
  have hof : (UInt32.ofNat done.length).toNat = done.length := UInt32.toNat_ofNat_of_lt' (by simp only [UInt32.size]; omega)
  rw [htable]
  obtain ⟨pre, ns, post, rfl, hpre⟩ := exists_focus (hholds.index_lt (keyOf x.item))
  rw [← hpre]
  have hhead : u.table[pre.length]? = some (ns.head?.map Node.entry) := hholds.head.1
  have hpushed := hholds.push (x := x) (fun n hn => (nodup_focus hentries).1 n (hdone n hn))
    (fun n hn => (nodup_focus hvalues).1 n (hdone n hn)) (fun n hn => (nodup_focus hkeys).1 n (hdone n hn))
    (by rw [hm.values]; exact (h.stored x (by rw [hsplit]; simp)).2) hpre.symm (by rw [hof]; omega)
  rw [Table.push, hhead]
  refine Returns.pure ⟨⟨pre ++ (x :: ns) :: post, ?_, ?_, ?_⟩, fun a ha => ?_, hm.values, hm.entries⟩
  · rw [← hsize]
    simp only [List.length_append, List.length_cons]
  · exact (flatten_push ..).trans ((hperm.cons x).trans (List.perm_append_singleton x done).symm)
  · rw [List.length_append, List.length_singleton, UInt32.ofNat_add]
    exact hpushed
  · rw [List.map_append, List.mem_append, not_or] at ha
    dsimp only
    rw [Function.update_of_ne (by simpa using ha.2), hm.others a ha.1]

/-- A chain of the old table, from its first entry on. -/
theorem Moving.moveChain (h : Holds keyOf hash t chains) (hm : Moving keyOf hash t size done u) {p : Option Nat}
    (hseg : Segment t.entryAt Entry.next p (ns.map Node.entry) none) (hsplit : chains.flatten = done ++ (ns ++ rest)) {fuel : Nat}
    (hfuel : ns.length ≤ fuel) : Returns (u.moveChain keyOf hash fuel p) (Moving keyOf hash t size (done ++ ns)) := by
  induction ns generalizing p done u fuel with
  | nil =>
    obtain rfl : p = none := hseg
    rw [List.append_nil]
    cases fuel <;> exact Returns.pure hm
  | cons x ns ih =>
    obtain ⟨rfl, e, he, hrest⟩ := hseg
    obtain ⟨fuel, rfl⟩ := Nat.exists_eq_add_one_of_ne_zero (show fuel ≠ 0 by rw [List.length_cons] at hfuel; omega)
    obtain ⟨hpair, hvalue⟩ := h.stored x (by rw [hsplit]; simp)
    have hentries := h.entries_nodup
    rw [hsplit] at hentries
    have hx : u.entryAt x.entry = some e := by
      rw [hm.others, he]
      intro hmem
      obtain ⟨n, hn, heq⟩ := List.mem_map.1 hmem
      exact (nodup_focus hentries).1 n (List.mem_append_left _ hn) heq
    rw [he, Option.map_some, Option.some.injEq] at hpair
    rw [Table.moveChain, hx]
    dsimp only [Option.bind_eq_bind, Option.bind_some]
    rw [hpair, Table.keyAt, hm.values, hvalue]
    dsimp only [Option.map_some, Option.bind_some]
    refine (hm.push h hsplit).bind fun u' hu' => ?_
    have hnext := ih hu' hrest (by rw [hsplit, List.append_assoc]; rfl) (by simpa using hfuel)
    rw [List.append_assoc] at hnext
    exact hnext

theorem Moving.moveAll (h : Holds keyOf hash t (pre ++ post)) (hm : Moving keyOf hash t size pre.flatten u) :
    Returns ((post.map fun ns => ns.head?.map Node.entry).foldlM (fun u rover => u.moveChain keyOf hash t.entries.toNat rover) u)
      (Moving keyOf hash t size (pre ++ post).flatten) := by
  induction post generalizing pre u with
  | nil =>
    rw [List.append_nil]
    exact Returns.pure hm
  | cons ns post ih =>
    rw [List.map_cons, List.foldlM_cons]
    refine (hm.moveChain h h.head.2 (by rw [List.flatten_append, List.flatten_cons]) h.length_le).bind fun u' hu' => ?_
    rw [List.append_cons] at h ⊢
    refine ih h ?_
    rw [List.flatten_append, List.flatten_singleton]
    exact hu'

end Moving

theorem holds_empty {size : Nat} (hsize : 0 < size) (keyOf : V → K) (hash : K → Nat) (entryAt : Nat → Option Entry)
    (valueAt : Nat → Option V) :
    Holds keyOf hash ⟨List.replicate size none, 0, entryAt, valueAt⟩ (List.replicate size []) := by
  have hchain : ∀ {i : Nat} {ns : List (Node V)}, (List.replicate size [])[i]? = some ns → i < size ∧ ns = [] := by
    intro i ns hi
    obtain ⟨hlt, heq⟩ := List.getElem?_eq_some_iff.1 hi
    rw [List.getElem_replicate] at heq
    exact ⟨by simpa using hlt, heq.symm⟩
  refine ⟨by simp, ?_, fun i ns hi => ?_, ?_, ?_, ?_, ?_, fun i ns hi n hn => ?_, ?_⟩
  · rw [ne_eq, List.replicate_eq_nil_iff]
    omega
  · obtain ⟨hlt, rfl⟩ := hchain hi
    exact ⟨none, by rw [List.getElem?_replicate, if_pos hlt], rfl⟩
  · simp
  · simp
  · simp
  · simp
  · obtain ⟨_, rfl⟩ := hchain hi
    cases hn
  · simp

/-- The entries of `t` are in another table, or in the same. -/
structure Enlarged (keyOf : V → K) (hash : K → Nat) (t : Table V) (chains chains' : List (List (Node V))) (u : Table V) : Prop where
  holds : Holds keyOf hash u chains'
  moved : chains'.flatten.Perm chains.flatten
  others : ∀ a, a ∉ chains.flatten.map Node.entry → u.entryAt a = t.entryAt a
  values : u.valueAt = t.valueAt
  entries : u.entries = t.entries

theorem Holds.enlarged (h : Holds keyOf hash t chains) : Enlarged keyOf hash t chains chains t :=
  ⟨h, List.Perm.refl _, fun _ _ => rfl, rfl, rfl⟩

/-- With fewer than `2^31` entries there is always a place in the new table. -/
theorem newTableSize_pos {entries : UInt32} (primeIndex : UInt32) (hpos : 0 < entries.toNat) (hlt : entries.toNat < 2 ^ 31) :
    0 < (newTableSize entries primeIndex).toNat := by
  rw [newTableSize]
  split
  · have hprimes : ∀ p ∈ hashTablePrimes, 0 < p.toNat := by
      unfold hashTablePrimes
      simp
    exact hprimes _ (List.getElem_mem _)
  · rw [UInt32.toNat_mul]
    refine Nat.pos_of_ne_zero fun hzero => ?_
    have hfive : 2 ^ 31 ∣ entries.toNat * 5 := by
      refine Nat.dvd_of_mul_dvd_mul_left (show 0 < 2 by decide) ?_
      rw [Nat.mul_left_comm]
      exact Nat.dvd_of_mod_eq_zero hzero
    have hdvd : 2 ^ 31 ∣ entries.toNat := Nat.Coprime.dvd_of_dvd_mul_right (by decide) hfive
    exact Nat.not_le.2 hlt (Nat.le_of_dvd hpos hdvd)

/-- **All the entries end in the new table**, or the old one stays. -/
theorem enlarge_returns {t : PrimeTable V} (h : Holds keyOf hash t.toTable chains) (hpos : 0 < t.entries.toNat)
    (hlt : t.entries.toNat < 2 ^ 31) (calloc : Bool) : Returns (t.enlarge keyOf hash calloc) fun r =>
      r.2 = calloc ∧ ∃ chains', Enlarged keyOf hash t.toTable chains chains' r.1.toTable := by
  cases calloc with
  | false => exact Returns.pure ⟨rfl, chains, h.enlarged⟩
  | true =>
    have hsize := newTableSize_pos (t.primeIndex + 1) hpos hlt
    rw [PrimeTable.enlarge, if_pos rfl, h.table_eq]
    have hstart : Moving keyOf hash t.toTable (newTableSize t.entries (t.primeIndex + 1)).toNat
        (List.flatten ([] : List (List (Node V))))
        { t.toTable with table := List.replicate (newTableSize t.entries (t.primeIndex + 1)).toNat none } := by
      refine ⟨⟨_, List.length_replicate, ?_, holds_empty hsize keyOf hash t.entryAt t.valueAt⟩, fun _ _ => rfl, rfl, rfl⟩
      simp
    refine (Moving.moveAll (show Holds keyOf hash t.toTable ([] ++ chains) from h) hstart).bind fun u hu => Returns.pure ⟨rfl, ?_⟩
    rw [List.nil_append] at hu
    obtain ⟨chains', _, hperm, hholds⟩ := hu.moved
    refine ⟨chains', ?_, hperm, hu.others, hu.values, hu.entries⟩
    have hcount : UInt32.ofNat chains.flatten.length = u.entries := by
      rw [← h.count, UInt32.ofNat_toNat, hu.entries]
    rw [hcount] at hholds
    exact hholds

theorem makeRoom_returns {t : PrimeTable V} (h : Holds keyOf hash t.toTable chains) (hlt : t.entries.toNat < 2 ^ 31) (calloc : Bool) :
    Returns (t.makeRoom keyOf hash calloc) fun r =>
      (r.2 = false → calloc = false ∧ t.Crowded) ∧ ∃ chains', Enlarged keyOf hash t.toTable chains chains' r.1.toTable := by
  have hne : t.table.length ≠ 0 := by
    rw [h.size, ne_eq, List.length_eq_zero_iff]
    exact h.nonempty
  rw [PrimeTable.makeRoom, if_neg hne]
  split
  · rename_i hfull
    have hpos : 0 < t.entries.toNat := by
      refine Nat.pos_of_ne_zero fun hzero => ?_
      rw [PrimeTable.Crowded, UInt32.toNat_mul, hzero] at hfull
      simp at hfull
    exact (enlarge_returns h hpos hlt calloc).mono fun r hr => ⟨fun hr' => ⟨hr.1.symm.trans hr', hfull⟩, hr.2⟩
  · exact Returns.pure ⟨fun hfalse => absurd hfalse.symm Bool.false_ne_true, chains, h.enlarged⟩

/-! ## Inserting -/

/-- Another value in an entry, with the same key. -/
theorem Holds.replace (h : Holds keyOf hash t (pre ++ (front ++ x :: back) :: post)) {y : Node V} (hentry : y.entry = x.entry)
    (hkey : keyOf y.item = keyOf x.item) (hvalue : ∀ n ∈ (pre.flatten ++ front) ++ (back ++ post.flatten), n.value ≠ y.value)
    (htable : u.table = t.table) (hentries : u.entries = t.entries)
    (hlinks : ∀ a, (u.entryAt a).map Entry.next = (t.entryAt a).map Entry.next)
    (hself : (u.entryAt x.entry).map Entry.pair = some ⟨y.value, y.value⟩ ∧ u.valueAt y.value = some y.item)
    (hothers : ∀ n ∈ (pre.flatten ++ front) ++ (back ++ post.flatten),
      (u.entryAt n.entry).map Entry.pair = (t.entryAt n.entry).map Entry.pair ∧ u.valueAt n.value = t.valueAt n.value) :
    Holds keyOf hash u (pre ++ (front ++ y :: back) :: post) := by
  have hmap : (front ++ y :: back).map Node.entry = (front ++ x :: back).map Node.entry := by
    rw [List.map_append, List.map_append, List.map_cons, List.map_cons, hentry]
  have hold : ∀ {i : Nat} {ns : List (Node V)}, (pre ++ (front ++ y :: back) :: post)[i]? = some ns →
      ∃ ms, (pre ++ (front ++ x :: back) :: post)[i]? = some ms ∧ ns.map Node.entry = ms.map Node.entry ∧
        ∀ n ∈ ns, ∃ m ∈ ms, keyOf n.item = keyOf m.item := by
    intro i ns hi
    rcases getElem?_others hi (front ++ x :: back) with ⟨rfl, rfl⟩ | ⟨_, _, hold⟩
    · refine ⟨_, getElem?_focus pre _ post, hmap, fun n hn => ?_⟩
      rcases List.mem_cons.1 (List.perm_middle.mem_iff.1 hn) with rfl | hn
      · exact ⟨x, by simp, hkey⟩
      · exact ⟨n, List.perm_middle.mem_iff.2 (List.mem_cons_of_mem _ hn), rfl⟩
    · exact ⟨ns, hold, rfl, fun n hn => ⟨n, hn, rfl⟩⟩
  have hlength : (pre ++ (front ++ y :: back) :: post).length = (pre ++ (front ++ x :: back) :: post).length := by
    simp only [List.length_append, List.length_cons]
  have hnodup := h.entries_nodup
  have hvalues := h.values_nodup
  have hkeys := h.keys_nodup
  have hcount := h.count
  rw [flatten_focus] at hnodup hvalues hkeys hcount
  refine ⟨?_, by simp, fun i ns hi => ?_, fun n hn => ?_, ?_, ?_, ?_, fun i ns hi n hn => ?_, ?_⟩
  · rw [htable, hlength]
    exact h.size
  · obtain ⟨ms, hms, hentries, _⟩ := hold hi
    obtain ⟨p, hp, hseg⟩ := h.chain i ms hms
    rw [htable, hentries]
    exact ⟨p, hp, hseg.congr fun a _ => hlinks a⟩
  · rw [flatten_focus] at hn
    rcases List.mem_cons.1 (List.perm_middle.mem_iff.1 hn) with rfl | hn
    · rw [hentry]
      exact hself
    · rw [(hothers n hn).1, (hothers n hn).2]
      refine h.stored n ?_
      rw [flatten_focus]
      exact List.perm_middle.mem_iff.2 (List.mem_cons_of_mem _ hn)
  · rw [flatten_focus, List.map_append, List.map_cons, hentry]
    rw [List.map_append, List.map_cons] at hnodup
    exact hnodup
  · rw [flatten_focus, (List.perm_middle.map _).nodup_iff, List.map_cons, List.nodup_cons]
    refine ⟨fun hn => ?_, (nodup_focus hvalues).2⟩
    obtain ⟨n, hn, heq⟩ := List.mem_map.1 hn
    exact hvalue n hn heq
  · rw [flatten_focus, List.map_append, List.map_cons, hkey]
    rw [List.map_append, List.map_cons] at hkeys
    exact hkeys
  · obtain ⟨ms, hms, _, hkeys⟩ := hold hi
    obtain ⟨m, hm, heq⟩ := hkeys n hn
    rw [heq, hlength]
    exact h.hashed i ms hms m hm
  · rw [flatten_focus, hentries]
    simp only [List.length_append, List.length_cons] at hcount ⊢
    exact hcount

/-- The old value is freed. -/
theorem Holds.overwrite (h : Holds keyOf hash t (pre ++ (front ++ x :: back) :: post)) {value : Nat} {item : V}
    (hitem : t.valueAt value = some item) (hkey : keyOf item = keyOf x.item)
    (hvalue : ∀ n ∈ (pre ++ (front ++ x :: back) :: post).flatten, n.value ≠ value) :
    Holds keyOf hash { t with
      entryAt := Function.update t.entryAt x.entry (some ⟨⟨value, value⟩, back.head?.map Node.entry⟩)
      valueAt := Function.update t.valueAt x.value none } (pre ++ (front ++ ⟨x.entry, value, item⟩ :: back) :: post) := by
  have hnodup := h.entries_nodup
  have hvalues := h.values_nodup
  rw [flatten_focus] at hnodup hvalues hvalue
  refine h.replace rfl hkey (fun n hn => hvalue n (List.perm_middle.mem_iff.2 (List.mem_cons_of_mem _ hn))) rfl rfl (fun a => ?_)
    ⟨?_, ?_⟩ fun n hn => ⟨?_, Function.update_of_ne ((nodup_focus hvalues).1 n hn) _ _⟩
  · dsimp only
    by_cases ha : a = x.entry
    · rw [ha, Function.update_self, h.entry_focus]
      rfl
    · rw [Function.update_of_ne ha]
  · dsimp only
    rw [Function.update_self]
    rfl
  · dsimp only
    rw [Function.update_of_ne (Ne.symm (hvalue x (by simp))), hitem]
  · dsimp only
    rw [Function.update_of_ne ((nodup_focus hnodup).1 n hn)]

/-- The value is changed where it is. -/
theorem Holds.modify (h : Holds keyOf hash t (pre ++ (front ++ x :: back) :: post)) {item : V} (hkey : keyOf item = keyOf x.item) :
    Holds keyOf hash { t with valueAt := Function.update t.valueAt x.value (some item) }
      (pre ++ (front ++ ⟨x.entry, x.value, item⟩ :: back) :: post) := by
  have hvalues := h.values_nodup
  rw [flatten_focus] at hvalues
  refine h.replace rfl hkey (fun n hn => (nodup_focus hvalues).1 n hn) rfl rfl (fun _ => rfl) ⟨?_, Function.update_self ..⟩
    fun n hn => ⟨rfl, Function.update_of_ne ((nodup_focus hvalues).1 n hn) _ _⟩
  exact (h.stored x (by rw [flatten_focus]; simp)).1

/-- The same entries, wherever they are. -/
theorem otherEntries_congr {chains' : List (List (Node V))} (hmem : ∀ a, a ∈ chains'.flatten.map Node.entry ↔ a ∈ chains.flatten.map Node.entry)
    (hother : ∀ a, a ∉ chains.flatten.map Node.entry → u.entryAt a = t.entryAt a) : otherEntries u chains' = otherEntries t chains := by
  funext a
  rw [otherEntries, otherEntries]
  by_cases ha : a ∈ chains.flatten.map Node.entry
  · rw [if_pos ha, if_pos ((hmem a).2 ha)]
  · rw [if_neg ha, if_neg fun ha' => ha ((hmem a).1 ha'), hother a ha]

theorem Enlarged.otherEntries {chains' : List (List (Node V))} (he : Enlarged keyOf hash t chains chains' u) :
    HashTable.otherEntries u chains' = HashTable.otherEntries t chains :=
  otherEntries_congr (fun _ => (he.moved.map _).mem_iff) he.others

theorem Enlarged.otherValues {chains' : List (List (Node V))} (he : Enlarged keyOf hash t chains chains' u) :
    HashTable.otherValues u chains' = HashTable.otherValues t chains := by
  funext a
  have hmem : a ∈ chains'.flatten.map Node.value ↔ a ∈ chains.flatten.map Node.value := (he.moved.map _).mem_iff
  rw [HashTable.otherValues, HashTable.otherValues, he.values]
  simp only [hmem]

/-- The memory of a value that a table takes over, and of one that it gives up. -/
theorem otherValues_focus {y : Node V} (hother : ∀ a, a ≠ x.value → u.valueAt a = t.valueAt a) (hfree : u.valueAt x.value = none) :
    otherValues u (pre ++ (front ++ y :: back) :: post) =
      Function.update (otherValues t (pre ++ (front ++ x :: back) :: post)) y.value none := by
  funext a
  have hmem : ∀ z : Node V, a ∈ (pre ++ (front ++ z :: back) :: post).flatten.map Node.value ↔
      a = z.value ∨ a ∈ ((pre.flatten ++ front) ++ (back ++ post.flatten)).map Node.value := by
    intro z
    rw [flatten_focus, (List.perm_middle.map Node.value).mem_iff, List.map_cons, List.mem_cons]
  by_cases hy : a = y.value
  · rw [otherValues, if_pos ((hmem y).2 (Or.inl hy)), hy, Function.update_self]
  · rw [Function.update_of_ne hy]
    by_cases hx : a = x.value
    · rw [otherValues, otherValues, if_pos ((hmem x).2 (Or.inl hx)), hx, hfree, ite_self]
    · rw [otherValues, otherValues, hother a hx]
      simp only [hmem, hx, hy, false_or]

theorem otherValues_push (hvalues : u.valueAt = t.valueAt) : otherValues u (pre ++ (x :: ns) :: post) =
    Function.update (otherValues t (pre ++ ns :: post)) x.value none := by
  funext a
  have hmem : a ∈ (pre ++ (x :: ns) :: post).flatten.map Node.value ↔
      a = x.value ∨ a ∈ (pre ++ ns :: post).flatten.map Node.value := by
    rw [((flatten_push pre x ns post).map Node.value).mem_iff, List.map_cons, List.mem_cons]
  by_cases hx : a = x.value
  · rw [otherValues, if_pos (hmem.2 (Or.inl hx)), hx, Function.update_self]
  · rw [Function.update_of_ne hx, otherValues, otherValues, hvalues]
    simp only [hmem, hx, false_or]

theorem otherEntries_push (hother : ∀ a, a ≠ x.entry → u.entryAt a = t.entryAt a) (hfree : t.entryAt x.entry = none) :
    otherEntries u (pre ++ (x :: ns) :: post) = otherEntries t (pre ++ ns :: post) := by
  funext a
  have hmem : a ∈ (pre ++ (x :: ns) :: post).flatten.map Node.entry ↔
      a = x.entry ∨ a ∈ (pre ++ ns :: post).flatten.map Node.entry := by
    rw [((flatten_push pre x ns post).map Node.entry).mem_iff, List.map_cons, List.mem_cons]
  by_cases hx : a = x.entry
  · rw [otherEntries, if_pos (hmem.2 (Or.inl hx)), otherEntries, hx, hfree, ite_self]
  · rw [otherEntries, otherEntries, hother a hx]
    simp only [hmem, hx, false_or]

section Insert
variable [DecidableEq K] {value : Nat} {item : V}

/-- What an insertion does to a table with `chains`. -/
structure Inserted (keyOf : V → K) (hash : K → Nat) (t : Table V) (chains : List (List (Node V))) (value : Nat) (item : V)
    (chains' : List (List (Node V))) (r : PrimeTable V × Bool) : Prop where
  holds : Holds keyOf hash r.1.toTable chains'
  contents : contents keyOf chains' =
    if r.2 then Function.update (contents keyOf chains) (keyOf item) (some (value, item)) else contents keyOf chains
  otherEntries : otherEntries r.1.toTable chains' = otherEntries t chains
  otherValues : otherValues r.1.toTable chains' =
    if r.2 then Function.update (otherValues t chains) value none else otherValues t chains
  entries : r.1.entries.toNat ≤ t.entries.toNat + 1

/-- The contents of a table with a node, in whatever chain it is. -/
theorem contents_focus (hn : ((pre ++ (front ++ x :: back) :: post).flatten.map fun n => keyOf n.item).Nodup) :
    contents keyOf (pre ++ (front ++ x :: back) :: post) =
      Function.update (contents keyOf [pre.flatten ++ front ++ (back ++ post.flatten)]) (keyOf x.item) (some (x.value, x.item)) := by
  rw [flatten_focus] at hn
  refine contents_cons ?_ ?_ ?_
  · rw [flatten_focus, List.flatten_singleton]
    exact List.perm_middle
  · rw [List.flatten_singleton]
    exact (nodup_focus hn).2
  · rw [List.flatten_singleton]
    exact (nodup_focus hn).1

/-- **An insertion** adds the value under its key or takes the place of the one that is there, and without memory it changes
nothing. -/
theorem insert_returns {t : PrimeTable V} (h : Holds keyOf hash t.toTable chains) (hlt : t.entries.toNat < 2 ^ 31)
    (hitem : t.valueAt value = some item) (hvalue : ∀ n ∈ chains.flatten, n.value ≠ value) (calloc : Bool) (malloc : Malloc Entry) :
    Returns (t.insert keyOf hash calloc malloc value) fun r =>
      (r.2 = false → (calloc = false ∧ t.Crowded) ∨ malloc.pick r.1.entryAt = none) ∧
      ∃ chains', Inserted keyOf hash t.toTable chains value item chains' r := by
  refine (makeRoom_returns h hlt calloc).bind fun r hr => ?_
  obtain ⟨u, room⟩ := r
  obtain ⟨hroom, chains₁, he⟩ := hr
  have hcontents : contents keyOf chains₁ = contents keyOf chains := contents_perm h.keys_nodup he.moved
  have hvalue₁ : ∀ n ∈ chains₁.flatten, n.value ≠ value := fun n hn => hvalue n (he.moved.mem_iff.1 hn)
  have hitem₁ : u.valueAt value = some item := by rw [he.values, hitem]
  have hentries : u.entries = t.entries := he.entries
  dsimp only at hroom he ⊢
  cases room with
  | false =>
    refine Returns.pure ⟨fun _ => Or.inl (hroom rfl), chains₁, he.holds, hcontents, he.otherEntries, he.otherValues, ?_⟩
    dsimp only
    rw [hentries]
    omega
  | true =>
    rw [if_neg (by decide), Table.keyAt, hitem₁]
    dsimp only [Option.bind_eq_bind, Option.map_some, Option.bind_some]
    rw [he.holds.size]
    by_cases hkey : ∃ n ∈ chains₁.flatten, keyOf n.item = keyOf item
    · obtain ⟨x, hx, heq⟩ := hkey
      obtain ⟨pre, front, back, post, rfl⟩ := exists_node hx
      rw [← heq, he.holds.hashed _ _ (getElem?_focus pre _ post) x (by simp), he.holds.head.1]
      dsimp only [Option.bind_some]
      rw [he.holds.seek_found]
      dsimp only [Option.bind_some]
      rw [Table.overwrite, (he.holds.stored x hx).2]
      have hover := he.holds.overwrite hitem₁ heq.symm hvalue₁
      refine Returns.pure ⟨fun hfalse => absurd hfalse.symm Bool.false_ne_true, _, hover, ?_, ?_, ?_, ?_⟩
      · rw [if_pos rfl, contents_focus hover.keys_nodup, ← hcontents, contents_focus he.holds.keys_nodup, heq,
          Function.update_idem]
      · rw [← he.otherEntries]
        refine otherEntries_congr (fun a => ?_) fun a ha => Function.update_of_ne ?_ _ _
        · simp only [flatten_focus, List.map_append, List.map_cons]
        · rintro rfl
          exact ha (List.mem_map_of_mem hx)
      · rw [if_pos rfl, ← he.otherValues]
        exact otherValues_focus (fun a ha => Function.update_of_ne ha _ _) (Function.update_self ..)
      · dsimp only
        rw [hentries]
        omega
    · have hnone : ∀ n ∈ chains₁.flatten, keyOf n.item ≠ keyOf item := fun n hn heq => hkey ⟨n, hn, heq⟩
      obtain ⟨pre, ns, post, rfl, hpre⟩ := exists_focus (he.holds.index_lt (keyOf item))
      rw [← hpre, he.holds.head.1]
      dsimp only [Option.bind_some]
      rw [he.holds.seek_absent fun n hn => hnone n (List.mem_flatten_of_mem (List.mem_append_right _ List.mem_cons_self) hn)]
      dsimp only [Option.bind_some]
      cases hpick : malloc.pick u.entryAt with
      | none =>
        refine Returns.pure ⟨fun _ => Or.inr hpick, _, he.holds, hcontents, he.otherEntries, he.otherValues, ?_⟩
        dsimp only
        rw [hentries]
        omega
      | some newentry =>
        have hfree := malloc.fresh _ _ hpick
        have hentry : ∀ n ∈ (pre ++ ns :: post).flatten, n.entry ≠ newentry := by
          rintro n hn rfl
          have hstored := (he.holds.stored n hn).1
          rw [hfree] at hstored
          cases hstored
        have hpush := he.holds.push (x := ⟨newentry, value, item⟩) hentry hvalue₁ hnone hitem₁ hpre.symm (by rw [hentries]; omega)
        dsimp only
        rw [he.holds.push_eq]
        refine Returns.pure ⟨fun hfalse => absurd hfalse.symm Bool.false_ne_true, _, hpush, ?_, ?_, ?_, ?_⟩
        · rw [if_pos rfl, contents_cons (flatten_push pre _ ns post) he.holds.keys_nodup hnone, hcontents]
        · rw [← he.otherEntries]
          exact otherEntries_push (fun a ha => Function.update_of_ne ha _ _) hfree
        · rw [if_pos rfl, ← he.otherValues]
          exact otherValues_push rfl
        · dsimp only
          rw [hentries, UInt32.toNat_add, UInt32.toNat_one]
          exact Nat.mod_le ..

end Insert

end Olaf.HashTable
