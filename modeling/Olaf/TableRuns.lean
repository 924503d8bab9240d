import Mathlib.Data.Set.Finite.Basic
import Mathlib.Data.Nat.Find
import Olaf.Insertion
/-!
# The chained hash table over whole runs (`hash-table.c`)

| here | there |
| --- | --- |
| `removeKeyLoop`, `removeKey` | `hash_table_remove` (`:383`), with a pointer to a key outside the table |
| `Operation`, `perform`, `run` | calls of `hash_table_insert`, `hash_table_lookup` and `hash_table_remove`, by a caller that puts every value in memory of its own |

The table is a map from keys for as long as it exists (`run_map`), whatever memory there is for an insertion and wherever
`malloc` finds it, and `hash_table_free` gives back what the table has and nothing else. What is left then is what was there
before and, of insertions that failed, the values that their caller has not freed (`Leaves`). The count of entries is a `uint32_t`,
so a run has no more than 2^31 insertions.
-/

namespace Olaf.HashTable
open Checked Segments

variable {V K : Type}

section Remove
variable [DecidableEq K] (keyOf : V → K) (hash : K → Nat)

namespace Table

def removeKeyLoop (key : K) : (fuel : Nat) → Rover → Table V → Option (Table V × Bool)
  | 0, _, _ => none
  | fuel + 1, rover, t => do
    match ← t.load rover with
    | none => return (t, false)
    | some entry =>
      let e ← t.entryAt entry
      if key = (← t.keyAt keyOf e.pair.key) then
        let t ← t.assign rover e.next
        let t ← t.freeEntry entry
        return ({ t with entries := t.entries - 1 }, true)
      else removeKeyLoop key fuel (.link entry) t

def removeKey (t : Table V) (key : K) : Option (Table V × Bool) :=
  removeKeyLoop keyOf key (t.entries.toNat + 1) (.head (hash key % t.table.length)) t

end Table

variable {keyOf hash} {t : Table V} {chains pre post : List (List (Node V))} {ns front back : List (Node V)} {x : Node V}

/-- The key is read before the value that it is in is freed. -/
theorem removeLoop_eq {key : K} {pointer : Nat} (hkey : t.keyAt keyOf pointer = some key) (fuel : Nat) (rover : Rover) :
    t.removeLoop keyOf pointer fuel rover = t.removeKeyLoop keyOf key fuel rover := by
  induction fuel generalizing rover with
  | zero => rfl
  | succ fuel ih =>
    rw [Table.removeLoop, Table.removeKeyLoop, hkey]
    refine congrArg (t.load rover >>= ·) (funext fun entry => ?_)
    cases entry with
    | none => rfl
    | some entry =>
      refine congrArg (t.entryAt entry >>= ·) (funext fun e => ?_)
      dsimp only [Option.bind_eq_bind, Option.bind_some]
      rw [ih]

/-- No entry has the key. -/
theorem Holds.removeKeyLoop {passed rest : List (Node V)} (h : Holds keyOf hash t (pre ++ (passed ++ rest) :: post)) {key : K}
    (hkey : ∀ n ∈ rest, keyOf n.item ≠ key) {fuel : Nat} (hfuel : rest.length < fuel) :
    t.removeKeyLoop keyOf key fuel (roverAt pre.length passed) = some (t, false) := by
  induction rest generalizing passed fuel with
  | nil =>
    obtain ⟨fuel, rfl⟩ := Nat.exists_eq_add_one_of_ne_zero (show fuel ≠ 0 by omega)
    rw [Table.removeKeyLoop, h.load]
    rfl
  | cons n rest ih =>
    obtain ⟨fuel, rfl⟩ := Nat.exists_eq_add_one_of_ne_zero (show fuel ≠ 0 by omega)
    have hnode : t.keyAt keyOf n.value = some (keyOf n.item) := by
      rw [Table.keyAt, (h.stored n (by simp)).2, Option.map_some]
    rw [Table.removeKeyLoop, h.load]
    dsimp only [Option.bind_eq_bind, Option.bind_some, List.head?_cons, Option.map_some]
    rw [h.entry_focus]
    dsimp only [Option.bind_eq_bind, Option.bind_some]
    rw [hnode]
    dsimp only [Option.bind_some]
    rw [if_neg (Ne.symm (hkey n List.mem_cons_self)), ← roverAt_concat pre.length passed n]
    refine ih ?_ (fun m hm => hkey m (List.mem_cons_of_mem _ hm)) (by simpa using hfuel)
    rw [List.append_assoc]
    exact h

theorem removeKey_absent (h : Holds keyOf hash t chains) {key : K} (hkey : ∀ n ∈ chains.flatten, keyOf n.item ≠ key) :
    t.removeKey keyOf hash key = some (t, false) := by
  obtain ⟨pre, ns, post, rfl, hpre⟩ := exists_focus (h.index_lt key)
  rw [Table.removeKey, h.size, ← hpre, ← roverAt_nil (V := V)]
  refine Holds.removeKeyLoop h (fun n hn => hkey n ?_) (Nat.lt_succ_of_le h.length_le)
  exact List.mem_flatten_of_mem (List.mem_append_right _ List.mem_cons_self) hn

omit [DecidableEq K] in
theorem assign_frame {rover : Rover} {p : Option Nat} {u : Table V} (hassign : t.assign rover p = some u) :
    u.valueAt = t.valueAt ∧ ∀ a, rover ≠ .link a → u.entryAt a = t.entryAt a := by
  cases rover with
  | head index =>
    rw [Table.assign] at hassign
    split at hassign
    · obtain rfl := Option.some.inj hassign
      exact ⟨rfl, fun _ _ => rfl⟩
    · cases hassign
  | link entry =>
    rw [Table.assign, Option.map_eq_some_iff] at hassign
    obtain ⟨e, _, rfl⟩ := hassign
    refine ⟨rfl, fun a ha => Function.update_of_ne ?_ _ _⟩
    rintro rfl
    exact ha rfl

/-- What is outside the table stays. -/
structure Unlinked (t : Table V) (chains : List (List (Node V))) (x : Node V) (r : Table V × Bool) : Prop where
  entries : ∀ a, a ∉ chains.flatten.map Node.entry → r.1.entryAt a = t.entryAt a
  values : ∀ a, a ≠ x.value → r.1.valueAt a = t.valueAt a

omit [DecidableEq K] in
theorem Holds.unlink_frame (h : Holds keyOf hash t (pre ++ (front ++ x :: back) :: post)) {r : Table V × Bool}
    (hunlink : HashTable.unlink t (roverAt pre.length front) ⟨⟨x.value, x.value⟩, back.head?.map Node.entry⟩ x.entry = some r) :
    Unlinked t (pre ++ (front ++ x :: back) :: post) x r := by
  obtain ⟨u, hassign, hrest⟩ := Option.bind_eq_some_iff.1 hunlink
  obtain ⟨v, hfree, hreturn⟩ := Option.bind_eq_some_iff.1 hrest
  obtain rfl := Option.some.inj hreturn
  obtain ⟨hvalues, hentries⟩ := assign_frame hassign
  obtain ⟨u', hassign', hbypass⟩ := h.assign
  rw [hassign] at hassign'
  obtain rfl := Option.some.inj hassign'
  rw [Table.freeEntry, hbypass.self, h.entry_focus] at hfree
  obtain ⟨e, he, hfree⟩ := Option.bind_eq_some_iff.1 hfree
  obtain rfl := Option.some.inj he
  obtain ⟨_, _, hfree⟩ := Option.bind_eq_some_iff.1 hfree
  obtain rfl := Option.some.inj hfree
  have hmem : ∀ {n : Node V}, n ∈ front ++ x :: back → n ∈ (pre ++ (front ++ x :: back) :: post).flatten :=
    fun hn => List.mem_flatten_of_mem (List.mem_append_right _ List.mem_cons_self) hn
  refine ⟨fun a ha => ?_, fun a ha => ?_⟩
  · have hx : a ≠ x.entry := by
      rintro rfl
      exact ha (List.mem_map_of_mem (hmem (by simp)))
    dsimp only
    rw [Function.update_of_ne hx]
    refine hentries a fun hrover => ?_
    rcases List.eq_nil_or_concat front with rfl | ⟨front, l, rfl⟩
    · rw [roverAt_nil] at hrover
      cases hrover
    · rw [List.concat_eq_append, roverAt_concat] at hrover
      obtain rfl := Rover.link.inj hrover
      exact ha (List.mem_map_of_mem (hmem (by simp)))
  · dsimp only
    rw [Function.update_of_ne ha, hvalues]

/-- What a removal does to a table with `chains`. -/
structure RemovedKey (keyOf : V → K) (hash : K → Nat) (t : Table V) (chains : List (List (Node V))) (key : K)
    (chains' : List (List (Node V))) (r : Table V × Bool) : Prop where
  holds : Holds keyOf hash r.1 chains'
  done : r.2 = (contents keyOf chains key).isSome
  contents : contents keyOf chains' = Function.update (contents keyOf chains) key none
  otherEntries : otherEntries r.1 chains' = otherEntries t chains
  otherValues : otherValues r.1 chains' = otherValues t chains
  entries : r.1.entries.toNat ≤ t.entries.toNat

/-- **A removal takes the key out of the map**, and frees its entry and its value. -/
theorem removeKey_returns (h : Holds keyOf hash t chains) (key : K) :
    Returns (t.removeKey keyOf hash key) fun r => ∃ chains', RemovedKey keyOf hash t chains key chains' r := by
  by_cases hkey : ∃ n ∈ chains.flatten, keyOf n.item = key
  · obtain ⟨x, hx, rfl⟩ := hkey
    obtain ⟨pre, front, back, post, rfl⟩ := exists_node hx
    have hpointer : t.keyAt keyOf x.value = some (keyOf x.item) := by
      rw [Table.keyAt, (h.stored x hx).2, Option.map_some]
    have hindex := h.hashed _ _ (getElem?_focus pre _ post) x (by simp)
    obtain ⟨r, hr, hremoved⟩ := remove_returns h
    have hloop : t.removeKey keyOf hash (keyOf x.item) = some r := by
      rw [Table.remove, hpointer] at hr
      rw [← hr, Table.removeKey, ← removeLoop_eq hpointer]
      rfl
    have hframe : Unlinked t (pre ++ (front ++ x :: back) :: post) x r := by
      refine h.unlink_frame ?_
      rw [← hloop, Table.removeKey, ← removeLoop_eq hpointer, h.size, hindex, ← roverAt_nil (V := V),
        h.removeLoop (List.nil_append front).symm]
      rw [h.count, flatten_focus]
      simp only [List.length_append, List.length_cons]
      omega
    have hothers := contents_focus h.keys_nodup
    have hwithout : contents keyOf (pre ++ (front ++ back) :: post) = contents keyOf [pre.flatten ++ front ++ (back ++ post.flatten)] := by
      have hkeys := h.keys_nodup
      rw [flatten_focus] at hkeys
      refine contents_perm ?_ ?_
      · rw [List.flatten_singleton]
        exact (nodup_focus hkeys).2
      · rw [flatten_without, List.flatten_singleton]
    have hnone : contents keyOf [pre.flatten ++ front ++ (back ++ post.flatten)] (keyOf x.item) = none := by
      have hkeys := h.keys_nodup
      rw [flatten_focus] at hkeys
      rw [contents_eq_none, List.flatten_singleton]
      exact (nodup_focus hkeys).1
    refine ⟨r, hloop, _, hremoved.holds, ?_, ?_, ?_, ?_, ?_⟩
    · rw [hremoved.found, hothers, Function.update_self]
      rfl
    · rw [hwithout, hothers, Function.update_idem, ← hnone, Function.update_eq_self]
    · funext a
      have hmem : a ∈ (pre ++ (front ++ x :: back) :: post).flatten.map Node.entry ↔
          a = x.entry ∨ a ∈ (pre ++ (front ++ back) :: post).flatten.map Node.entry := by
        rw [flatten_focus, flatten_without, (List.perm_middle.map Node.entry).mem_iff, List.map_cons, List.mem_cons]
      by_cases ha : a ∈ (pre ++ (front ++ x :: back) :: post).flatten.map Node.entry
      · rw [otherEntries, otherEntries, if_pos ha, ite_eq_left_iff]
        intro hgone
        rw [(hmem.1 ha).resolve_right hgone]
        exact hremoved.entry
      · rw [otherEntries, otherEntries, if_neg ha, if_neg fun hgone => ha (hmem.2 (Or.inr hgone)), hframe.entries a ha]
    · funext a
      have hmem : a ∈ (pre ++ (front ++ x :: back) :: post).flatten.map Node.value ↔
          a = x.value ∨ a ∈ (pre ++ (front ++ back) :: post).flatten.map Node.value := by
        rw [flatten_focus, flatten_without, (List.perm_middle.map Node.value).mem_iff, List.map_cons, List.mem_cons]
      by_cases hx : a = x.value
      · rw [otherValues, otherValues, if_pos (hmem.2 (Or.inl hx)), hx, hremoved.value, ite_self]
      · rw [otherValues, otherValues, hframe.values a hx]
        simp only [hmem, hx, false_or]
    · rw [hremoved.holds.count, h.count, flatten_focus, flatten_without]
      simp only [List.length_append, List.length_cons]
      omega
  · have hnone : ∀ n ∈ chains.flatten, keyOf n.item ≠ key := fun n hn heq => hkey ⟨n, hn, heq⟩
    have hcontents := contents_eq_none.2 hnone
    rw [removeKey_absent h hnone]
    refine Returns.pure ⟨chains, h, ?_, ?_, rfl, rfl, Nat.le_refl _⟩
    · rw [hcontents]
      rfl
    · rw [← hcontents, Function.update_eq_self]

end Remove

/-! ## Freeing the table -/

section Free
variable {keyOf : V → K} {hash : K → Nat} {t u : Table V} {chains pre post : List (List (Node V))} {ns done rest : List (Node V)}

/-- The nodes `done` are freed, and nothing else is. -/
structure Freed (t : Table V) (done : List (Node V)) (u : Table V) : Prop where
  entries : u.entryAt = fun a => if a ∈ done.map Node.entry then none else t.entryAt a
  values : u.valueAt = fun a => if a ∈ done.map Node.value then none else t.valueAt a

theorem update_freed {C : Type} {f : Nat → Option C} {as : List Nat} {a : Nat} :
    Function.update (fun b => if b ∈ as then none else f b) a none = fun b => if b ∈ as ++ [a] then none else f b := by
  funext b
  by_cases hb : b = a
  · rw [hb, Function.update_self, if_pos (by simp)]
  · rw [Function.update_of_ne hb]
    simp only [List.mem_append, List.mem_singleton, hb, or_false]

theorem Freed.freeChain (h : Holds keyOf hash t chains) (hf : Freed t done u) {p : Option Nat}
    (hseg : Segment t.entryAt Entry.next p (ns.map Node.entry) none) (hsplit : chains.flatten = done ++ (ns ++ rest)) {fuel : Nat}
    (hfuel : ns.length ≤ fuel) : Returns (u.freeChain fuel p) (Freed t (done ++ ns)) := by
  induction ns generalizing p done u fuel with
  | nil =>
    obtain rfl : p = none := hseg
    rw [List.append_nil]
    cases fuel <;> exact Returns.pure hf
  | cons x ns ih =>
    obtain ⟨rfl, e, he, hrest⟩ := hseg
    obtain ⟨fuel, rfl⟩ := Nat.exists_eq_add_one_of_ne_zero (show fuel ≠ 0 by rw [List.length_cons] at hfuel; omega)
    obtain ⟨hpair, hvalue⟩ := h.stored x (by rw [hsplit]; simp)
    have hentries := h.entries_nodup
    have hvalues := h.values_nodup
    rw [hsplit] at hentries hvalues
    -- neither has been freed before
    have hentry : u.entryAt x.entry = some e := by
      rw [hf.entries]
      refine (if_neg fun hmem => ?_).trans he
      obtain ⟨n, hn, heq⟩ := List.mem_map.1 hmem
      exact (nodup_focus hentries).1 n (List.mem_append_left _ hn) heq
    have hitem : u.valueAt x.value = some x.item := by
      rw [hf.values]
      refine (if_neg fun hmem => ?_).trans hvalue
      obtain ⟨n, hn, heq⟩ := List.mem_map.1 hmem
      exact (nodup_focus hvalues).1 n (List.mem_append_left _ hn) heq
    rw [he, Option.map_some, Option.some.injEq] at hpair
    rw [Table.freeChain, hentry]
    dsimp only [Option.bind_eq_bind, Option.bind_some]
    rw [Table.freeEntry, hentry]
    dsimp only [Option.bind_eq_bind, Option.bind_some]
    rw [hpair, hitem]
    have hnext : Freed t (done ++ [x]) { u with
        valueAt := Function.update u.valueAt x.value none
        entryAt := Function.update u.entryAt x.entry none } := by
      refine ⟨?_, ?_⟩
      · rw [hf.entries, List.map_append]
        exact update_freed
      · rw [hf.values, List.map_append]
        exact update_freed
    have hloop := ih hnext hrest (by rw [hsplit, List.append_assoc]; rfl) (show ns.length ≤ fuel by simpa using hfuel)
    rw [List.append_assoc] at hloop
    exact hloop

theorem Freed.freeAll (h : Holds keyOf hash t (pre ++ post)) (hf : Freed t pre.flatten u) :
    Returns ((post.map fun ns => ns.head?.map Node.entry).foldlM (fun u rover => u.freeChain t.entries.toNat rover) u)
      (Freed t (pre ++ post).flatten) := by
  induction post generalizing pre u with
  | nil =>
    rw [List.append_nil]
    exact Returns.pure hf
  | cons ns post ih =>
    rw [List.map_cons, List.foldlM_cons]
    refine (hf.freeChain h h.head.2 (by rw [List.flatten_append, List.flatten_cons]) h.length_le).bind fun u' hu' => ?_
    rw [List.append_cons] at h ⊢
    refine ih h ?_
    rw [List.flatten_append, List.flatten_singleton]
    exact hu'

/-- **Every entry and every value of the table is freed once**, and what is left is what was not in the table. -/
theorem free_eq (h : Holds keyOf hash t chains) : t.free = some (otherEntries t chains, otherValues t chains) := by
  have hstart : Freed t (List.flatten ([] : List (List (Node V)))) t := ⟨by simp, by simp⟩
  obtain ⟨u, hu, hf⟩ := Freed.freeAll (show Holds keyOf hash t ([] ++ chains) from h) hstart
  rw [Table.free, h.table_eq, hu]
  dsimp only [Option.bind_eq_bind, Option.bind_some]
  rw [hf.entries, hf.values]
  rfl

end Free

/-! ## Runs -/

inductive Operation (V K : Type)
  /-- With the memory that there is for the value, for an entry and for a larger table. -/
  | insert (item : V) (value : Malloc V) (entry : Malloc Entry) (calloc : Bool)
  | lookup (key : K)
  | remove (key : K)

inductive Answer (V : Type)
  | inserted (done : Bool)
  | found (item : Option V)
  | removed (done : Bool)

section Run
variable [DecidableEq K] (keyOf : V → K) (hash : K → Nat)

/-- A caller that gets no memory for a value does not insert it. -/
def perform (t : PrimeTable V) : Operation V K → Option (PrimeTable V × Answer V)
  | .insert item value entry calloc =>
    match value.pick t.valueAt with
    | none => some (t, .inserted false)
    | some a => do
      let t := { t with valueAt := Function.update t.valueAt a (some item) }
      let (t, done) ← t.insert keyOf hash calloc entry a
      return (t, .inserted done)
  | .lookup key => do
    match ← t.lookup keyOf hash key with
    | none => return (t, .found none)
    | some a =>
      let item ← t.valueAt a
      return (t, .found (some item))
  | .remove key => do
    let (u, done) ← t.removeKey keyOf hash key
    return ({ t with toTable := u }, .removed done)

def run (t : PrimeTable V) : List (Operation V K) → Option (PrimeTable V × List (Answer V))
  | [] => some (t, [])
  | o :: os => do
    let (t, answer) ← perform keyOf hash t o
    let (t, answers) ← run t os
    return (t, answer :: answers)

end Run

/-- There is memory as long as not everything is taken. -/
def Malloc.Infallible {C : Type} (malloc : Malloc C) : Prop :=
  ∀ memory : Nat → Option C, {a | memory a ≠ none}.Finite → malloc.pick memory ≠ none

/-- What a map answers. An insertion only fails for lack of memory. -/
def Answers (m : K → Option V) : Operation V K → Answer V → Prop
  | .insert _ value entry calloc, .inserted done => value.Infallible → entry.Infallible → calloc = true → done = true
  | .lookup key, .found item => item = m key
  | .remove key, .removed done => done = (m key).isSome
  | _, _ => False

/-- What becomes of the map. -/
def after [DecidableEq K] (keyOf : V → K) (m : K → Option V) : Operation V K → Answer V → K → Option V
  | .insert item _ _ _, .inserted true => Function.update m (keyOf item) (some item)
  | .remove key, .removed _ => Function.update m key none
  | _, _ => m

/-- The value that an operation has not put in the table. -/
def refused : Operation V K → Answer V → List V
  | .insert item _ _ _, .inserted false => [item]
  | _, _ => []

/-- The values of the insertions of a run that failed, in order. -/
def refusals (os : List (Operation V K)) (answers : List (Answer V)) : List V := (List.zipWith refused os answers).flatten

/-- Refused values are left in memory, each at a free address of its own, if there was memory for them. -/
inductive Leaves : List V → (Nat → Option V) → (Nat → Option V) → Prop
  | nil (valueAt : Nat → Option V) : Leaves [] valueAt valueAt
  | unallocated {items : List V} {valueAt valueAt' : Nat → Option V} (item : V) (hrest : Leaves items valueAt valueAt') :
      Leaves (item :: items) valueAt valueAt'
  | leaked {items : List V} {valueAt valueAt' : Nat → Option V} (item : V) {a : Nat} (hfree : valueAt a = none)
      (hrest : Leaves items (Function.update valueAt a (some item)) valueAt') : Leaves (item :: items) valueAt valueAt'

theorem Leaves.append {items items' : List V} {valueAt valueAt' valueAt'' : Nat → Option V} (h : Leaves items valueAt valueAt')
    (h' : Leaves items' valueAt' valueAt'') : Leaves (items ++ items') valueAt valueAt'' := by
  induction h with
  | nil => exact h'
  | unallocated item _ ih => exact .unallocated item (ih h')
  | leaked item hfree _ ih => exact .leaked item hfree (ih h')

/-- What was in memory is still there. -/
theorem Leaves.outside {items : List V} {valueAt valueAt' : Nat → Option V} (h : Leaves items valueAt valueAt') {a : Nat}
    (ha : valueAt a ≠ none) : valueAt' a = valueAt a := by
  induction h with
  | nil => rfl
  | unallocated _ _ ih => exact ih ha
  | leaked item hfree _ ih =>
    have hne : a ≠ _ := fun heq => ha (heq ▸ hfree)
    rw [ih (by rwa [Function.update_of_ne hne]), Function.update_of_ne hne]

/-- The answers of a run are those of a map, which ends as `m'`. -/
inductive MapRun [DecidableEq K] (keyOf : V → K) : (K → Option V) → List (Operation V K) → List (Answer V) → (K → Option V) → Prop
  | nil (m : K → Option V) : MapRun keyOf m [] [] m
  | cons {m m' : K → Option V} {o : Operation V K} {os : List (Operation V K)} {answer : Answer V} {answers : List (Answer V)}
      (hanswer : Answers m o answer) (hrest : MapRun keyOf (after keyOf m o answer) os answers m') :
      MapRun keyOf m (o :: os) (answer :: answers) m'

/-- The table is the map `m`, and beside it there are `entryAt` and `valueAt` in memory. -/
structure Represents [DecidableEq K] (keyOf : V → K) (hash : K → Nat) (t : PrimeTable V) (m : K → Option V)
    (entryAt : Nat → Option Entry) (valueAt : Nat → Option V) (chains : List (List (Node V))) : Prop where
  holds : Holds keyOf hash t.toTable chains
  map : ∀ key, (contents keyOf chains key).map Prod.snd = m key
  otherEntries : otherEntries t.toTable chains = entryAt
  otherValues : otherValues t.toTable chains = valueAt

section Represents
variable {keyOf : V → K} {hash : K → Nat} {t : PrimeTable V} {u : Table V} {m : K → Option V} {entryAt : Nat → Option Entry}
  {valueAt : Nat → Option V} {chains : List (List (Node V))}

theorem finite_entries (h : {a | otherEntries u chains a ≠ none}.Finite) : {a | u.entryAt a ≠ none}.Finite := by
  refine (h.union (List.finite_toSet (chains.flatten.map Node.entry))).subset fun a ha => ?_
  by_cases hmem : a ∈ chains.flatten.map Node.entry
  · exact Or.inr hmem
  · refine Or.inl ?_
    rw [Set.mem_ofPred_eq, otherEntries, if_neg hmem]
    exact ha

theorem finite_values (h : {a | otherValues u chains a ≠ none}.Finite) : {a | u.valueAt a ≠ none}.Finite := by
  refine (h.union (List.finite_toSet (chains.flatten.map Node.value))).subset fun a ha => ?_
  by_cases hmem : a ∈ chains.flatten.map Node.value
  · exact Or.inr hmem
  · refine Or.inl ?_
    rw [Set.mem_ofPred_eq, otherValues, if_neg hmem]
    exact ha

theorem Holds.value_ne (h : Holds keyOf hash u chains) {a : Nat} (ha : u.valueAt a = none) : ∀ n ∈ chains.flatten, n.value ≠ a := by
  rintro n hn rfl
  have hstored := (h.stored n hn).2
  rw [ha] at hstored
  cases hstored

/-- A value that is put beside the table. -/
theorem Holds.setValue (h : Holds keyOf hash u chains) {a : Nat} (ha : ∀ n ∈ chains.flatten, n.value ≠ a) (item : Option V) :
    Holds keyOf hash { u with valueAt := Function.update u.valueAt a item } chains where
  size := h.size
  nonempty := h.nonempty
  chain := h.chain
  stored n hn := by
    dsimp only
    rw [Function.update_of_ne (ha n hn)]
    exact h.stored n hn
  entries_nodup := h.entries_nodup
  values_nodup := h.values_nodup
  keys_nodup := h.keys_nodup
  hashed := h.hashed
  count := h.count

theorem otherValues_setValue {a : Nat} (ha : ∀ n ∈ chains.flatten, n.value ≠ a) (item : Option V) :
    otherValues { u with valueAt := Function.update u.valueAt a item } chains = Function.update (otherValues u chains) a item := by
  funext b
  by_cases hb : b = a
  · have hmem : a ∉ chains.flatten.map Node.value := fun hmem => (List.mem_map.1 hmem).elim fun n hn => ha n hn.1 hn.2
    rw [hb, Function.update_self, otherValues, if_neg hmem]
    exact Function.update_self ..
  · rw [Function.update_of_ne hb, otherValues, otherValues]
    dsimp only
    rw [Function.update_of_ne hb]

variable [DecidableEq K]

/-- What an operation leaves. -/
structure Performed (keyOf : V → K) (hash : K → Nat) (t : PrimeTable V) (m : K → Option V) (entryAt : Nat → Option Entry)
    (valueAt : Nat → Option V) (o : Operation V K) (r : PrimeTable V × Answer V) : Prop where
  answers : Answers m o r.2
  represents : ∃ valueAt' chains', Represents keyOf hash r.1 (after keyOf m o r.2) entryAt valueAt' chains' ∧
    {a | valueAt' a ≠ none}.Finite ∧ Leaves (refused o r.2) valueAt valueAt'

theorem perform_insert (h : Represents keyOf hash t m entryAt valueAt chains) (hentries : {a | entryAt a ≠ none}.Finite)
    (hvalues : {a | valueAt a ≠ none}.Finite) (hlt : t.entries.toNat < 2 ^ 31) (item : V) (value : Malloc V) (entry : Malloc Entry)
    (calloc : Bool) : Returns (perform keyOf hash t (.insert item value entry calloc)) fun r =>
      Performed keyOf hash t m entryAt valueAt (.insert item value entry calloc) r ∧ r.1.entries.toNat ≤ t.entries.toNat + 1 ∧
      (r.2 = .inserted false → value.pick t.valueAt = none ∨ (calloc = false ∧ t.Crowded) ∨ entry.pick r.1.entryAt = none) := by
  rw [perform]
  cases hpick : value.pick t.valueAt with
  | none =>
    refine Returns.pure ⟨⟨fun hvalue _ _ => ?_, valueAt, chains, h, hvalues, .unallocated item (.nil _)⟩, Nat.le_succ _,
      fun _ => Or.inl rfl⟩
    rw [← h.otherValues] at hvalues
    exact absurd hpick (hvalue _ (finite_values hvalues))
  | some a =>
    have hfree := value.fresh _ _ hpick
    have hne := h.holds.value_ne hfree
    have hbeside : valueAt a = none := by
      rw [← h.otherValues, otherValues, hfree, ite_self]
    have hset : otherValues { t.toTable with valueAt := Function.update t.valueAt a (some item) } chains =
        Function.update valueAt a (some item) := by rw [otherValues_setValue hne, h.otherValues]
    obtain ⟨⟨u, done⟩, hr, hfail, chains', hinserted⟩ := insert_returns
      (t := { t with valueAt := Function.update t.valueAt a (some item) }) (h.holds.setValue hne (some item)) hlt
      (Function.update_self ..) hne calloc entry
    dsimp only
    rw [hr]
    have hother : otherEntries u.toTable chains' = entryAt := hinserted.otherEntries.trans h.otherEntries
    have hmap := hinserted.contents
    have hleft := hinserted.otherValues
    dsimp only at hfail hmap hleft
    rw [hset] at hleft
    refine Returns.pure ⟨⟨fun _ hentry hcalloc => ?_, _, chains', ⟨hinserted.holds, ?_, hother, rfl⟩, ?_, ?_⟩,
      hinserted.entries, fun hanswer => Or.inr (hfail (Answer.inserted.inj hanswer))⟩
    · rw [← Bool.not_eq_false]
      intro hdone
      rw [← hother] at hentries
      rcases hfail hdone with ⟨hno, _⟩ | hno
      · rw [hcalloc] at hno
        cases hno
      · exact hentry _ (finite_entries hentries) hno
    · intro key
      rw [hmap]
      cases done with
      | false => exact h.map key
      | true =>
        rw [if_pos rfl, after]
        by_cases hkey : key = keyOf item
        · rw [hkey, Function.update_self, Function.update_self]
          rfl
        · rw [Function.update_of_ne hkey, Function.update_of_ne hkey, h.map]
    · rw [hleft]
      refine (hvalues.insert a).subset fun b hb => ?_
      by_cases hba : b = a
      · exact Or.inl hba
      · refine Or.inr ?_
        cases done <;> simpa [Function.update_of_ne hba] using hb
    · rw [hleft]
      cases done with
      | false => exact .leaked item hbeside (.nil _)
      | true =>
        rw [if_pos rfl, Function.update_idem, ← hbeside, Function.update_eq_self]
        exact .nil _

theorem perform_lookup (h : Represents keyOf hash t m entryAt valueAt chains) (hvalues : {a | valueAt a ≠ none}.Finite) (key : K) :
    Returns (perform keyOf hash t (.lookup key)) fun r =>
      Performed keyOf hash t m entryAt valueAt (.lookup key) r ∧ r.1 = t := by
  rw [perform, lookup_eq h.holds]
  dsimp only [Option.bind_eq_bind, Option.bind_some]
  have hkey := h.map key
  cases hc : contents keyOf chains key with
  | none =>
    rw [hc] at hkey
    exact Returns.pure ⟨⟨hkey, valueAt, chains, h, hvalues, .nil _⟩, rfl⟩
  | some r =>
    rw [hc] at hkey
    obtain ⟨x, hx, rfl⟩ := Option.map_eq_some_iff.1 hc
    dsimp only [Option.map_some]
    rw [(h.holds.stored x (List.mem_of_find?_eq_some hx)).2]
    exact Returns.pure ⟨⟨hkey, valueAt, chains, h, hvalues, .nil _⟩, rfl⟩

theorem perform_remove (h : Represents keyOf hash t m entryAt valueAt chains) (hvalues : {a | valueAt a ≠ none}.Finite) (key : K) :
    Returns (perform keyOf hash t (.remove key)) fun r =>
      Performed keyOf hash t m entryAt valueAt (.remove key) r ∧ r.1.entries.toNat ≤ t.entries.toNat := by
  refine (removeKey_returns h.holds key).bind fun r hr => ?_
  obtain ⟨u, done⟩ := r
  obtain ⟨chains', hremoved⟩ := hr
  refine Returns.pure ⟨⟨?_, valueAt, chains', ⟨hremoved.holds, ?_, hremoved.otherEntries.trans h.otherEntries,
    hremoved.otherValues.trans h.otherValues⟩, hvalues, .nil _⟩, hremoved.entries⟩
  · have hdone := hremoved.done
    dsimp only at hdone
    rw [Answers, hdone, ← h.map key, Option.isSome_map]
  · intro key'
    rw [hremoved.contents, after]
    by_cases hkey : key' = key
    · rw [hkey, Function.update_self, Function.update_self]
      rfl
    · rw [Function.update_of_ne hkey, Function.update_of_ne hkey, h.map]

/-- Whether an operation is an insertion. -/
def Operation.isInsert : Operation V K → Bool
  | .insert .. => true
  | _ => false

/-- **A step of a run.** -/
theorem perform_returns (h : Represents keyOf hash t m entryAt valueAt chains) (hentries : {a | entryAt a ≠ none}.Finite)
    (hvalues : {a | valueAt a ≠ none}.Finite) (o : Operation V K) (hlt : o.isInsert = true → t.entries.toNat < 2 ^ 31) :
    Returns (perform keyOf hash t o) fun r => Performed keyOf hash t m entryAt valueAt o r ∧
      r.1.entries.toNat ≤ t.entries.toNat + o.isInsert.toNat := by
  cases o with
  | insert item value entry calloc =>
    exact (perform_insert h hentries hvalues (hlt rfl) item value entry calloc).mono fun r hr => ⟨hr.1, hr.2.1⟩
  | lookup key => exact (perform_lookup h hvalues key).mono fun r hr => ⟨hr.1, hr.2 ▸ Nat.le_refl _⟩
  | remove key => exact perform_remove h hvalues key

/-- What a run answers, and what is left when the table is freed. -/
structure RunOf (keyOf : V → K) (m : K → Option V) (entryAt : Nat → Option Entry) (valueAt : Nat → Option V)
    (os : List (Operation V K)) (r : PrimeTable V × List (Answer V)) : Prop where
  map : ∃ m', MapRun keyOf m os r.2 m'
  freed : ∃ valueAt', r.1.free = some (entryAt, valueAt') ∧ Leaves (refusals os r.2) valueAt valueAt' ∧
    ∀ a, valueAt a ≠ none → valueAt' a = valueAt a

theorem run_returns (hentries : {a | entryAt a ≠ none}.Finite) (os : List (Operation V K))
    (h : Represents keyOf hash t m entryAt valueAt chains) (hvalues : {a | valueAt a ≠ none}.Finite)
    (hlt : t.entries.toNat + os.countP Operation.isInsert ≤ 2 ^ 31) :
    Returns (run keyOf hash t os) (RunOf keyOf m entryAt valueAt os) := by
  induction os generalizing t m valueAt chains with
  | nil =>
    refine Returns.pure ⟨⟨m, .nil m⟩, valueAt, ?_, .nil _, fun _ _ => rfl⟩
    rw [free_eq h.holds, h.otherEntries, h.otherValues]
  | cons o os ih =>
    have hcount : (o :: os).countP Operation.isInsert = os.countP Operation.isInsert + o.isInsert.toNat := by
      rw [List.countP_cons]
      cases o.isInsert <;> rfl
    rw [hcount] at hlt
    refine (perform_returns h hentries hvalues o fun ho => ?_).bind fun r hr => ?_
    · rw [ho, Bool.toNat_true] at hlt
      omega
    · obtain ⟨⟨hanswers, valueAt', chains', h', hvalues', hleaves⟩, hle⟩ := hr
      refine (ih h' hvalues' (by omega)).bind fun rest hrest => ?_
      obtain ⟨m', hmap⟩ := hrest.map
      obtain ⟨left, hfree, hleft, _⟩ := hrest.freed
      have hall : Leaves (refusals (o :: os) (r.2 :: rest.2)) valueAt left := by
        rw [refusals, List.zipWith_cons_cons, List.flatten_cons]
        exact hleaves.append hleft
      exact Returns.pure ⟨⟨m', .cons hanswers hmap⟩, left, hfree, hall, fun a => hall.outside⟩

end Represents

theorem new_represents [DecidableEq K] (keyOf : V → K) (hash : K → Nat) {malloc calloc : Bool} {entryAt : Nat → Option Entry}
    {valueAt : Nat → Option V} {t : PrimeTable V} (hnew : new malloc calloc entryAt valueAt = some t) :
    t.entries = 0 ∧ ∃ chains, Represents keyOf hash t (fun _ => none) entryAt valueAt chains := by
  have ht : (newTableSize 0 0).toNat = 193 := rfl
  rw [new, ht] at hnew
  split at hnew
  · obtain rfl := Option.some.inj hnew
    have hflat : (List.replicate 193 ([] : List (Node V))).flatten = [] := List.flatten_replicate_nil
    refine ⟨rfl, _, holds_empty (by decide) keyOf hash entryAt valueAt, fun key => ?_, ?_, ?_⟩
    · rw [contents, hflat]
      rfl
    · funext a
      rw [otherEntries, hflat]
      rfl
    · funext a
      rw [otherValues, hflat]
      rfl
  · cases hnew

/-- **The table answers as a map does, over any run from `hash_table_new` on**, and `hash_table_free` leaves the memory as it
was before, but for values whose insertion has failed. -/
theorem run_map [DecidableEq K] (keyOf : V → K) (hash : K → Nat) {malloc calloc : Bool} {entryAt : Nat → Option Entry}
    {valueAt : Nat → Option V} (hentries : {a | entryAt a ≠ none}.Finite) (hvalues : {a | valueAt a ≠ none}.Finite)
    {t : PrimeTable V} (hnew : new malloc calloc entryAt valueAt = some t) (os : List (Operation V K))
    (hos : os.countP Operation.isInsert ≤ 2 ^ 31) :
    Returns (run keyOf hash t os) (RunOf keyOf (fun _ => none) entryAt valueAt os) := by
  obtain ⟨hzero, chains, h⟩ := new_represents keyOf hash hnew
  refine run_returns hentries os h hvalues ?_
  rw [hzero, UInt32.toNat_zero]
  omega

open Classical in
/-- The lowest address that is not in use. -/
noncomputable def lowestFree {C : Type} (memory : Nat → Option C) : Option Nat :=
  if h : ∃ a, memory a = none then some (Nat.find h) else none

theorem lowestFree_fresh {C : Type} (memory : Nat → Option C) (a : Nat) (h : lowestFree memory = some a) : memory a = none := by
  rw [lowestFree] at h
  split at h
  · rename_i hfree
    obtain rfl := Option.some.inj h
    exact Nat.find_spec hfree
  · cases h

noncomputable def firstFree {C : Type} : Malloc C := ⟨lowestFree, lowestFree_fresh⟩

theorem firstFree_infallible {C : Type} : (firstFree : Malloc C).Infallible := by
  intro memory hfinite hnone
  obtain ⟨a, ha⟩ := hfinite.exists_notMem
  have hfree : ∃ a, memory a = none := ⟨a, not_not.1 ha⟩
  have hpick : firstFree.pick memory = some _ := dif_pos hfree
  rw [hpick] at hnone
  cases hnone

/-- A value takes the place of another one with its key. -/
theorem run_map_replaced : Returns
    (run (fun v : Nat => v % 10) (fun key => key)
      { table := List.replicate 193 none, entries := 0, entryAt := fun _ => none, valueAt := fun _ => none, primeIndex := 0 }
      [.insert 13 firstFree firstFree true, .insert 23 firstFree firstFree true, .lookup 3, .remove 3, .lookup 3])
    (RunOf (fun v : Nat => v % 10) (fun _ => none) (fun _ => none) (fun _ => none)
      [.insert 13 firstFree firstFree true, .insert 23 firstFree firstFree true, .lookup 3, .remove 3, .lookup 3]) :=
  run_map (fun v : Nat => v % 10) (fun key => key) (by simp) (by simp)
    (show new true true (fun _ => none) (fun _ => none) = some _ from rfl) _ (by decide)

end Olaf.HashTable
