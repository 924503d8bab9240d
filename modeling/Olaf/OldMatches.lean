import Olaf.FpMatcher
import Olaf.HashTable
/-!
# Removing old matches (`olaf_fp_matcher_remove_old_matches`)

| here | there |
| --- | --- |
| `uint64THash`     | `uint64_t_hash` (`olaf_fp_matcher.c:66`), on the key that the pointer points to |
| `maxAge`          | the local of that name (`:122`) |
| `sweepBody`, `removeOldMatches` | the loop (`:126-138`) and the function; `visited` is the values that it has looked at |

The table is the one of `hash-table.c`, with its chains in memory. The key that is passed to the removal is inside the match
that the removal frees; it is read before that, and the iterator is at the next entry by then. `swept` has what the loop does
turn by turn, and `removeOldMatches_results` that it is what the matcher does to its table as a map from keys.
-/

namespace Olaf.OldMatches
open Checked FpMatcher HashTable

variable {V : Type}

def uint64THash (key : Nat) : Nat := (key % 2 ^ 32) ^^^ (key / 2 ^ 32 % 2 ^ 32)

def maxAge (cfg : Config V) : Int := blocksOf cfg cfg.keepMatchesFor

/-- Whether a match stays. -/
def keeps (maxAge currentQueryTime : Int) (m : MatchResult) : Bool := !decide (currentQueryTime - m.queryFingerprintT1 > maxAge)

structure Sweep where
  table : Table MatchResult
  iterator : Iterator
  visited : List Nat

def sweepBody (maxAge currentQueryTime : Int) (s : Sweep) : Option Sweep := do
  let (iterator, pair) ← s.table.iterNext s.iterator
  let pair ← pair
  let m ← s.table.valueAt pair.value
  let age := currentQueryTime - m.queryFingerprintT1
  if age > maxAge then
    let (table, _) ← s.table.remove MatchResult.resultHashTableKey uint64THash pair.key
    return ⟨table, iterator, s.visited ++ [pair.value]⟩
  else return ⟨s.table, iterator, s.visited ++ [pair.value]⟩

/-- `memory` is what is in the iterator before it is set. -/
def removeOldMatches (cfg : Config V) (t : Table MatchResult) (memory : Nat) (currentQueryTime : Int) : Option Sweep := do
  let iterator ← t.iterate memory
  whileLoop (fun s : Sweep => s.iterator.nextEntry.isSome) (sweepBody (maxAge cfg) currentQueryTime) (t.entries.toNat + 1)
    ⟨t, iterator, []⟩

/-- The table stands for these chains of matches. -/
abbrev Matches (t : Table MatchResult) (chains : List (List (Node MatchResult))) : Prop :=
  Holds MatchResult.resultHashTableKey uint64THash t chains

section Sweep
variable {age now : Int}

/-- What stays of a chain. -/
def kept (age now : Int) (ns : List (Node MatchResult)) : List (Node MatchResult) := ns.filter fun n => keeps age now n.item

theorem kept_concat (age now : Int) (past : List (Node MatchResult)) (n : Node MatchResult) : kept age now (past ++ [n]) =
    if keeps age now n.item = true then kept age now past ++ [n] else kept age now past := by
  by_cases hn : keeps age now n.item = true <;> simp [kept, hn]

/-- The loop has gone through `pre` and `done`, and is at the first node after them. -/
structure At (age now : Int) (chains pre : List (List (Node MatchResult))) (past todo : List (Node MatchResult))
    (post : List (List (Node MatchResult))) (s : Sweep) : Prop where
  chains : chains = pre ++ (past ++ todo) :: post
  holds : Matches s.table (pre.map (kept age now) ++ (kept age now past ++ todo) :: post)
  entry : s.iterator.nextEntry = (firstEntry pre.length (todo :: post)).1
  chain : s.iterator.nextEntry.isSome → s.iterator.nextChain = (firstEntry pre.length (todo :: post)).2
  visited : s.visited = (pre.flatten ++ past).map Node.value
  freed : ∀ n ∈ pre.flatten ++ past, keeps age now n.item = false → s.table.valueAt n.value = none ∧ s.table.entryAt n.entry = none

variable {chains pre post : List (List (Node MatchResult))} {past todo : List (Node MatchResult)} {s : Sweep}

/-- From the end of a chain to the next one. -/
theorem At.skip {ns : List (Node MatchResult)} (h : At age now chains pre past [] (ns :: post) s) :
    At age now chains (pre ++ [past]) [] ns post s := by
  have hholds := h.holds
  have hentry := h.entry
  have hchain := h.chain
  rw [List.append_nil] at hholds
  refine ⟨?_, ?_, ?_, ?_, ?_, ?_⟩
  · rw [h.chains, List.append_nil, List.append_assoc]
    rfl
  · rw [List.map_append, List.append_assoc]
    exact hholds
  · rw [List.length_append]
    exact hentry
  · rw [List.length_append]
    exact hchain
  · rw [h.visited, List.flatten_append, List.flatten_singleton, List.append_nil]
  · rw [List.flatten_append, List.flatten_singleton, List.append_nil]
    exact h.freed

/-- While there is a next entry, it is the first of what is to do. -/
theorem At.focus (h : At age now chains pre past todo post s) (hmore : s.iterator.nextEntry.isSome = true) :
    ∃ pre past n todo post, At age now chains pre past (n :: todo) post s := by
  induction post generalizing pre past todo with
  | nil =>
    cases todo with
    | nil =>
      rw [h.entry] at hmore
      cases hmore
    | cons n todo => exact ⟨_, _, _, _, _, h⟩
  | cons ns post ih =>
    cases todo with
    | nil => exact ih h.skip
    | cons n todo => exact ⟨_, _, _, _, _, h⟩

/-- Without one, nothing is left to do. -/
theorem At.finish (h : At age now chains pre past todo post s) (hend : s.iterator.nextEntry = none) :
    ∃ pre past, At age now chains pre past [] [] s := by
  induction post generalizing pre past todo with
  | nil =>
    cases todo with
    | nil => exact ⟨_, _, h⟩
    | cons n todo =>
      rw [h.entry] at hend
      cases hend
  | cons ns post ih =>
    cases todo with
    | nil => exact ih h.skip
    | cons n todo =>
      rw [h.entry] at hend
      cases hend

/-- **A turn of the loop**: the match is looked at, and it stays or goes. -/
theorem At.body {n : Node MatchResult} (h : At age now chains pre past (n :: todo) post s) :
    Returns (sweepBody age now s) fun s' => At age now chains pre (past ++ [n]) todo post s' := by
  have hiterator : s.iterator = ⟨some n.entry, (pre.map (kept age now)).length⟩ := by
    have hentry : s.iterator.nextEntry = some n.entry := h.entry
    have hchain : s.iterator.nextChain = pre.length := h.chain (by rw [hentry]; rfl)
    rw [List.length_map, ← hentry, ← hchain]
  have hmatch : s.table.valueAt n.value = some n.item := (h.holds.stored n (by simp)).2
  have hchains : chains = pre ++ (past ++ [n] ++ todo) :: post := by
    rw [h.chains, List.append_assoc, List.singleton_append]
  have hvisited : s.visited ++ [n.value] = (pre.flatten ++ (past ++ [n])).map Node.value := by
    simp only [h.visited, List.map_append, List.map_cons, List.map_nil, List.append_assoc]
  rw [sweepBody, hiterator]
  refine (iterNext_returns h.holds).bind fun r hr => ?_
  obtain ⟨iterator, pair⟩ := r
  obtain ⟨hentry, hchain, hpair⟩ := hr
  rw [List.length_map] at hentry hchain
  dsimp only at hentry hchain hpair ⊢
  rw [hpair]
  dsimp only [Option.bind_eq_bind, Option.bind_some]
  rw [hmatch]
  dsimp only [Option.bind_some]
  by_cases hold : now - n.item.queryFingerprintT1 > age
  · have hgone : keeps age now n.item = false := by simp [keeps, hold]
    rw [if_pos hold]
    refine (remove_returns h.holds).bind fun r hr => ?_
    refine Returns.pure ⟨hchains, ?_, hentry, fun _ => hchain, hvisited, fun m hm hm' => ?_⟩
    · rw [kept_concat, if_neg (by rw [hgone]; decide)]
      exact hr.holds
    · rcases List.mem_append.1 (List.append_assoc .. ▸ hm) with hm | hm
      · obtain ⟨hvalue, hentry⟩ := h.freed m hm hm'
        exact ⟨hr.freeValue _ hvalue, hr.freeEntry _ hentry⟩
      · rw [List.mem_singleton.1 hm]
        exact ⟨hr.value, hr.entry⟩
  · have hstays : keeps age now n.item = true := by simp [keeps, hold]
    rw [if_neg hold]
    refine Returns.pure ⟨hchains, ?_, hentry, fun _ => hchain, hvisited, fun m hm hm' => ?_⟩
    · rw [kept_concat, if_pos hstays, List.append_assoc]
      exact h.holds
    · rcases List.mem_append.1 (List.append_assoc .. ▸ hm) with hm | hm
      · exact h.freed m hm hm'
      · rw [List.mem_singleton.1 hm, hstays] at hm'
        cases hm'

/-- **The whole loop.** -/
theorem swept (h : Matches s.table chains) (hne : chains ≠ []) (hstart : s.visited = [])
    (hentry : s.iterator.nextEntry = (firstEntry 0 chains).1)
    (hchain : s.iterator.nextEntry.isSome → s.iterator.nextChain = (firstEntry 0 chains).2) :
    Returns (whileLoop (fun s : Sweep => s.iterator.nextEntry.isSome) (sweepBody age now) (s.table.entries.toNat + 1) s)
      fun s' => ∃ pre past, At age now chains pre past [] [] s' := by
  obtain ⟨first, rest, rfl⟩ := List.exists_cons_of_ne_nil hne
  have hat : At age now (first :: rest) [] [] first rest s := ⟨rfl, h, hentry, hchain, hstart, nofun⟩
  refine (whileLoop_returns (fun s => ∃ pre past todo post, At age now (first :: rest) pre past todo post s)
    (fun s => (first :: rest).flatten.length - s.visited.length) ?_ ?_ ⟨_, _, _, _, hat⟩).mono ?_
  · rintro s ⟨pre, past, todo, post, hs⟩ hmore
    obtain ⟨pre, past, n, todo, post, hs⟩ := hs.focus hmore
    refine hs.body.mono fun s' hs' => ⟨⟨_, _, _, _, hs'⟩, ?_⟩
    rw [hs.visited, hs'.visited, hs.chains]
    simp only [List.length_map, List.length_append, List.length_flatten, List.map_append, List.sum_append, List.map_cons,
      List.sum_cons, List.length_cons, List.length_nil]
    omega
  · rw [h.count]
    omega
  · rintro s' ⟨⟨pre, past, todo, post, hs⟩, hend⟩
    exact hs.finish (Option.not_isSome_iff_eq_none.1 (by rw [hend]; decide))

end Sweep

/-- What the run leaves of a table that stands for `chains`. -/
structure Exact (cfg : Config V) (currentQueryTime : Int) (chains : List (List (Node MatchResult))) (s : Sweep) : Prop where
  /-- Every entry is looked at, and none twice. -/
  visited : s.visited = chains.flatten.map Node.value
  once : s.visited.Nodup
  /-- The entries that are not too old stay, in their chains. -/
  holds : Matches s.table (chains.map (kept (maxAge cfg) currentQueryTime))
  count : s.table.entries.toNat =
    (chains.flatten.filter fun n => decide (currentQueryTime - n.item.queryFingerprintT1 ≤ maxAge cfg)).length
  /-- The others are freed. -/
  freed : ∀ n ∈ chains.flatten, currentQueryTime - n.item.queryFingerprintT1 > maxAge cfg →
    s.table.valueAt n.value = none ∧ s.table.entryAt n.entry = none

theorem keeps_eq (age now : Int) (m : MatchResult) : keeps age now m = decide (now - m.queryFingerprintT1 ≤ age) := by
  rw [keeps, ← decide_not]
  exact decide_eq_decide.2 Int.not_lt

theorem flatten_kept (age now : Int) (chains : List (List (Node MatchResult))) :
    (chains.map (kept age now)).flatten = chains.flatten.filter fun n => decide (now - n.item.queryFingerprintT1 ≤ age) := by
  rw [List.filter_flatten]
  simp only [← keeps_eq]
  rfl

/-- **The run ends without a look at freed memory, and exactly the matches that are not too old are left.** -/
theorem removeOldMatches_exact (cfg : Config V) {t : Table MatchResult} {chains : List (List (Node MatchResult))}
    (h : Matches t chains) (memory : Nat) (currentQueryTime : Int) :
    Returns (removeOldMatches cfg t memory currentQueryTime) (Exact cfg currentQueryTime chains) := by
  refine (iterate_returns h memory).bind fun iterator hiterator => ?_
  refine (swept (s := ⟨t, iterator, []⟩) h h.nonempty rfl hiterator.1 hiterator.2).mono ?_
  rintro s ⟨pre, past, hs⟩
  have hall : chains.flatten = pre.flatten ++ past := by
    rw [hs.chains]
    simp
  have hholds : Matches s.table (chains.map (kept (maxAge cfg) currentQueryTime)) := by
    have hholds := hs.holds
    rw [List.append_nil] at hholds
    rw [hs.chains, List.append_nil, List.map_append]
    exact hholds
  refine ⟨?_, ?_, hholds, ?_, fun n hn hold => ?_⟩
  · rw [hs.visited, hall]
  · rw [hs.visited, ← hall]
    exact h.values_nodup
  · rw [hholds.count, flatten_kept]
  · rw [hall] at hn
    refine hs.freed n hn ?_
    rw [keeps, decide_eq_true hold]
    rfl

/-- Two entries in the first chain and one in the second. -/
def twoChains : Table MatchResult where
  table := [some 10, some 12]
  entries := 3
  entryAt a :=
    if a = 10 then some ⟨⟨20, 20⟩, some 11⟩ else if a = 11 then some ⟨⟨21, 21⟩, none⟩
    else if a = 12 then some ⟨⟨22, 22⟩, none⟩ else none
  valueAt a :=
    if a = 20 then some ⟨0, 3, 0, 0, 1, 6, 6⟩ else if a = 21 then some ⟨0, 7, 0, 0, 1, 8, 8⟩
    else if a = 22 then some ⟨0, 5, 0, 0, 1, 9, 9⟩ else none

theorem twoChains_matches : Matches twoChains
    [[⟨10, 20, ⟨0, 3, 0, 0, 1, 6, 6⟩⟩, ⟨11, 21, ⟨0, 7, 0, 0, 1, 8, 8⟩⟩], [⟨12, 22, ⟨0, 5, 0, 0, 1, 9, 9⟩⟩]] where
  size := rfl
  nonempty := by simp
  chain i ns hi := by
    match i, hi with
    | 0, hi =>
      obtain rfl := Option.some.inj hi
      exact ⟨_, rfl, rfl, _, rfl, rfl, _, rfl, rfl⟩
    | 1, hi =>
      obtain rfl := Option.some.inj hi
      exact ⟨_, rfl, rfl, _, rfl, rfl⟩
  stored := by
    simp only [List.flatten_cons, List.flatten_nil, List.cons_append, List.nil_append, List.forall_mem_cons]
    exact ⟨⟨rfl, rfl⟩, ⟨rfl, rfl⟩, ⟨rfl, rfl⟩, nofun⟩
  entries_nodup := by decide
  values_nodup := by decide
  keys_nodup := by decide
  hashed i ns hi := by
    match i, hi with
    | 0, hi =>
      obtain rfl := Option.some.inj hi
      simp only [List.forall_mem_cons]
      exact ⟨rfl, rfl, nofun⟩
    | 1, hi =>
      obtain rfl := Option.some.inj hi
      simp only [List.forall_mem_cons]
      exact ⟨rfl, nofun⟩
  count := rfl

theorem removeOldMatches_exact_twoChains : Returns (removeOldMatches (Config.default ℚ) twoChains 0 7)
    (Exact (Config.default ℚ) 7
      [[⟨10, 20, ⟨0, 3, 0, 0, 1, 6, 6⟩⟩, ⟨11, 21, ⟨0, 7, 0, 0, 1, 8, 8⟩⟩], [⟨12, 22, ⟨0, 5, 0, 0, 1, 9, 9⟩⟩]]) :=
  removeOldMatches_exact (Config.default ℚ) twoChains_matches 0 7

/-! ## The table as a map -/

/-- The match of a key. -/
def lookup (chains : List (List (Node MatchResult))) (key : Nat) : Option MatchResult :=
  (chains.flatten.find? fun n => n.item.resultHashTableKey = key).map Node.item

theorem find?_filter {ns : List (Node MatchResult)} (h : (ns.map fun n => n.item.resultHashTableKey).Nodup)
    (keep : MatchResult → Bool) (key : Nat) :
    ((ns.filter fun n => keep n.item).find? fun n => n.item.resultHashTableKey = key).map Node.item =
      ((ns.find? fun n => n.item.resultHashTableKey = key).map Node.item).filter keep := by
  induction ns with
  | nil => rfl
  | cons n ns ih =>
    rw [List.map_cons, List.nodup_cons] at h
    rw [List.filter_cons]
    by_cases hk : n.item.resultHashTableKey = key
    · rw [List.find?_cons_of_pos (by simpa using hk)]
      by_cases hn : keep n.item = true
      · rw [if_pos hn, List.find?_cons_of_pos (by simpa using hk)]
        simp [Option.filter, hn]
      · -- no other node has the key
        have hnone : (ns.filter fun n => keep n.item).find? (fun n => decide (n.item.resultHashTableKey = key)) = none := by
          rw [List.find?_eq_none]
          intro m hm heq
          refine h.1 (List.mem_map.2 ⟨m, List.mem_of_mem_filter hm, ?_⟩)
          rw [hk]
          exact of_decide_eq_true heq
        rw [if_neg hn, hnone]
        simp [Option.filter, hn]
    · rw [List.find?_cons_of_neg (by simpa using hk), ← ih h.2]
      by_cases hn : keep n.item = true
      · rw [if_pos hn, List.find?_cons_of_neg (by simpa using hk)]
      · rw [if_neg hn]

/-- What is left is what the matcher's map is left with. -/
theorem removeOldMatches_results (cfg : Config V) {t : Table MatchResult} {chains : List (List (Node MatchResult))}
    (h : Matches t chains) {m : Matcher} (hm : m.results = lookup chains) (currentQueryTime : Int) :
    (FpMatcher.removeOldMatches cfg m currentQueryTime).results =
      lookup (chains.map (kept (maxAge cfg) currentQueryTime)) := by
  funext key
  have hfilter := find?_filter h.keys_nodup (keeps (maxAge cfg) currentQueryTime) key
  rw [lookup, flatten_kept]
  simp only [← keeps_eq]
  rw [hfilter, FpMatcher.removeOldMatches, hm]
  rfl

end Olaf.OldMatches
