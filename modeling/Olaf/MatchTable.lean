import Olaf.OldMatches
import Olaf.TableRuns
/-!
# The table of the matches in memory (`olaf_fp_matcher.c`)

| here | there |
| --- | --- |
| `Memory`       | the memory that there is for a match, for an entry and for a larger table while a hit is counted |
| `insertMatch`, `tallyResults` | `olaf_fp_matcher_tally_results` (`:148`), which looks the key up, changes the match in place or inserts a new one |
| `answer`       | what `hash_table_insert` returns there |
| `Event`, `step` | a hit of `olaf_fp_matcher_match_single_fingerprint` (`:189`), or `olaf_fp_matcher_remove_old_matches` (`:121`) |
| `Table.at`     | what a key is looked up as |
| `destroyed`    | `hash_table_free` in `olaf_fp_matcher_destroy` (`:345`) |

`FpMatcher` has the table as a map from keys. Here it is the one of `hash-table.c`, and `run_match` says that over a whole query
the two are the same. The result of the insertion is not looked at: a hit for which there is no memory is lost (`run_lost`). The
count of entries is a `uint32_t`, so a query has no more than 2^31 hits.
-/

namespace Olaf.MatchTable
open Checked FpMatcher HashTable OldMatches

variable {V : Type}

structure Memory where
  value : Malloc MatchResult
  entry : Malloc Entry
  calloc : Bool
  /-- What is in an iterator before it is set. -/
  iterator : Nat

/-- The branch for a new key, with what `hash_table_insert` returns. The pointer to the new match is not checked. -/
def insertMatch (mem : Memory) (t : PrimeTable MatchResult) (queryFingerprintT1 referenceFingerprintT1 : Int)
    (matchIdentifier : Nat) : Option (PrimeTable MatchResult × Bool) := do
  let key := resultKey queryFingerprintT1 referenceFingerprintT1 matchIdentifier
  let a ← mem.value.pick t.valueAt
  let t := { t with valueAt := Function.update t.valueAt a <| some ⟨referenceFingerprintT1, queryFingerprintT1,
    referenceFingerprintT1, referenceFingerprintT1, 1, matchIdentifier, key⟩ }
  t.insert MatchResult.resultHashTableKey uint64THash mem.calloc mem.entry a

def tallyResults (mem : Memory) (t : PrimeTable MatchResult) (queryFingerprintT1 referenceFingerprintT1 : Int)
    (matchIdentifier : Nat) : Option (PrimeTable MatchResult) := do
  let key := resultKey queryFingerprintT1 referenceFingerprintT1 matchIdentifier
  match ← t.lookup MatchResult.resultHashTableKey uint64THash key with
  | some a =>
    let m ← t.valueAt a
    return { t with valueAt := Function.update t.valueAt a <| some { m with
      referenceFingerprintT1 := referenceFingerprintT1
      queryFingerprintT1 := queryFingerprintT1
      matchCount := m.matchCount + 1
      firstReferenceFingerprintT1 := min referenceFingerprintT1 m.firstReferenceFingerprintT1
      lastReferenceFingerprintT1 := max referenceFingerprintT1 m.lastReferenceFingerprintT1 } }
  | none =>
    let (t, _) ← insertMatch mem t queryFingerprintT1 referenceFingerprintT1 matchIdentifier
    return t

/-- What the insertion of a hit returns; nothing when its key is in the table. -/
def answer (mem : Memory) (t : PrimeTable MatchResult) (hit : Hit) : Option Bool := do
  match ← t.lookup MatchResult.resultHashTableKey uint64THash hit.key with
  | some _ => none
  | none =>
    let (_, done) ← insertMatch mem t hit.queryT1 hit.referenceT1 hit.identifier
    return done

inductive Event
  | tally (h : Hit)
  | sweep (currentQueryTime : Int)

def Event.isTally : Event → Bool
  | .tally _ => true
  | .sweep _ => false

def step (cfg : Config V) (t : PrimeTable MatchResult) : Event × Memory → Option (PrimeTable MatchResult)
  | (.tally h, mem) => tallyResults mem t h.queryT1 h.referenceT1 h.identifier
  | (.sweep currentQueryTime, mem) => do
    let s ← OldMatches.removeOldMatches cfg t.toTable mem.iterator currentQueryTime
    return { t with toTable := s.table }

def run (cfg : Config V) (t : PrimeTable MatchResult) (steps : List (Event × Memory)) : Option (PrimeTable MatchResult) :=
  steps.foldlM (step cfg) t

/-- The match of a key, by `hash_table_lookup`. -/
def matchAt (t : PrimeTable MatchResult) (key : Nat) : Option (Option MatchResult) := do
  match ← t.lookup MatchResult.resultHashTableKey uint64THash key with
  | none => return none
  | some a =>
    let m ← t.valueAt a
    return some m

/-- An event on the table as a map. -/
def apply (cfg : Config V) (results : Nat → Option MatchResult) : Event → Nat → Option MatchResult
  | .tally h => tally results h.queryT1 h.referenceT1 h.identifier
  | .sweep currentQueryTime => fun key => (results key).filter (keeps (maxAge cfg) currentQueryTime)

/-- The hits of a batch of fingerprints, and the removal after it. -/
def batchEvents (cfg : Config V) (fps : DupTable Nat Nat) (batch : List (Fingerprint V)) : List Event :=
  (batch.flatMap (hitsOf cfg fps)).map .tally ++
    match batch.getLast? with
    | none => []
    | some f => if cfg.keepMatchesFor ≠ 0 then [.sweep f.timeIndex3] else []

def events (cfg : Config V) (fps : DupTable Nat Nat) (batches : List (List (Fingerprint V))) : List Event :=
  batches.flatMap (batchEvents cfg fps)

/-! ## The events of a run -/

section Events
variable (cfg : Config V)

theorem foldl_tally (results : Nat → Option MatchResult) (hits : List Hit) :
    (hits.map Event.tally).foldl (apply cfg) results = tallyAll results hits := by
  rw [List.foldl_map]
  rfl

theorem matchFingerprints_events (m : Matcher) (batch : List (Fingerprint V)) :
    (matchFingerprints cfg m batch).results = (batchEvents cfg m.db.fps batch).foldl (apply cfg) m.results ∧
      (matchFingerprints cfg m batch).db.fps = m.db.fps := by
  obtain ⟨hresults, hdb⟩ := matchAll_spec cfg batch m
  rw [batchEvents, List.foldl_append, foldl_tally, matchFingerprints, ← hresults]
  cases batch.getLast? with
  | none => exact ⟨rfl, hdb⟩
  | some f =>
    dsimp only
    by_cases hkeep : cfg.keepMatchesFor ≠ 0
    · rw [if_pos hkeep, if_pos hkeep]
      split
      · split <;> exact ⟨rfl, hdb⟩
      · exact ⟨rfl, hdb⟩
    · rw [if_neg hkeep, if_neg hkeep]
      split
      · split <;> exact ⟨rfl, hdb⟩
      · exact ⟨rfl, hdb⟩

theorem foldl_events (batches : List (List (Fingerprint V))) (m : Matcher) :
    (batches.foldl (matchFingerprints cfg) m).results = (events cfg m.db.fps batches).foldl (apply cfg) m.results := by
  induction batches generalizing m with
  | nil => rfl
  | cons batch batches ih =>
    obtain ⟨hresults, hdb⟩ := matchFingerprints_events cfg m batch
    rw [List.foldl_cons, ih, hresults, hdb, events, events, List.flatMap_cons, List.foldl_append]

end Events

/-! ## A hit -/

/-- The table is `results`. -/
abbrev TableOf (t : PrimeTable MatchResult) (results : Nat → Option MatchResult) (entryAt : Nat → Option Entry)
    (valueAt : Nat → Option MatchResult) (chains : List (List (Node MatchResult))) : Prop :=
  Represents MatchResult.resultHashTableKey uint64THash t results entryAt valueAt chains

/-- There is memory for an entry and for a larger table. -/
def Memory.Enough (mem : Memory) : Prop := mem.entry.Infallible ∧ mem.calloc = true

variable {t : PrimeTable MatchResult} {results : Nat → Option MatchResult} {entryAt : Nat → Option Entry}
  {valueAt : Nat → Option MatchResult} {chains : List (List (Node MatchResult))} {mem : Memory}

theorem TableOf.found (h : TableOf t results entryAt valueAt chains) {key : Nat} {m : MatchResult} (hkey : results key = some m) :
    ∃ x ∈ chains.flatten, x.item = m ∧ m.resultHashTableKey = key ∧
      contents MatchResult.resultHashTableKey chains key = some (x.value, m) := by
  rw [← h.map, Option.map_eq_some_iff] at hkey
  obtain ⟨r, hr, rfl⟩ := hkey
  obtain ⟨x, hx, rfl⟩ := Option.map_eq_some_iff.1 hr
  exact ⟨x, List.mem_of_find?_eq_some hx, rfl, by simpa using List.find?_some hx, hr⟩

theorem TableOf.absent (h : TableOf t results entryAt valueAt chains) {key : Nat} (hkey : results key = none) :
    contents MatchResult.resultHashTableKey chains key = none := by
  rw [← h.map, Option.map_eq_none_iff] at hkey
  exact hkey

theorem matchAt_eq (h : TableOf t results entryAt valueAt chains) (key : Nat) : matchAt t key = some (results key) := by
  rw [matchAt, lookup_eq h.holds]
  dsimp only [Option.bind_eq_bind, Option.bind_some]
  cases hkey : results key with
  | none =>
    rw [h.absent hkey]
    rfl
  | some m =>
    obtain ⟨x, hx, rfl, _, hc⟩ := h.found hkey
    rw [hc]
    dsimp only [Option.map_some]
    rw [(h.holds.stored x hx).2]
    rfl

/-- A match that is changed where it is. -/
theorem TableOf.modify (h : TableOf t results entryAt valueAt chains) {x : Node MatchResult} (hx : x ∈ chains.flatten)
    {item : MatchResult} (hkey : item.resultHashTableKey = x.item.resultHashTableKey) :
    ∃ chains', TableOf { t with valueAt := Function.update t.valueAt x.value (some item) }
      (Function.update results x.item.resultHashTableKey (some item)) entryAt valueAt chains' := by
  obtain ⟨pre, front, back, post, rfl⟩ := exists_node hx
  have hmodify := h.holds.modify hkey
  refine ⟨_, hmodify, fun key => ?_, ?_, ?_⟩
  · have hmap := h.map key
    rw [contents_focus h.holds.keys_nodup] at hmap
    rw [contents_focus hmodify.keys_nodup]
    dsimp only
    rw [hkey]
    by_cases heq : key = x.item.resultHashTableKey
    · rw [heq, Function.update_self, Function.update_self]
      rfl
    · rw [Function.update_of_ne heq] at hmap
      rw [Function.update_of_ne heq, Function.update_of_ne heq, hmap]
  · rw [← h.otherEntries]
    exact otherEntries_congr (fun a => by simp only [flatten_focus, List.map_append, List.map_cons]) fun _ _ => rfl
  · rw [← h.otherValues]
    funext a
    have hmem : a ∈ (pre ++ (front ++ ⟨x.entry, x.value, item⟩ :: back) :: post).flatten.map Node.value ↔
        a ∈ (pre ++ (front ++ x :: back) :: post).flatten.map Node.value := by
      simp only [flatten_focus, List.map_append, List.map_cons]
    rw [otherValues, otherValues]
    by_cases ha : a ∈ (pre ++ (front ++ x :: back) :: post).flatten.map Node.value
    · rw [if_pos ha, if_pos (hmem.2 ha)]
    · rw [if_neg ha, if_neg fun h => ha (hmem.1 h)]
      refine Function.update_of_ne ?_ _ _
      rintro rfl
      exact ha (List.mem_map_of_mem hx)

/-- The match of a hit with a new key. -/
def newMatch (hit : Hit) : MatchResult :=
  ⟨hit.referenceT1, hit.queryT1, hit.referenceT1, hit.referenceT1, 1, hit.identifier, hit.key⟩

/-- There is no memory for a larger table, which is needed, or for an entry. -/
def Starved (mem : Memory) (t t' : PrimeTable MatchResult) : Prop :=
  (mem.calloc = false ∧ t.Crowded) ∨ mem.entry.pick t'.entryAt = none

/-- A hit is lost: its key is not in the table, and its insertion fails for lack of memory. -/
structure Lost (results : Nat → Option MatchResult) (mem : Memory) (t : PrimeTable MatchResult) (hit : Hit)
    (t' : PrimeTable MatchResult) : Prop where
  answer : MatchTable.answer mem t hit = some false
  absent : results hit.key = none
  starved : Starved mem t t'

/-- What an event leaves: what it does to the map, or, of a hit that is lost, its match outside the table. -/
structure Stepped (cfg : Config V) (t : PrimeTable MatchResult) (results : Nat → Option MatchResult) (entryAt : Nat → Option Entry)
    (valueAt : Nat → Option MatchResult) (e : Event) (mem : Memory) (t' : PrimeTable MatchResult) : Prop where
  stepped : ∃ results' valueAt' chains', TableOf t' results' entryAt valueAt' chains' ∧ {a | valueAt' a ≠ none}.Finite ∧
    ((results' = apply cfg results e ∧ valueAt' = valueAt ∧ ∀ hit, e = .tally hit → answer mem t hit ≠ some false) ∨
      (results' = results ∧ ∃ hit, e = .tally hit ∧ Lost results mem t hit t' ∧ ¬ mem.Enough ∧
        Leaves [newMatch hit] valueAt valueAt'))

theorem tally_returns (cfg : Config V) (h : TableOf t results entryAt valueAt chains) (hentries : {a | entryAt a ≠ none}.Finite)
    (hvalues : {a | valueAt a ≠ none}.Finite) (hlt : t.entries.toNat < 2 ^ 31) (hvalue : mem.value.Infallible) (hit : Hit) :
    Returns (tallyResults mem t hit.queryT1 hit.referenceT1 hit.identifier) fun t' =>
      Stepped cfg t results entryAt valueAt (.tally hit) mem t' ∧ t'.entries.toNat ≤ t.entries.toNat + 1 := by
  have hlookup := lookup_eq h.holds hit.key
  cases hkey : results hit.key with
  | some m =>
    obtain ⟨x, hx, rfl, hk, hc⟩ := h.found hkey
    rw [hc, Option.map_some] at hlookup
    have hanswer : answer mem t hit = none := by
      rw [answer, hlookup]
      rfl
    rw [tallyResults, show resultKey hit.queryT1 hit.referenceT1 hit.identifier = hit.key from rfl, hlookup]
    dsimp only [Option.bind_eq_bind, Option.bind_some]
    rw [(h.holds.stored x hx).2]
    have hupdated : MatchResult.resultHashTableKey { x.item with
        referenceFingerprintT1 := hit.referenceT1
        queryFingerprintT1 := hit.queryT1
        matchCount := x.item.matchCount + 1
        firstReferenceFingerprintT1 := min hit.referenceT1 x.item.firstReferenceFingerprintT1
        lastReferenceFingerprintT1 := max hit.referenceT1 x.item.lastReferenceFingerprintT1 } = x.item.resultHashTableKey := rfl
    obtain ⟨chains', hmodify⟩ := h.modify hx hupdated
    refine Returns.pure ⟨⟨_, valueAt, chains', hmodify, hvalues, Or.inl ⟨?_, rfl, ?_⟩⟩, Nat.le_succ _⟩
    · rw [apply, tally, show resultKey hit.queryT1 hit.referenceT1 hit.identifier = hit.key from rfl, hkey]
      dsimp only
      rw [hk]
    · rintro _ heq
      obtain rfl := Event.tally.inj heq
      rw [hanswer]
      exact Option.some_ne_none _ |>.symm
  | none =>
    rw [h.absent hkey, Option.map_none] at hlookup
    obtain ⟨r, hr, hperformed, hle, hfail⟩ := perform_insert h hentries hvalues hlt (newMatch hit) mem.value mem.entry mem.calloc
    have hfinite : {a | t.valueAt a ≠ none}.Finite := by
      rw [← h.otherValues] at hvalues
      exact finite_values hvalues
    rw [perform] at hr
    cases hpick : mem.value.pick t.valueAt with
    | none => exact absurd hpick (hvalue _ hfinite)
    | some a =>
      rw [hpick] at hr
      obtain ⟨⟨u, done⟩, hinsert, hreturn⟩ := Option.bind_eq_some_iff.1 hr
      obtain rfl := Option.some.inj hreturn
      obtain ⟨valueAt', chains', hrep, hfinite', hleaves⟩ := hperformed.represents
      have hmatch : insertMatch mem t hit.queryT1 hit.referenceT1 hit.identifier = some (u, done) := by
        rw [insertMatch, hpick]
        exact hinsert
      have hanswer : answer mem t hit = some done := by
        rw [answer, hlookup]
        dsimp only [Option.bind_eq_bind, Option.bind_some]
        rw [hmatch]
        rfl
      rw [tallyResults, show resultKey hit.queryT1 hit.referenceT1 hit.identifier = hit.key from rfl, hlookup]
      dsimp only [Option.bind_eq_bind, Option.bind_some]
      rw [hmatch]
      refine Returns.pure ⟨⟨_, valueAt', chains', hrep, hfinite', ?_⟩, hle⟩
      cases done with
      | true =>
        refine Or.inl ⟨?_, ?_, ?_⟩
        · rw [after, apply, tally, show resultKey hit.queryT1 hit.referenceT1 hit.identifier = hit.key from rfl, hkey]
          rfl
        · cases hleaves
          rfl
        · rintro _ heq
          obtain rfl := Event.tally.inj heq
          rw [hanswer]
          decide
      | false =>
        have hstarved := (hfail rfl).resolve_left (by rw [hpick]; exact Option.some_ne_none a)
        refine Or.inr ⟨rfl, hit, rfl, ⟨hanswer, hkey, hstarved⟩, fun henough => ?_, hleaves⟩
        have hdone : false = true := hperformed.answers hvalue henough.1 henough.2
        cases hdone

/-! ## Removing old matches -/

section Sweep
variable {age now : Int} {u : Table MatchResult}

/-- Only what is in the table is changed. -/
structure Inside (chains : List (List (Node MatchResult))) (t u : Table MatchResult) : Prop where
  entries : ∀ a, a ∉ chains.flatten.map Node.entry → u.entryAt a = t.entryAt a
  values : ∀ a, a ∉ chains.flatten.map Node.value → u.valueAt a = t.valueAt a

theorem remove_unlinked {pre post : List (List (Node MatchResult))} {front back : List (Node MatchResult)} {x : Node MatchResult}
    (h : Matches u (pre ++ (front ++ x :: back) :: post)) {r : Table MatchResult × Bool}
    (hr : u.remove MatchResult.resultHashTableKey uint64THash x.value = some r) :
    Unlinked u (pre ++ (front ++ x :: back) :: post) x r := by
  have hkey : u.keyAt MatchResult.resultHashTableKey x.value = some x.item.resultHashTableKey := by
    rw [Table.keyAt, (h.stored x (by simp)).2, Option.map_some]
  refine h.unlink_frame ?_
  rw [← hr, Table.remove, hkey]
  dsimp only [Option.bind_eq_bind, Option.bind_some]
  rw [h.size, h.hashed _ _ (getElem?_focus pre _ post) x (by simp), ← roverAt_nil (V := MatchResult),
    h.removeLoop (List.nil_append front).symm]
  rw [h.count, flatten_focus]
  simp only [List.length_append, List.length_cons]
  omega

/-- The entries of a table in which some chains are swept are among those before. -/
theorem kept_subset {C : Type} (f : Node MatchResult → C) {chains : List (List (Node MatchResult))} {a : C}
    (ha : a ∈ (chains.map (kept age now)).flatten.map f) : a ∈ chains.flatten.map f := by
  obtain ⟨n, hn, rfl⟩ := List.mem_map.1 ha
  obtain ⟨ns, hns, hn⟩ := List.mem_flatten.1 hn
  obtain ⟨ms, hms, rfl⟩ := List.mem_map.1 hns
  exact List.mem_map_of_mem (List.mem_flatten_of_mem hms (List.mem_of_mem_filter hn))

theorem At.inside {pre post : List (List (Node MatchResult))} {past todo : List (Node MatchResult)} {n : Node MatchResult}
    {s s' : Sweep} (h : At age now chains pre past (n :: todo) post s) (hbody : sweepBody age now s = some s') :
    Inside chains s.table s'.table := by
  have hiterator : s.iterator = ⟨some n.entry, (pre.map (kept age now)).length⟩ := by
    have hentry : s.iterator.nextEntry = some n.entry := h.entry
    have hchain : s.iterator.nextChain = pre.length := h.chain (by rw [hentry]; rfl)
    rw [List.length_map, ← hentry, ← hchain]
  obtain ⟨⟨iterator, pair⟩, hnext, _, _, hpair⟩ := iterNext_returns h.holds
  have hmatch : s.table.valueAt n.value = some n.item := (h.holds.stored n (by simp)).2
  dsimp only at hpair
  rw [sweepBody, hiterator, hnext, hpair] at hbody
  dsimp only [Option.bind_eq_bind, Option.bind_some] at hbody
  rw [hmatch] at hbody
  dsimp only [Option.bind_some] at hbody
  split at hbody
  · obtain ⟨r, hr, hreturn⟩ := Option.bind_eq_some_iff.1 hbody
    obtain rfl := Option.some.inj hreturn
    obtain ⟨hentries, hvalues⟩ := remove_unlinked h.holds hr
    refine ⟨fun a ha => hentries a fun hmem => ha ?_, fun a ha => hvalues a ?_⟩
    · rw [h.chains]
      simp only [List.flatten_append, List.flatten_cons, List.map_append, List.mem_append, List.map_cons, List.mem_cons] at hmem ⊢
      rcases hmem with hmem | (hmem | hmem) | hmem
      · exact Or.inl (kept_subset Node.entry hmem)
      · exact Or.inr (Or.inl (Or.inl (List.Sublist.mem hmem (List.filter_sublist.map _))))
      · exact Or.inr (Or.inl (Or.inr hmem))
      · exact Or.inr (Or.inr hmem)
    · rintro rfl
      refine ha (List.mem_map_of_mem ?_)
      rw [h.chains]
      simp
  · obtain rfl := Option.some.inj hbody
    exact ⟨fun _ _ => rfl, fun _ _ => rfl⟩

theorem removeOldMatches_inside (cfg : Config V) (h : Matches u chains) {memory : Nat} {s : Sweep}
    (hrun : OldMatches.removeOldMatches cfg u memory now = some s) : Inside chains u s.table := by
  obtain ⟨iterator, hiterate, hentry, hchain⟩ := iterate_returns h memory
  rw [OldMatches.removeOldMatches, hiterate] at hrun
  obtain ⟨first, rest, rfl⟩ := List.exists_cons_of_ne_nil h.nonempty
  have hat : At (maxAge cfg) now (first :: rest) [] [] first rest ⟨u, iterator, []⟩ := ⟨rfl, h, hentry, hchain, rfl, by simp⟩
  refine (whileLoop_keeps (fun s => (∃ pre past todo post, At (maxAge cfg) now (first :: rest) pre past todo post s) ∧
    Inside (first :: rest) u s.table) ?_ ⟨⟨_, _, _, _, hat⟩, fun _ _ => rfl, fun _ _ => rfl⟩ hrun).2
  rintro s s' ⟨⟨pre, past, todo, post, hs⟩, hinside⟩ hmore hbody
  obtain ⟨pre, past, n, todo, post, hs⟩ := hs.focus hmore
  obtain ⟨s₁, hs₁, hnext⟩ := hs.body
  rw [hbody] at hs₁
  obtain rfl := Option.some.inj hs₁
  obtain ⟨hentries, hvalues⟩ := At.inside hs hbody
  exact ⟨⟨_, _, _, _, hnext⟩, fun a ha => (hentries a ha).trans (hinside.entries a ha),
    fun a ha => (hvalues a ha).trans (hinside.values a ha)⟩

theorem sweep_returns (cfg : Config V) (h : TableOf t results entryAt valueAt chains) (hvalues : {a | valueAt a ≠ none}.Finite)
    (now : Int) : Returns (step cfg t (.sweep now, mem)) fun t' =>
      Stepped cfg t results entryAt valueAt (.sweep now) mem t' ∧ t'.entries.toNat ≤ t.entries.toNat := by
  obtain ⟨s, hs, hexact⟩ := removeOldMatches_exact cfg h.holds mem.iterator now
  have hinside := removeOldMatches_inside cfg h.holds hs
  have hgone : ∀ n ∈ chains.flatten, n ∉ (chains.map (kept (maxAge cfg) now)).flatten →
      s.table.valueAt n.value = none ∧ s.table.entryAt n.entry = none := by
    intro n hn hnot
    refine hexact.freed n hn ?_
    rw [flatten_kept, List.mem_filter, not_and, decide_eq_true_eq] at hnot
    exact Int.not_le.1 (hnot hn)
  rw [step, hs]
  refine Returns.pure ⟨⟨_, valueAt, _, ⟨hexact.holds, fun key => ?_, ?_, ?_⟩, hvalues, Or.inl ⟨rfl, rfl, by simp⟩⟩, ?_⟩
  · have hfilter := find?_filter h.holds.keys_nodup (keeps (maxAge cfg) now) key
    have hmap := h.map key
    rw [contents, Option.map_map] at hmap
    rw [contents, Option.map_map, flatten_kept]
    simp only [← keeps_eq]
    dsimp only [apply]
    rw [← hmap]
    exact hfilter
  · rw [← h.otherEntries]
    funext a
    rw [otherEntries, otherEntries]
    by_cases ha : a ∈ chains.flatten.map Node.entry
    · rw [if_pos ha, ite_eq_left_iff]
      intro hnot
      obtain ⟨n, hn, rfl⟩ := List.mem_map.1 ha
      exact (hgone n hn fun hmem => hnot (List.mem_map_of_mem hmem)).2
    · rw [if_neg ha, if_neg fun hmem => ha (kept_subset Node.entry hmem)]
      exact hinside.entries a ha
  · rw [← h.otherValues]
    funext a
    rw [otherValues, otherValues]
    by_cases ha : a ∈ chains.flatten.map Node.value
    · rw [if_pos ha, ite_eq_left_iff]
      intro hnot
      obtain ⟨n, hn, rfl⟩ := List.mem_map.1 ha
      exact (hgone n hn fun hmem => hnot (List.mem_map_of_mem hmem)).1
    · rw [if_neg ha, if_neg fun hmem => ha (kept_subset Node.value hmem)]
      exact hinside.values a ha
  · dsimp only
    rw [hexact.count, h.holds.count]
    exact List.length_filter_le ..

end Sweep

/-! ## Runs -/

/-- The steps of a run, one table after the other: the events `kept` get into the table, and the hits `lost` do not, as
`hash_table_insert` returns false for them. -/
inductive Kept (cfg : Config V) : PrimeTable MatchResult → List (Event × Memory) → List Event → List Hit → Prop
  | nil (t : PrimeTable MatchResult) : Kept cfg t [] [] []
  | keep {t t' : PrimeTable MatchResult} {e : Event} {mem : Memory} {steps : List (Event × Memory)} {kept : List Event}
      {lost : List Hit} (hstep : step cfg t (e, mem) = some t') (hdone : ∀ hit, e = .tally hit → answer mem t hit ≠ some false)
      (hrest : Kept cfg t' steps kept lost) : Kept cfg t ((e, mem) :: steps) (e :: kept) lost
  | lose {t t' : PrimeTable MatchResult} {hit : Hit} {mem : Memory} {steps : List (Event × Memory)} {kept : List Event}
      {lost : List Hit} (hstep : step cfg t (.tally hit, mem) = some t') (hfailed : answer mem t hit = some false)
      (hnew : matchAt t hit.key = some none) (hstarved : Starved mem t t') (hrest : Kept cfg t' steps kept lost) :
      Kept cfg t ((.tally hit, mem) :: steps) kept (hit :: lost)

/-- What a run of events leaves: what the events `kept` do to the map, and the matches of the hits `lost`. -/
structure Tallied (cfg : Config V) (t : PrimeTable MatchResult) (results : Nat → Option MatchResult) (entryAt : Nat → Option Entry)
    (valueAt : Nat → Option MatchResult) (steps : List (Event × Memory)) (kept : List Event) (lost : List Hit)
    (t' : PrimeTable MatchResult) : Prop where
  events : Kept cfg t steps kept lost
  all : (∀ s ∈ steps, s.2.Enough) → kept = steps.map Prod.fst ∧ lost = []
  table : ∃ valueAt' chains', TableOf t' (kept.foldl (apply cfg) results) entryAt valueAt' chains' ∧
    Leaves (lost.map newMatch) valueAt valueAt'

theorem run_returns (cfg : Config V) (hentries : {a | entryAt a ≠ none}.Finite) (steps : List (Event × Memory))
    (hvalue : ∀ s ∈ steps, s.2.value.Infallible) (h : TableOf t results entryAt valueAt chains)
    (hvalues : {a | valueAt a ≠ none}.Finite) (hlt : t.entries.toNat + (steps.map Prod.fst).countP Event.isTally ≤ 2 ^ 31) :
    Returns (run cfg t steps) fun t' => ∃ kept lost, Tallied cfg t results entryAt valueAt steps kept lost t' := by
  induction steps generalizing t results valueAt chains with
  | nil => exact Returns.pure ⟨[], [], .nil t, fun _ => ⟨rfl, rfl⟩, valueAt, chains, h, .nil _⟩
  | cons s steps ih =>
    obtain ⟨e, mem⟩ := s
    have hstep : Returns (step cfg t (e, mem)) fun t' => Stepped cfg t results entryAt valueAt e mem t' ∧
        t'.entries.toNat + (steps.map Prod.fst).countP Event.isTally ≤ 2 ^ 31 := by
      rw [List.map_cons, List.countP_cons] at hlt
      cases e with
      | tally hit =>
        rw [Event.isTally, if_pos rfl] at hlt
        refine (tally_returns cfg h hentries hvalues (by omega) (hvalue _ List.mem_cons_self) hit).mono fun t' ht' => ?_
        exact ⟨ht'.1, by omega⟩
      | sweep now =>
        refine (sweep_returns cfg h hvalues now).mono fun t' ht' => ?_
        exact ⟨ht'.1, by omega⟩
    obtain ⟨t', hstep, ⟨results', valueAt', chains', h', hvalues', hcase⟩, hcount⟩ := hstep
    rw [run, List.foldlM_cons, hstep]
    refine (ih (fun s hs => hvalue s (List.mem_cons_of_mem _ hs)) h' hvalues' hcount).mono fun u hu => ?_
    obtain ⟨kept, lost, hkept⟩ := hu
    obtain ⟨valueAt'', chains'', h'', hleaves⟩ := hkept.table
    rcases hcase with ⟨rfl, rfl, hdone⟩ | ⟨rfl, hit, rfl, hlost, hlittle, hleft⟩
    · refine ⟨e :: kept, lost, .keep hstep hdone hkept.events, fun henough => ?_, valueAt'', chains'', h'', hleaves⟩
      obtain ⟨hall, hnone⟩ := hkept.all fun s hs => henough s (List.mem_cons_of_mem _ hs)
      exact ⟨by rw [hall, List.map_cons], hnone⟩
    · have hnew : matchAt t hit.key = some none := by rw [matchAt_eq h, hlost.absent]
      exact ⟨kept, hit :: lost, .lose hstep hlost.answer hnew hlost.starved hkept.events,
        fun henough => absurd (henough _ List.mem_cons_self) hlittle, valueAt'', chains'', h'', hleft.append hleaves⟩

/-- **The matches of a query are those of the table as a map**, whatever the batches are and wherever the memory is, and the
end of the matcher leaves the memory as it was before. -/
theorem run_match (cfg : Config V) (db : Db) (batches : List (List (Fingerprint V))) {malloc calloc : Bool}
    (hentries : {a | entryAt a ≠ none}.Finite) (hvalues : {a | valueAt a ≠ none}.Finite)
    (hnew : HashTable.new malloc calloc entryAt valueAt = some t) {steps : List (Event × Memory)}
    (hsteps : steps.map Prod.fst = events cfg db.fps batches) (hvalue : ∀ s ∈ steps, s.2.value.Infallible)
    (henough : ∀ s ∈ steps, s.2.Enough) (hlt : (steps.map Prod.fst).countP Event.isTally ≤ 2 ^ 31) :
    Returns (run cfg t steps) fun t' =>
      (∀ key, matchAt t' key = some ((batches.foldl (matchFingerprints cfg) (FpMatcher.new db)).results key)) ∧
      t'.free = some (entryAt, valueAt) := by
  obtain ⟨hzero, chains, h⟩ := new_represents MatchResult.resultHashTableKey uint64THash hnew
  refine (run_returns cfg hentries steps hvalue h hvalues (by rw [hzero, UInt32.toNat_zero]; omega)).mono fun t' ht' => ?_
  obtain ⟨kept, lost, hkept⟩ := ht'
  obtain ⟨rfl, rfl⟩ := hkept.all henough
  obtain ⟨valueAt', chains', h', hleaves⟩ := hkept.table
  cases hleaves
  refine ⟨fun key => ?_, ?_⟩
  · rw [matchAt_eq h', hsteps, foldl_events]
    rfl
  · rw [free_eq h'.holds, h'.otherEntries, h'.otherValues]

/-- A fingerprint, and the same one 300 blocks later. -/
def earlier : Fingerprint ℚ := ⟨20, 3, 1, 30, 5, 1, 25, 9, 1⟩

def later : Fingerprint ℚ := ⟨20, 303, 1, 30, 305, 1, 25, 309, 1⟩

theorem twoReferences_sorted :
    [(earlier.hash, 4 * 2 ^ 32 + 7), (earlier.hash, 4 * 2 ^ 32 + 8)].Pairwise DupTable.Before := by decide

/-- Two audio files have it. -/
def twoReferences : Db where
  fps := ⟨[(earlier.hash, 4 * 2 ^ 32 + 7), (earlier.hash, 4 * 2 ^ 32 + 8)], twoReferences_sorted⟩
  resourceMap _ := none
  warningGiven := false

/-- A match is kept for a second. -/
def forgetful : Config ℚ := { Config.default ℚ with keepMatchesFor := 1 }

noncomputable def enoughMemory : Memory := ⟨firstFree, firstFree, true, 0⟩

/-- What `hash_table_new` returns when nothing is in use. -/
def emptyTable : PrimeTable MatchResult :=
  { table := List.replicate 193 none, entries := 0, entryAt := fun _ => none, valueAt := fun _ => none, primeIndex := 0 }

/-- The sweep after the second batch removes the matches of the first one. -/
theorem run_match_forgetful : Returns
    (run forgetful emptyTable ([.tally ⟨3, 4, 7⟩, .tally ⟨3, 4, 8⟩, .sweep 9, .tally ⟨303, 4, 7⟩, .tally ⟨303, 4, 8⟩,
      .sweep 309].map fun e => (e, enoughMemory)))
    fun t' => (∀ key, matchAt t' key =
        some (([[earlier], [later]].foldl (matchFingerprints forgetful) (FpMatcher.new twoReferences)).results key)) ∧
      t'.free = some (fun _ => none, fun _ => none) :=
  run_match forgetful twoReferences [[earlier], [later]] (by simp) (by simp)
    (show HashTable.new true true (fun _ => none) (fun _ => none) = some _ from rfl)
    (by rfl) (by simp [enoughMemory, firstFree_infallible]) (by simp [enoughMemory, Memory.Enough, firstFree_infallible])
    (by decide)

end Olaf.MatchTable
