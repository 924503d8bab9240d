import Olaf.MatchTable
import Olaf.Tally
/-!
# A query that goes on (`olaf_fp_matcher_match` with `keepMatchesFor`)

| here | there |
| --- | --- |
| `liveHits` | the hits that an entry of the table is about once matches are removed (`olaf_fp_matcher_remove_old_matches`, `:121`) |

After every batch the matches with no hit for longer than `keepMatchesFor` are removed. A later hit of the same key starts a
new match. `streamed` says which hits a match is about then: those since its key was last removed.
-/

namespace Olaf.MatchTable
open FpMatcher OldMatches

variable {V : Type}

/-- The hits `hs` of a key are forgotten when the last one is too old. -/
def liveStep (cfg : Config V) (key : Nat) (hs : List Hit) : Event → List Hit
  | .tally h => if h.key = key then hs ++ [h] else hs
  | .sweep currentQueryTime => if hs.getLast?.any fun h => currentQueryTime - h.queryT1 > maxAge cfg then [] else hs

def liveHits (cfg : Config V) (key : Nat) (events : List Event) : List Hit := events.foldl (liveStep cfg key) []

/-- The entry is about the hits `hs`. -/
structure About (hs : List Hit) (entry : Option MatchResult) : Prop where
  summary : Summary hs entry
  recent : ∀ m, entry = some m → ∃ h, hs.getLast? = some h ∧ m.queryFingerprintT1 = h.queryT1 ∧ m.referenceFingerprintT1 = h.referenceT1

theorem about_nil : About [] none := by
  refine ⟨⟨fun _ => rfl, fun h => absurd rfl h⟩, fun m hm => ?_⟩
  cases hm

theorem About.aggregate {hs : List Hit} {m : MatchResult} (h : About hs (some m)) : Aggregate hs m := by
  have hne : hs ≠ [] := by
    intro hnil
    cases h.summary.absent hnil
  obtain ⟨r, hr, hcount, hid, hfirst, hlast⟩ := h.summary.present hne
  obtain rfl := Option.some.inj hr
  simp only [List.mem_map] at hid hfirst hlast
  obtain ⟨hit, hmem, hid⟩ := hid
  exact ⟨hcount, hfirst, hlast, h.recent _ rfl, hit, hmem, hid.symm⟩

variable {cfg : Config V} {results : Nat → Option MatchResult} {key : Nat} {hs : List Hit}

theorem About.tally {h : Hit} (habout : About hs (results h.key)) :
    About (hs ++ [h]) (FpMatcher.tally results h.queryT1 h.referenceT1 h.identifier h.key) := by
  refine ⟨habout.summary.tally, fun m hm => ⟨h, List.getLast?_concat, ?_⟩⟩
  have hself : FpMatcher.tally results h.queryT1 h.referenceT1 h.identifier h.key = some _ := Function.update_self ..
  obtain rfl := Option.some.inj (hself.symm.trans hm)
  cases results (resultKey h.queryT1 h.referenceT1 h.identifier) <;> exact ⟨rfl, rfl⟩

/-- **One event.** -/
theorem About.step (habout : About hs (results key)) (e : Event) : About (liveStep cfg key hs e) (apply cfg results e key) := by
  cases e with
  | tally h =>
    rw [liveStep, apply]
    by_cases hk : h.key = key
    · subst hk
      rw [if_pos rfl]
      exact habout.tally
    · rw [if_neg hk, tally_other hk]
      exact habout
  | sweep now =>
    rw [liveStep, apply]
    dsimp only
    cases hentry : results key with
    | none =>
      rw [hentry] at habout
      have hnil : hs = [] := by
        by_contra hne
        obtain ⟨r, hr, _⟩ := habout.summary.present hne
        cases hr
      rw [hnil]
      exact about_nil
    | some m =>
      rw [hentry] at habout
      obtain ⟨h, hlast, htime, _⟩ := habout.recent m rfl
      rw [hlast, Option.any_some, ← htime]
      by_cases hold : now - m.queryFingerprintT1 > maxAge cfg
      · rw [if_pos (decide_eq_true hold), Option.filter, if_neg (by simp [keeps, hold])]
        exact about_nil
      · rw [if_neg (by simpa using hold), Option.filter, if_pos (by simp [keeps, hold])]
        exact habout

theorem about_foldl (cfg : Config V) (key : Nat) (es : List Event) (habout : About hs (results key)) :
    About (es.foldl (liveStep cfg key) hs) (es.foldl (apply cfg) results key) := by
  induction es generalizing hs results with
  | nil => exact habout
  | cons e es ih => exact ih (habout.step e)

def Event.hit : Event → Option Hit
  | .tally h => some h
  | .sweep _ => none

/-- The hits of a key in a run. -/
def hitsOfKey (key : Nat) (events : List Event) : List Hit := (events.filterMap Event.hit).filter fun h => h.key = key

theorem hitsOfKey_concat (key : Nat) (es : List Event) (e : Event) :
    hitsOfKey key (es ++ [e]) = hitsOfKey key es ++ e.hit.toList.filter fun h => h.key = key := by
  rw [hitsOfKey, List.filterMap_append, List.filter_append]
  cases e <;> rfl

theorem liveHits_suffix (cfg : Config V) (key : Nat) (es : List Event) : liveHits cfg key es <:+ hitsOfKey key es := by
  induction es using List.reverseRecOn with
  | nil => exact List.suffix_refl _
  | append_singleton es e ih =>
    rw [liveHits, List.foldl_concat, hitsOfKey_concat]
    cases e with
    | tally h =>
      rw [liveStep, Event.hit, Option.toList_some]
      by_cases hk : h.key = key
      · rw [if_pos hk, List.filter_cons_of_pos (by simpa using hk), List.filter_nil]
        obtain ⟨front, hfront⟩ := ih
        exact ⟨front, by rw [← List.append_assoc]; exact congrArg (· ++ [h]) hfront⟩
      · rw [if_neg hk, List.filter_cons_of_neg (by simpa using hk), List.filter_nil, List.append_nil]
        exact ih
    | sweep now =>
      rw [liveStep, Event.hit, Option.toList_none, List.filter_nil, List.append_nil]
      split
      · exact List.nil_suffix
      · exact ih

/-- After a batch with a fingerprint no hit that is left is too old. -/
theorem liveHits_recent (hkeep : cfg.keepMatchesFor ≠ 0) (key : Nat) (fps : DupTable Nat Nat)
    (batches : List (List (Fingerprint V))) {batch : List (Fingerprint V)} {f : Fingerprint V} (hlast : batch.getLast? = some f)
    {h : Hit} (hh : (liveHits cfg key (events cfg fps (batches ++ [batch]))).getLast? = some h) :
    f.timeIndex3 - h.queryT1 ≤ maxAge cfg := by
  have hbatch : batchEvents cfg fps batch = (batch.flatMap (hitsOf cfg fps)).map .tally ++ [.sweep f.timeIndex3] := by
    rw [batchEvents, hlast]
    dsimp only
    rw [if_pos hkeep]
  rw [events, List.flatMap_append, List.flatMap_singleton, hbatch, ← List.append_assoc, liveHits, List.foldl_concat, liveStep] at hh
  split at hh
  · cases hh
  · rename_i hage
    rw [hh, Option.any_some, decide_eq_true_eq] at hage
    exact Int.not_lt.1 hage

/-- The last hit of an entry is the last hit of its key. -/
theorem liveHits_last {key : Nat} {es : List Event} {h : Hit} (hlast : (liveHits cfg key es).getLast? = some h) :
    (hitsOfKey key es).getLast? = some h := by
  obtain ⟨front, hfront⟩ := liveHits_suffix cfg key es
  rw [← hfront, List.getLast?_append, hlast, Option.some_or]

/-- An entry with a hit from before a sweep was recent enough at it. -/
theorem liveHits_kept (key : Nat) {es before after : List Event} {now : Int} (hes : es = before ++ .sweep now :: after)
    (hlong : (hitsOfKey key after).length < (liveHits cfg key es).length) :
    ∃ h, (hitsOfKey key before).getLast? = some h ∧ now - h.queryT1 ≤ maxAge cfg := by
  induction es using List.reverseRecOn generalizing after with
  | nil => simp at hes
  | append_singleton es e ih =>
    rw [liveHits, List.foldl_concat, ← liveHits] at hlong
    rcases List.eq_nil_or_concat after with rfl | ⟨after, last, rfl⟩
    · -- the sweep is the last event
      obtain ⟨rfl, he⟩ := List.append_inj' hes rfl
      obtain rfl := List.singleton_inj.1 he
      rw [liveStep] at hlong
      split at hlong
      · simp at hlong
      · rename_i hage
        cases hlast : (liveHits cfg key es).getLast? with
        | none =>
          rw [List.getLast?_eq_none_iff] at hlast
          rw [hlast] at hlong
          simp at hlong
        | some h =>
          rw [hlast, Option.any_some, decide_eq_true_eq] at hage
          exact ⟨h, liveHits_last hlast, Int.not_lt.1 hage⟩
    · rw [List.concat_eq_append, ← List.cons_append, ← List.append_assoc] at hes
      obtain ⟨hinit, he⟩ := List.append_inj' hes rfl
      obtain rfl := List.singleton_inj.1 he
      refine ih hinit ?_
      rw [List.concat_eq_append, hitsOfKey_concat, List.length_append] at hlong
      cases e with
      | tally h =>
        rw [liveStep, Event.hit, Option.toList_some] at hlong
        by_cases hk : h.key = key
        · rw [if_pos hk, List.length_append, List.filter_cons_of_pos (by simpa using hk), List.filter_nil,
            List.length_singleton] at hlong
          omega
        · rw [if_neg hk] at hlong
          omega
      | sweep last =>
        rw [liveStep] at hlong
        split at hlong
        · simp at hlong
        · omega

/-- What an entry lacks of its key's hits was removed by a sweep at which the last of them was too old. -/
theorem liveHits_removed (cfg : Config V) (key : Nat) (es : List Event) :
    liveHits cfg key es = hitsOfKey key es ∨ ∃ before now after h, es = before ++ .sweep now :: after ∧
      (hitsOfKey key before).getLast? = some h ∧ maxAge cfg < now - h.queryT1 ∧ liveHits cfg key es = hitsOfKey key after := by
  induction es using List.reverseRecOn with
  | nil => exact .inl rfl
  | append_singleton es e ih =>
    have hstep : liveHits cfg key (es ++ [e]) = liveStep cfg key (liveHits cfg key es) e := by
      rw [liveHits, List.foldl_concat]
      rfl
    -- an event that removes nothing adds the same hits to both sides
    have hgoes (hsame : liveStep cfg key (liveHits cfg key es) e =
        liveHits cfg key es ++ e.hit.toList.filter fun h => h.key = key) :
        liveHits cfg key (es ++ [e]) = hitsOfKey key (es ++ [e]) ∨ ∃ before now after h,
          es ++ [e] = before ++ .sweep now :: after ∧ (hitsOfKey key before).getLast? = some h ∧
            maxAge cfg < now - h.queryT1 ∧ liveHits cfg key (es ++ [e]) = hitsOfKey key after := by
      rw [hstep, hsame, hitsOfKey_concat]
      rcases ih with hall | ⟨before, now, after, h, rfl, hlast, hage, hlive⟩
      · exact .inl (by rw [hall])
      · exact .inr ⟨before, now, after ++ [e], h, by simp, hlast, hage, by rw [hlive, hitsOfKey_concat]⟩
    cases e with
    | tally h =>
      refine hgoes ?_
      rw [liveStep, Event.hit, Option.toList_some]
      by_cases hk : h.key = key
      · rw [if_pos hk, List.filter_cons_of_pos (by simpa using hk), List.filter_nil]
      · rw [if_neg hk, List.filter_cons_of_neg (by simpa using hk), List.filter_nil, List.append_nil]
    | sweep now =>
      cases hlast : (liveHits cfg key es).getLast? with
      | none =>
        refine hgoes ?_
        rw [liveStep, hlast, Option.any_none, if_neg Bool.false_ne_true]
        exact (List.append_nil _).symm
      | some h =>
        by_cases hage : now - h.queryT1 > maxAge cfg
        · refine .inr ⟨es, now, [], h, rfl, liveHits_last hlast, hage, ?_⟩
          rw [hstep, liveStep, hlast, Option.any_some, if_pos (decide_eq_true hage)]
          rfl
        · refine hgoes ?_
          rw [liveStep, hlast, Option.any_some, if_neg (by simpa using hage)]
          exact (List.append_nil _).symm

/-- What a key has in the table while a query goes on. -/
structure Streamed (cfg : Config V) (fps : DupTable Nat Nat) (batches : List (List (Fingerprint V))) (key : Nat)
    (entry : Option MatchResult) : Prop where
  /-- The hits of the key since it was last removed. -/
  suffix : liveHits cfg key (events cfg fps batches) <:+ hitsOfKey key (events cfg fps batches)
  absent : entry = none ↔ liveHits cfg key (events cfg fps batches) = []
  present : ∀ m, entry = some m → Aggregate (liveHits cfg key (events cfg fps batches)) m
  /-- At a sweep between two of these hits the earlier one was recent enough. -/
  kept : ∀ before now after, events cfg fps batches = before ++ .sweep now :: after →
    (hitsOfKey key after).length < (liveHits cfg key (events cfg fps batches)).length →
    ∃ h, (hitsOfKey key before).getLast? = some h ∧ now - h.queryT1 ≤ maxAge cfg
  /-- The hits that are not among them were removed by a sweep at which the last of them was too old. -/
  removed : liveHits cfg key (events cfg fps batches) = hitsOfKey key (events cfg fps batches) ∨
    ∃ before now after h, events cfg fps batches = before ++ .sweep now :: after ∧
      (hitsOfKey key before).getLast? = some h ∧ maxAge cfg < now - h.queryT1 ∧
        liveHits cfg key (events cfg fps batches) = hitsOfKey key after
  /-- No match is left that was not hit for longer than it is kept. -/
  recent : cfg.keepMatchesFor ≠ 0 → ∀ done batch f, batches = done ++ [batch] → batch.getLast? = some f →
    ∀ m, entry = some m → f.timeIndex3 - m.queryFingerprintT1 ≤ maxAge cfg

/-- **A match is about the hits of its key since the key was last removed**, over any run of batches. -/
theorem streamed (cfg : Config V) (db : Db) (batches : List (List (Fingerprint V))) (key : Nat) :
    Streamed cfg db.fps batches key ((batches.foldl (matchFingerprints cfg) (FpMatcher.new db)).results key) := by
  have habout : About (liveHits cfg key (events cfg db.fps batches))
      ((batches.foldl (matchFingerprints cfg) (FpMatcher.new db)).results key) := by
    rw [foldl_events]
    exact about_foldl cfg key _ about_nil
  refine ⟨liveHits_suffix cfg key _, ⟨fun hnone => ?_, habout.summary.absent⟩, fun m hm => (hm ▸ habout).aggregate,
    fun before now after hes hlong => liveHits_kept key hes hlong, liveHits_removed cfg key _, ?_⟩
  · by_contra hne
    obtain ⟨m, hm, _⟩ := habout.summary.present hne
    rw [hnone] at hm
    cases hm
  · rintro hkeep done batch f rfl hlast m hm
    obtain ⟨h, hh, htime, _⟩ := habout.recent m hm
    rw [htime]
    exact liveHits_recent hkeep key db.fps done hlast hh

end Olaf.MatchTable
