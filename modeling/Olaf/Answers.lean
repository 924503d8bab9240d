import Olaf.Commands
import Olaf.Streaming
import Olaf.Report
import Olaf.SelfMatch
import Olaf.IdentityFilter
/-!
# What a query answers after some runs (`olaf_fp_matcher_print_results` on the folder of `Commands`)

| here | there |
| --- | --- |
| `Folder.txnBegin`, `printResults` | `olaf_db_new` with `readonly` (`olaf_db.c:71`) and a report on the table at any moment of a query (`olaf_fp_matcher.c:275`) |
| `Evidence`, `Backed` | what a line of a report says of the catalogue |
| `Duplicate` | the line by which `execute` in `olaf_cli_cmd_dedup.zig` (`:22`) finds one, once it has stored everything |

A report looks an identifier up in one table of the database that it found in the other. After runs of the program both are about
the same catalogue, so the path of a line is never left unset (`answers_backed`), and a match is backed by as many hits as it
counts, each of a fingerprint of the query and one of the audio that is named. The other way round an audio that is in the catalogue
under another identifier is found (`duplicates_found`).
-/

namespace Olaf.Answers
open StreamProcessor ParallelStore Sorting FpDbWriter FpMatcher QueryPrint MatchTable Commands

variable {V : Type}

/-! ## The hits of a query -/

theorem hits_batchEvents (cfg : Config V) (fps : DupTable Nat Nat) (batch : List (Fingerprint V)) :
    (batchEvents cfg fps batch).filterMap Event.hit = batch.flatMap (hitsOf cfg fps) := by
  have hhits : ((batch.flatMap (hitsOf cfg fps)).map Event.tally).filterMap Event.hit = batch.flatMap (hitsOf cfg fps) := by
    rw [List.filterMap_map]
    exact List.filterMap_some
  rw [batchEvents, List.filterMap_append, hhits]
  cases batch.getLast? with
  | none => exact List.append_nil _
  | some f =>
    dsimp only
    split <;> exact List.append_nil _

theorem hits_events (cfg : Config V) (fps : DupTable Nat Nat) (batches : List (List (Fingerprint V))) :
    (events cfg fps batches).filterMap Event.hit = batches.flatten.flatMap (hitsOf cfg fps) := by
  induction batches with
  | nil => rfl
  | cons batch batches ih =>
    rw [events, List.flatMap_cons, List.filterMap_append, hits_batchEvents, List.flatten_cons, List.flatMap_append]
    exact congrArg _ ih

/-- The value of a pair as a hit, for any time. -/
theorem hit_of_pair (queryT1 : Nat) (id : UInt32) (y : Fingerprint V) :
    hit queryT1 (pair id y).2 = ⟨i32 queryT1, i32 (u32 y.timeIndex1), id.toNat⟩ := by
  have hid := id.toNat_lt
  have htime : (pair id y).2 / 2 ^ 32 % 2 ^ 32 = u32 y.timeIndex1 := by
    rw [pair_value, u32]
    omega
  rw [hit, htime, pair_id]

theorem i32_range {x : Nat} (h : x < 2 ^ 32) : -2 ^ 31 ≤ i32 x ∧ i32 x < 2 ^ 31 := by
  unfold i32
  split <;> omega

theorem ints_of_hit {cfg : Config V} {fps : DupTable Nat Nat} {x : Fingerprint V} {h : Hit} (hh : h ∈ hitsOf cfg fps x) :
    h.Ints := by
  obtain ⟨v, _, rfl⟩ := List.mem_map.1 hh
  exact ⟨i32_range (by unfold u32; omega), i32_range (Nat.mod_lt _ (by decide)), Nat.mod_lt _ (by decide)⟩

/-! ## A report -/

/-- Without room there are no results. -/
theorem mem_collected {cfg : ReportConfig V} {q : QSort HashTablePair byMatchCount} {pairs : List HashTablePair}
    {p : HashTablePair} (hp : p ∈ collected cfg q pairs) : p ∈ pairs ∧ Counts cfg p := by
  have hstep : ∀ (l kept : List HashTablePair), p ∈ l.foldl (FpMatcher.collect cfg q) kept → p ∈ kept ∨ (p ∈ l ∧ Counts cfg p) := by
    intro l
    induction l with
    | nil => exact fun _ h => Or.inl h
    | cons a l ih =>
      intro kept h
      rcases ih _ h with h | ⟨h, hc⟩
      · rw [FpMatcher.collect] at h
        split at h
        · rename_i hcounts
          have hset : p ∈ kept ∨ p = a → p ∈ kept ∨ (p ∈ a :: l ∧ Counts cfg p) := by
            rintro (h | rfl)
            · exact Or.inl h
            · exact Or.inr ⟨List.mem_cons_self, hcounts⟩
          split at h
          · dsimp only at h
            split at h
            · split at h
              · exact hset ((List.mem_or_eq_of_mem_set h).imp_left (q.perm kept).mem_iff.1)
              · exact Or.inl ((q.perm kept).mem_iff.1 h)
            · exact Or.inl ((q.perm kept).mem_iff.1 h)
          · exact hset (by simpa using h)
        · exact Or.inl h
      · exact Or.inr ⟨List.mem_cons_of_mem _ h, hc⟩
  have hfold : p ∈ pairs.foldl (FpMatcher.collect cfg q) [] := by
    unfold collected at hp
    dsimp only at hp
    split at hp
    · exact (q.perm _).mem_iff.1 hp
    · exact hp
  exact (hstep pairs [] hfold).resolve_left List.not_mem_nil

/-- Hits that a match is counted from, between the fingerprints `queries` and those of an audio. -/
structure Evidence (rcfg : ReportConfig V) (fps : DupTable Nat Nat) (queries references : List (Fingerprint V)) (r : Match)
    (hits : List Hit) : Prop where
  found : hits.Sublist (queries.flatMap (hitsOf rcfg.toConfig fps))
  real : ∀ h ∈ hits, h.identifier = r.matchIdentifier.toNat ∧ ∃ x ∈ queries, ∃ y ∈ references,
    h.queryT1 = i32 (u32 x.timeIndex1) ∧ h.referenceT1 = i32 (u32 y.timeIndex1) ∧
    startKey rcfg.toConfig x.hash ≤ y.hash ∧ y.hash ≤ stopKey rcfg.toConfig x.hash
  count : r.matchCount = hits.length
  enough : rcfg.minMatchCount ≤ r.matchCount
  /-- They agree on where the query is in the audio. -/
  aligned : ∀ h ∈ hits, ∀ h' ∈ hits, h.pair = h'.pair
  start : ∃ first, IsLeast {t | ∃ h ∈ hits, h.referenceT1 = t} first ∧ r.referenceStart = first * secondsPerBlock rcfg
  stop : ∃ last, IsGreatest {t | ∃ h ∈ hits, h.referenceT1 = t} last ∧ r.referenceStop = last * secondsPerBlock rcfg
  lasts : ∃ first last, IsLeast {t | ∃ h ∈ hits, h.referenceT1 = t} first ∧
    IsGreatest {t | ∃ h ∈ hits, h.referenceT1 = t} last ∧ rcfg.minMatchTimeDiff ≤ duration rcfg first last

/-- A line of a report on the folder of a catalogue. -/
structure Backed [Sample V] (cfg : Config V) (q : QSort (EventPoint V) EventPoint.timeIndex) (library : UInt32 → Audio V)
    (ids : Finset UInt32) (rcfg : ReportConfig V) (fps : DupTable Nat Nat) (queries : List (Fingerprint V)) (r : Match) : Prop where
  known : r.matchIdentifier ∈ ids
  path : r.path = (library r.matchIdentifier).path.toList
  evidence : ∃ hits, Evidence rcfg fps queries (extracted cfg q (library r.matchIdentifier).frames) r hits

/-- An entry of the table of a query that goes on. -/
theorem entry_hits (cfg : Config V) (db : Db) (batches : List (List (Fingerprint V))) (key : Nat) {m : MatchResult}
    (hm : (batches.foldl (matchFingerprints cfg) (FpMatcher.new db)).results key = some m) :
    ∃ hits : List Hit, hits.Sublist (batches.flatten.flatMap (hitsOf cfg db.fps)) ∧ (∀ h ∈ hits, h.key = key) ∧ Aggregate hits m := by
  have hs := streamed cfg db batches key
  refine ⟨_, ?_, fun h hh => ?_, hs.present m hm⟩
  · rw [← hits_events]
    exact hs.suffix.sublist.trans List.filter_sublist
  · exact of_decide_eq_true (List.mem_filter.1 (hs.suffix.subset hh)).2

section Catalogue
variable [Sample V] {cfg : Config V} {q : QSort (EventPoint V) EventPoint.timeIndex} {library : UInt32 → Audio V}
  {ids : Finset UInt32} {f : Folder}

/-- A hit in a catalogue is on a fingerprint of one of its audios. -/
theorem hit_in_catalogue (hcatalog : Catalog cfg q library ids f) {qcfg : Config V} {x : Fingerprint V} {h : Hit}
    (hh : h ∈ hitsOf qcfg f.fps x) : ∃ id ∈ ids, h.identifier = id.toNat ∧ ∃ y ∈ extracted cfg q (library id).frames,
      h.queryT1 = i32 (u32 x.timeIndex1) ∧ h.referenceT1 = i32 (u32 y.timeIndex1) ∧
      startKey qcfg x.hash ≤ y.hash ∧ y.hash ≤ stopKey qcfg x.hash := by
  obtain ⟨v, hv, rfl⟩ := List.mem_map.1 hh
  obtain ⟨e, he, rfl⟩ := List.mem_map.1 (List.mem_of_mem_take hv)
  obtain ⟨hmem, hrange⟩ := List.mem_filter.1 he
  obtain ⟨hlow, hhigh, _⟩ := of_decide_eq_true hrange
  obtain ⟨id, hid, hpair⟩ := (hcatalog.fps e).1 hmem
  obtain ⟨y, hy, rfl⟩ := List.mem_map.1 hpair
  rw [hit_of_pair]
  exact ⟨id, hid, rfl, y, hy, rfl, rfl, hlow, hhigh⟩

/-- What an entry of the table is about. -/
structure EntryAbout (ids : Finset UInt32) (qcfg : Config V) (fps : DupTable Nat Nat) (queries : List (Fingerprint V)) (m : MatchResult)
    (hits : List Hit) : Prop where
  found : hits.Sublist (queries.flatMap (hitsOf qcfg fps))
  aligned : ∀ h ∈ hits, ∀ h' ∈ hits, h.pair = h'.pair
  aggregate : Aggregate hits m
  known : UInt32.ofNat m.matchIdentifier ∈ ids
  identifier : ∀ h ∈ hits, h.identifier = (UInt32.ofNat m.matchIdentifier).toNat

theorem entry_about (hcatalog : Catalog cfg q library ids f) (qcfg : Config V) (batches : List (List (Fingerprint V))) {key : Nat}
    {m : MatchResult} (hm : (batches.foldl (matchFingerprints qcfg) (FpMatcher.new f.txnBegin)).results key = some m) :
    ∃ hits, EntryAbout ids qcfg f.fps batches.flatten m hits := by
  obtain ⟨hits, hsub, hkeys, hagg⟩ := entry_hits qcfg f.txnBegin batches key hm
  have hfrom : ∀ h ∈ hits, ∃ x ∈ batches.flatten, h ∈ hitsOf qcfg f.fps x := fun h hh => List.mem_flatMap.1 (hsub.subset hh)
  have haligned : ∀ h ∈ hits, ∀ h' ∈ hits, h.pair = h'.pair := by
    intro h hh h' hh'
    obtain ⟨x, _, hx⟩ := hfrom h hh
    obtain ⟨x', _, hx'⟩ := hfrom h' hh'
    exact ((ints_of_hit hx).key_eq_iff (ints_of_hit hx')).1 ((hkeys h hh).trans (hkeys h' hh').symm)
  -- the identifier of the entry is that of one of its hits, and so of all of them
  obtain ⟨first, hfirst, hid⟩ := hagg.identifier
  obtain ⟨x, _, hx⟩ := hfrom first hfirst
  obtain ⟨id, hknown, hfirstId, _⟩ := hit_in_catalogue hcatalog hx
  have hofNat : UInt32.ofNat m.matchIdentifier = id := by
    rw [hid, hfirstId]
    exact UInt32.ofNat_toNat
  refine ⟨hits, hsub, haligned, hagg, hofNat ▸ hknown, fun h hh => ?_⟩
  rw [hofNat, ← hfirstId]
  exact congrArg Prod.fst (haligned h hh first hfirst)

/-- What is unset is never looked at. -/
theorem findMetaData_known (hcatalog : Catalog cfg q library ids f) {id : UInt32} (hid : id ∈ ids) (unset : ResourceMetaData) :
    findMetaData f.txnBegin id unset = StreamProcessor.metaData cfg q (library id) := by
  have hmeta : f.txnBegin.resourceMap id = some (StreamProcessor.metaData cfg q (library id)) :=
    (hcatalog.metaData id).trans (if_pos hid)
  rw [findMetaData, hmeta, Option.getD_some]

/-- The lines of a report. -/
structure AllBacked (cfg : Config V) (q : QSort (EventPoint V) EventPoint.timeIndex) (library : UInt32 → Audio V)
    (ids : Finset UInt32) (rcfg : ReportConfig V) (sort : QSort HashTablePair byMatchCount) (f : Folder)
    (unset : UInt32 → ResourceMetaData) (queries : List (Fingerprint V)) (pairs : List HashTablePair) : Prop where
  backed : ∀ r ∈ printResults rcfg sort f.txnBegin unset pairs, r = emptyResult ∨ Backed cfg q library ids rcfg f.fps queries r
  anyUnset : ∀ unset', printResults rcfg sort f.txnBegin unset pairs = printResults rcfg sort f.txnBegin unset' pairs

/-- **A report in a catalogue.** -/
theorem printed_backed (hcatalog : Catalog cfg q library ids f) (rcfg : ReportConfig V) (sort : QSort HashTablePair byMatchCount)
    (unset : UInt32 → ResourceMetaData) (batches : List (List (Fingerprint V))) {pairs : List HashTablePair}
    (hpairs : ∀ p ∈ pairs,
      (batches.foldl (matchFingerprints rcfg.toConfig) (FpMatcher.new f.txnBegin)).results p.key = some p.value) :
    AllBacked cfg q library ids rcfg sort f unset batches.flatten pairs := by
  refine ⟨fun r hr => ?_, fun unset' => ?_⟩
  · rcases List.mem_append.1 hr with hr | hr
    · obtain ⟨p, hp, hr⟩ := List.mem_filterMap.1 hr
      obtain ⟨hmem, hcounts⟩ := mem_collected hp
      obtain ⟨hits, habout⟩ := entry_about hcatalog rcfg.toConfig batches (hpairs p hmem)
      unfold reportMatch at hr
      split at hr
      · rename_i hlasts
        obtain rfl := Option.some.inj hr
        refine Or.inr ⟨habout.known, ?_, hits, habout.found, fun h hh => ⟨habout.identifier h hh, ?_⟩, ?_, hcounts, habout.aligned,
          ⟨_, habout.aggregate.first, rfl⟩, ⟨_, habout.aggregate.last, rfl⟩,
          ⟨_, _, habout.aggregate.first, habout.aggregate.last, hlasts⟩⟩
        · dsimp only
          rw [findMetaData_known hcatalog habout.known]
          rfl
        · obtain ⟨x, hx, hhx⟩ := List.mem_flatMap.1 (habout.found.subset hh)
          obtain ⟨id, _, hid, y, hy, htimes⟩ := hit_in_catalogue hcatalog hhx
          have hsame : id = UInt32.ofNat p.value.matchIdentifier :=
            UInt32.toNat_inj.1 (hid.symm.trans (habout.identifier h hh))
          subst hsame
          exact ⟨x, hx, y, hy, htimes⟩
        · dsimp only
          rw [habout.aggregate.count]
      · cases hr
    · split at hr
      · exact Or.inl (List.mem_singleton.1 hr)
      · cases hr
  · unfold printResults
    refine congrArg (· ++ _) (List.filterMap_congr fun p hp => ?_)
    obtain ⟨hits, habout⟩ := entry_about hcatalog rcfg.toConfig batches (hpairs p (mem_collected hp).1)
    unfold reportMatch
    dsimp only
    rw [findMetaData_known hcatalog habout.known, findMetaData_known hcatalog habout.known]

/-- **Every match of a query is backed by the audio that it names**, at any moment of a query after any runs of the program. -/
theorem answers_backed {fmt : MagnitudeFormat V} (hmax : cfg.maxFingerprints = (Config.default V).maxFingerprints)
    {commands : List (Command V)} (hfiles : ∀ command ∈ commands, ∀ file ∈ command.audioFiles, file.audio = library file.audioIdentifier)
    {endings : List Ending} (hsession : Session cfg q fmt commands emptyFolder f endings) (rcfg : ReportConfig V)
    (sort : QSort HashTablePair byMatchCount) (unset : UInt32 → ResourceMetaData) (batches : List (List (Fingerprint V)))
    {pairs : List HashTablePair} (hpairs : ∀ p ∈ pairs,
      (batches.foldl (matchFingerprints rcfg.toConfig) (FpMatcher.new f.txnBegin)).results p.key = some p.value) :
    AllBacked cfg q library (Spec.session ∅ commands).1 rcfg sort f unset batches.flatten pairs :=
  printed_backed (session_spec hmax hfiles (catalog_emptyFolder cfg q library) hsession).1 rcfg sort unset batches hpairs

/-- The whole table of a query for the audio that was stored. -/
theorem answers_backed_lastFile :
    ∃ f endings, Session (.default ℚ) (.insertion _ EventPoint.timeIndex) FpDbWriterCache.sixDecimals [.store 1 [lastFile]]
        emptyFolder f endings ∧ ∃ t : ResultTable,
      (∀ p, p ∈ t.pairs ↔ ([extracted (.default ℚ) (.insertion _ EventPoint.timeIndex) lastAudio.frames].foldl
        (matchFingerprints (ReportConfig.default ℚ).toConfig) (FpMatcher.new f.txnBegin)).results p.key = some p.value) ∧
      AllBacked (.default ℚ) (.insertion _ EventPoint.timeIndex) lastLibrary {7} (.default ℚ) (.insertion _ _) f
        (fun _ => ⟨"", 0, 0⟩) [extracted (.default ℚ) (.insertion _ EventPoint.timeIndex) lastAudio.frames].flatten t.pairs := by
  obtain ⟨⟨f, ending⟩, hstore⟩ : ∃ r, Ran (.default ℚ) (.insertion _ EventPoint.timeIndex) FpDbWriterCache.sixDecimals
    (.store 1 [lastFile]) emptyFolder r := ⟨_, .storeAlone _ (by decide)⟩
  have hsession := Session.cons hstore (.nil f)
  have hkeep : (ReportConfig.default ℚ).keepMatchesFor = 0 := by simp [ReportConfig.default, Config.default]
  obtain ⟨t, ht⟩ := exists_resultTable ([extracted (.default ℚ) (.insertion _ EventPoint.timeIndex) lastAudio.frames].flatten.flatMap
    (hitsOf (ReportConfig.default ℚ).toConfig (FpMatcher.new f.txnBegin).db.fps))
  have hpairs : ∀ p, p ∈ t.pairs ↔ ([extracted (.default ℚ) (.insertion _ EventPoint.timeIndex) lastAudio.frames].foldl
      (matchFingerprints (ReportConfig.default ℚ).toConfig) (FpMatcher.new f.txnBegin)).results p.key = some p.value := fun p => by
    rw [match_results hkeep]
    exact ht p
  have hfiles : ∀ command ∈ [Command.store 1 [lastFile]], ∀ file ∈ command.audioFiles,
      file.audio = lastLibrary file.audioIdentifier := by
    simp [Command.audioFiles, lastFile, lastLibrary]
  have hspec : (Spec.session ∅ [Command.store 1 [lastFile]]).1 = {7} := by
    decide +kernel
  have hbacked := answers_backed rfl hfiles hsession (ReportConfig.default ℚ) (.insertion _ _) (fun _ => ⟨"", 0, 0⟩)
    [extracted (.default ℚ) (.insertion _ EventPoint.timeIndex) lastAudio.frames] fun p hp => (hpairs p).1 hp
  rw [hspec] at hbacked
  exact ⟨f, [ending], hsession, t, hpairs, hbacked⟩

end Catalogue

/-! ## Duplicates -/

section Duplicates
variable [Sample V] {q : QSort (EventPoint V) EventPoint.timeIndex} {fmt : MagnitudeFormat V} {library : UInt32 → Audio V}
  {ids : Finset UInt32} {f : Folder} {id : UInt32}

/-- An audio of a catalogue is stored. -/
theorem stored_of_catalog (hcatalog : Catalog (.default V) q library ids f) (hid : id ∈ ids)
    (hroom : NeverFull (.default V) f.txnBegin (extracted (.default V) q (library id).frames)) :
    Stored id (extracted (.default V) q (library id).frames) f.fps := by
  refine ⟨fun x hx => (hcatalog.fps _).2 ⟨id, hid, List.mem_map_of_mem hx⟩, fun e he hown => ?_, extracted_range q _,
    fun x hx => hroom.room hx⟩
  obtain ⟨id', _, hpair⟩ := (hcatalog.fps e).1 he
  obtain ⟨y, hy, rfl⟩ := List.mem_map.1 hpair
  rw [pair_id] at hown
  obtain rfl := UInt32.toNat_inj.1 hown
  exact ⟨y, hy, rfl⟩

/-- A line about an audio with the fingerprints `fps` that is all of the query. -/
structure Duplicate (rcfg : ReportConfig V) (audio : Audio V) (id : UInt32) (fps : List (Fingerprint V)) (r : Match) : Prop where
  matchIdentifier : r.matchIdentifier = id
  path : r.path = audio.path.toList
  count : fps.length ≤ r.matchCount
  start : ∃ first, IsLeast {t | ∃ x ∈ fps, x.timeIndex1 = t} first ∧ r.referenceStart = first * secondsPerBlock rcfg
  stop : ∃ last, IsGreatest {t | ∃ x ∈ fps, x.timeIndex1 = t} last ∧ r.referenceStop = last * secondsPerBlock rcfg

/-- The entry of an audio that is all of the query is printed when there is room for all that count. -/
theorem printed_of_covers {rcfg : ReportConfig V} (hK : 1 ≤ rcfg.maxResults) (sort : QSort HashTablePair byMatchCount)
    (hcatalog : Catalog (.default V) q library ids f) (hid : id ∈ ids) (unset : UInt32 → ResourceMetaData) {t : ResultTable}
    {order : List HashTablePair} (horder : order.Perm t.pairs) (hfew : (t.pairs.filter (Counts rcfg ·)).length ≤ rcfg.maxResults)
    {fps : List (Fingerprint V)} {key : Nat} {m : MatchResult} (hm : ⟨key, m⟩ ∈ t.pairs) (hcovers : Covers id fps m)
    (henough : rcfg.minMatchCount ≤ fps.length) (hlasts : Lasts rcfg m) :
    ∃ r ∈ printResults rcfg sort f.txnBegin unset order, Duplicate rcfg (library id) id fps r := by
  have hcount := hcovers.count
  have hcounts : Counts rcfg ⟨key, m⟩ := by
    show m.matchCount ≥ rcfg.minMatchCount
    omega
  have hseen : (⟨key, m⟩ : HashTablePair) ∈ order.filter (Counts rcfg ·) :=
    List.mem_filter.2 ⟨horder.mem_iff.2 hm, decide_eq_true hcounts⟩
  have hkept : (⟨key, m⟩ : HashTablePair) ∈ collected rcfg sort order :=
    (collected_best rcfg sort hK order).all (by rw [(horder.filter _).length_eq]; exact hfew) hseen
  have hknown := findMetaData_known hcatalog hid (unset id)
  have hofNat : UInt32.ofNat m.matchIdentifier = id := by
    rw [hcovers.identifier]
    exact UInt32.ofNat_toNat
  have hline : reportMatch rcfg f.txnBegin unset m = some ⟨m.matchCount, queryStart rcfg m, queryStop rcfg m,
      (StreamProcessor.metaData (.default V) q (library id)).path.toList, id, referenceStart rcfg m, referenceStop rcfg m⟩ := by
    unfold reportMatch
    dsimp only
    rw [if_pos hlasts, hofNat, hknown]
  refine ⟨_, List.mem_append_left _ (List.mem_filterMap.2 ⟨_, hkept, hline⟩), rfl, rfl, ?_, ⟨_, hcovers.first, rfl⟩,
    ⟨_, hcovers.last, rfl⟩⟩
  exact Int.ofNat_le.2 hcount

omit [Sample V] in
theorem lasts_of_covers {rcfg : ReportConfig V} (htime : rcfg.minMatchTimeDiff ≤ 0) {fps : List (Fingerprint V)} {m : MatchResult}
    (hcovers : Covers id fps m) : Lasts rcfg m := by
  obtain ⟨x, hx, hfirst⟩ := hcovers.first.1
  have hle : m.firstReferenceFingerprintT1 ≤ m.lastReferenceFingerprintT1 := hfirst ▸ hcovers.last.2 ⟨x, hx, rfl⟩
  exact htime.trans (duration_nonneg rcfg hle)

/-- **An audio that is in the catalogue under another identifier is found**, if the lookups and the report have room. -/
theorem duplicates_found {commands : List (Command V)}
    (hfiles : ∀ command ∈ commands, ∀ file ∈ command.audioFiles, file.audio = library file.audioIdentifier)
    {endings : List Ending} (hsession : Session (.default V) q fmt commands emptyFolder f endings)
    (hid : id ∈ (Spec.session ∅ commands).1) {audio : Audio V} (hsame : audio.frames = (library id).frames)
    (hroom : NeverFull (.default V) f.txnBegin (extracted (.default V) q audio.frames))
    (hsome : extracted (.default V) q audio.frames ≠ []) {rcfg : ReportConfig V} (hK : 1 ≤ rcfg.maxResults)
    (henough : rcfg.minMatchCount ≤ (extracted (.default V) q audio.frames).length) (htime : rcfg.minMatchTimeDiff ≤ 0)
    {queryId : UInt32} {outcome : Outcome} (hquery : process (.default V) q fmt .query audio queryId f.txnBegin = some outcome)
    {t : ResultTable} (ht : ∀ p, p ∈ t.pairs ↔ outcome.results p.key = some p.value)
    (hfew : (t.pairs.filter (Counts rcfg ·)).length ≤ rcfg.maxResults)
    {order : List HashTablePair} (horder : order.Perm t.pairs) (sort : QSort HashTablePair byMatchCount)
    (unset : UInt32 → ResourceMetaData) {query : ParallelQuery.Query} (hraw : query.rawAudio = true)
    (hfinal : query.final = printResults rcfg sort f.txnBegin unset order)
    (hother : query.ctx.excludeIdentifier = 0 ∨ id ≠ query.ctx.excludeIdentifier) (fixed3 : ℚ → List Char)
    (format : ParallelQuery.OutputFormat) :
    ∃ r ∈ ParallelQuery.reported fixed3 format query,
      Duplicate rcfg (library id) id (extracted (.default V) q audio.frames) r := by
  have hcatalog := (session_spec rfl hfiles (catalog_emptyFolder _ q library) hsession).1
  have hstored : Stored id (extracted (.default V) q audio.frames) f.fps := by
    rw [hsame] at hroom ⊢
    exact stored_of_catalog hcatalog hid hroom
  obtain ⟨m, hm, hcovers⟩ := hstored.covers hsome
  have hresults := process_query q fmt (show (Config.default V).keepMatchesFor = 0 by simp [Config.default]) audio queryId f.txnBegin
  rw [hquery, Option.map_some, Option.some.injEq] at hresults
  have hentry : (⟨resultKey 0 0 id.toNat, m⟩ : HashTablePair) ∈ t.pairs := (ht _).2 (by rw [hresults]; exact hm)
  obtain ⟨r, hr, hdup⟩ := printed_of_covers hK sort hcatalog hid unset horder hfew hentry hcovers henough
    (lasts_of_covers htime hcovers)
  refine ⟨r, ?_, hdup⟩
  have hpos : 0 < r.matchCount := lt_of_lt_of_le (Int.natCast_pos.2 (List.length_pos_iff.2 hsome)) hdup.count
  have hresult : r ∈ query.results := by
    rw [ParallelQuery.Query.results, if_pos hraw]
    refine List.mem_flatten_of_mem (List.mem_append_right _ (List.mem_singleton_self _)) ?_
    rw [hfinal]
    exact hr
  have hkept : excluded query.ctx r = false := by
    rw [excluded, hdup.matchIdentifier, decide_eq_false_iff_not]
    rintro ⟨hzero, _, hown⟩
    exact hother.elim hzero fun hne => hne hown
  have hin : r ∈ (ParallelQuery.reported fixed3 format query).filter fun m => 0 < m.matchCount := by
    rw [ParallelQuery.reported_matches, List.mem_filter]
    exact ⟨hresult, decide_eq_true ⟨hpos, hkept⟩⟩
  exact (List.mem_filter.1 hin).1

/-- A table has no more entries than there were hits. -/
theorem length_pairs_le {hits : List Hit} {t : ResultTable}
    (ht : ∀ p, p ∈ t.pairs ↔ tallyAll (fun _ => none) hits p.key = some p.value) : t.pairs.length ≤ hits.length := by
  have hsub : t.pairs.map HashTablePair.key ⊆ hits.map Hit.key := by
    intro key hkey
    obtain ⟨p, hp, rfl⟩ := List.mem_map.1 hkey
    obtain ⟨h, hh, hk⟩ := (tally_isSome hits p.key).1 ⟨_, (ht p).1 hp⟩
    exact List.mem_map.2 ⟨h, hh, hk⟩
  have hle := (List.subperm_of_subset t.keys hsub).length_le
  rwa [List.length_map, List.length_map] at hle

/-- What stays of the audio that was stored. -/
def lastFolder : Folder := (Task.ofAudio (.default ℚ) (.insertion _ EventPoint.timeIndex) lastAudio 7).storedIn emptyFolder

theorem lastFolder_session : Session (.default ℚ) (.insertion _ EventPoint.timeIndex) FpDbWriterCache.sixDecimals
    [.store 1 [lastFile]] emptyFolder lastFolder [.finished] := by
  have hrun : processAll (.default ℚ) (.insertion _ EventPoint.timeIndex) FpDbWriterCache.sixDecimals .store emptyFolder
      [lastFile] = (lastFolder, .finished) := by
    rw [processAll, processAudioFile_store rfl]
    rfl
  have hstore : Ran (.default ℚ) (.insertion _ EventPoint.timeIndex) FpDbWriterCache.sixDecimals (.store 1 [lastFile])
      emptyFolder (processAll (.default ℚ) (.insertion _ EventPoint.timeIndex) FpDbWriterCache.sixDecimals .store emptyFolder
        [lastFile]) := .storeAlone _ (by decide)
  rw [hrun] at hstore
  exact .cons hstore (.nil _)

theorem length_storedIn_le (t : Task) (f : Folder) :
    (t.storedIn f).txnBegin.fps.entries.length ≤ t.pairs.length + f.fps.entries.length := by
  have hle := Db.length_store_le f.txnBegin t.pairs
  rw [← Db.storeMetaData_fps _ t.audioIdentifier t.metaData] at hle
  exact hle

theorem length_lastFolder : lastFolder.txnBegin.fps.entries.length ≤ 1 := by
  have hle := length_storedIn_le (Task.ofAudio (.default ℚ) (.insertion _ EventPoint.timeIndex) lastAudio 7) emptyFolder
  have hpairs : (Task.ofAudio (.default ℚ) (.insertion _ EventPoint.timeIndex) lastAudio 7).pairs.length = 1 := by
    rw [Task.ofAudio, List.length_map, extracted_lastAudio]
  rw [hpairs] at hle
  exact hle

/-- The audio under another identifier. -/
theorem duplicates_found_lastFile : ∃ outcome, process (.default ℚ) (.insertion _ EventPoint.timeIndex)
      FpDbWriterCache.sixDecimals .query lastAudio 3 lastFolder.txnBegin = some outcome ∧
    ∃ t : ResultTable, (∀ p, p ∈ t.pairs ↔ outcome.results p.key = some p.value) ∧
    ∃ r ∈ ParallelQuery.reported (fun _ => []) .csv ⟨⟨0, 1, [], 0, 3⟩, ⟨1, 0, 0⟩, true, [],
        printResults { ReportConfig.default ℚ with minMatchCount := 1 } (.insertion _ _) lastFolder.txnBegin (fun _ => ⟨"", 0, 0⟩)
          t.pairs⟩,
      Duplicate { ReportConfig.default ℚ with minMatchCount := 1 } lastAudio 7
        (extracted (.default ℚ) (.insertion _ EventPoint.timeIndex) lastAudio.frames) r := by
  have hlen := extracted_lastAudio
  have hentries := length_lastFolder
  have hkeep : (Config.default ℚ).keepMatchesFor = 0 := by simp [Config.default]
  have hquery := process_query (.insertion _ EventPoint.timeIndex) FpDbWriterCache.sixDecimals hkeep lastAudio 3 lastFolder.txnBegin
  obtain ⟨outcome, ho, hresults⟩ := Option.map_eq_some_iff.1 hquery
  obtain ⟨t, ht⟩ := exists_resultTable ((extracted (.default ℚ) (.insertion _ EventPoint.timeIndex) lastAudio.frames).flatMap
    (hitsOf (.default ℚ) lastFolder.txnBegin.fps))
  have hpairs : ∀ p, p ∈ t.pairs ↔ outcome.results p.key = some p.value := fun p => by
    rw [hresults]
    exact ht p
  have hfiles : ∀ command ∈ [Command.store 1 [lastFile]], ∀ file ∈ command.audioFiles,
      file.audio = lastLibrary file.audioIdentifier := by
    simp [Command.audioFiles, lastFile, lastLibrary]
  have hspec : (Spec.session ∅ [Command.store 1 [lastFile]]).1 = {7} := by
    decide +kernel
  have hfew : t.pairs.length ≤ 1 := by
    obtain ⟨x, hx⟩ := List.length_eq_one_iff.1 hlen
    refine (length_pairs_le ht).trans ?_
    rw [hx, List.flatMap_singleton, hitsOf, List.length_map, List.length_take]
    refine (min_le_right _ _).trans (le_trans ?_ hentries)
    rw [Db.valuesIn, List.length_map]
    exact List.length_filter_le ..
  have hsome : extracted (.default ℚ) (.insertion _ EventPoint.timeIndex) lastAudio.frames ≠ [] := by
    intro hnil
    rw [hnil] at hlen
    cases hlen
  refine ⟨outcome, ho, t, hpairs, ?_⟩
  exact duplicates_found hfiles lastFolder_session (by rw [hspec]; decide)
    (show lastAudio.frames = (lastLibrary 7).frames from rfl) (.of_length (lt_of_le_of_lt hentries (by decide)) _)
    hsome (show 1 ≤ { ReportConfig.default ℚ with minMatchCount := 1 }.maxResults by decide) (by rw [hlen]; decide) (by decide) ho hpairs
    ((List.length_filter_le ..).trans (hfew.trans (by decide))) (.refl _) _ _ rfl rfl (Or.inr (show (7 : UInt32) ≠ 3 by decide)) _ _

end Duplicates

end Olaf.Answers
