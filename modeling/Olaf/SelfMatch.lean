import Olaf.StoreDelete
/-!
# Stored audio matches itself (`STORE`, then `QUERY`)

Under the default configuration every event point comes from a full ring (`detected_range`), so the first time
and the first bin of a fingerprint are in ranges where neither its value nor its search range wraps. Once its
pair is stored, a lookup around its hash returns it as a hit with time difference zero (`self_hit`), and every
hit under that key is such a pair (`hit_back`). The entry of the key therefore sums up the fingerprints of the run.
-/

namespace Olaf.StreamProcessor
open EpExtractor FpExtractor FpMatcher FpDbWriter Sorting

variable {V : Type} [Sample V]

/-! ## The ranges of a run -/

/-- No event point before the ring is full. -/
theorem detected_late {cfg : Config V} (hT : 1 ≤ cfg.filterSizeTime) {frames : List (Frame V)} {b : Nat}
    {new : List (EventPoint V)} (hb : (detected cfg frames)[b]? = some new) {p : EventPoint V} (hp : p ∈ new) :
    cfg.filterSizeTime ≤ b + 1 := by
  have hlt := (List.getElem?_eq_some_iff.1 hb).1
  rw [detected_length] at hlt
  obtain ⟨_, hget⟩ := detected_get cfg (List.getElem?_eq_getElem hlt)
  have hindex := (detect_history hT (frames.take b)).index
  rw [hget, Option.some.injEq] at hb
  rw [← hb, found] at hp
  split at hp
  · rename_i hfull
    have hload : (load cfg (detect cfg (frames.take b)).1 frames[b]).filterIndex =
        (detect cfg (frames.take b)).1.filterIndex := rfl
    rw [hload, hindex, List.length_take] at hfull
    omega
  · cases hp

/-- The event points of a default run. -/
structure InRange (n : Nat) (p : EventPoint V) : Prop where
  time : 11 ≤ p.timeIndex ∧ p.timeIndex < n
  bin : 9 ≤ p.frequencyBin ∧ p.frequencyBin ≤ 510

theorem detected_range (frames : List (Frame V)) :
    ∀ p ∈ (detected (.default V) frames).flatten, InRange frames.length p := by
  intro p hp
  obtain ⟨new, hnew, hpn⟩ := List.mem_flatten.1 hp
  obtain ⟨b, hb, rfl⟩ := List.mem_iff_getElem.1 hnew
  have hget := List.getElem?_eq_getElem hb
  have hblock := detected_timed (.default V) frames b _ hget
  have hsize : 1 ≤ (Config.default V).filterSizeTime := by simp [Config.default]
  have hlate := detected_late hsize hget hpn
  have htime := hblock.time p hpn
  obtain ⟨j, hj, h1, h2⟩ := hblock.bin p hpn
  rw [detected_length] at hb
  simp only [Config.default] at hlate htime h1 h2
  exact ⟨by omega, by omega⟩

/-- The first time and the first bin of the fingerprints of a default run. -/
theorem extracted_range (q : QSort (EventPoint V) EventPoint.timeIndex) (audio : Audio V) :
    ∀ f ∈ extracted (.default V) q audio.frames,
      (11 ≤ f.timeIndex1 ∧ f.timeIndex1 < 2 ^ 31) ∧ 9 ≤ f.frequencyBin1 ∧ f.frequencyBin1 ≤ 510 := by
  have hP : ∀ p p' : EventPoint V, Agree p p' → InRange audio.frames.length p' → InRange audio.frames.length p :=
    fun p p' hag h => ⟨hag.time ▸ h.time, hag.bin ▸ h.bin⟩
  intro f hf
  rw [extracted, handed_inserted _ _ rfl] at hf
  obtain ⟨x, y, z, hx, _, _, rfl⟩ :=
    delivered_made hP (detected_timed _ audio.frames).inTime (detected_range audio.frames) f hf
  have hcount := audio.countable
  obtain ⟨hlow, hhigh⟩ := hx.time
  exact ⟨⟨hlow, by simp only [fingerprint]; omega⟩, hx.bin⟩

/-! ## Hits with time difference zero -/

theorem i32_u32 {t : Int} (h : 0 ≤ t ∧ t < 2 ^ 31) : i32 (u32 t) = t := by
  rw [u32, i32, if_pos (by omega)]
  omega

theorem resultKey_self (t : Int) (id : Nat) : resultKey t t id = resultKey 0 0 id := by
  simp only [resultKey, Int.sub_self]

/-- The identifier can be read off the key. -/
theorem resultKey_id {t t' : Int} {i id : Nat} (hi : i < 2 ^ 32) (hid : id < 2 ^ 32)
    (h : resultKey t t' i = resultKey 0 0 id) : i = id := by
  simp only [resultKey, Nat.shiftLeft_eq, Int.sub_self, Int.zero_shiftRight, u64] at h
  omega

/-- The table has the pairs of the fingerprints and no other pair of the audio. -/
structure Stored (id : UInt32) (fps : List (Fingerprint V)) (t : DupTable Nat Nat) : Prop where
  has : ∀ f ∈ fps, pair id f ∈ t
  only : ∀ e ∈ t, e.2 % 2 ^ 32 = id.toNat → ∃ f ∈ fps, e = pair id f
  range : ∀ f ∈ fps, (11 ≤ f.timeIndex1 ∧ f.timeIndex1 < 2 ^ 31) ∧ 9 ≤ f.frequencyBin1 ∧ f.frequencyBin1 ≤ 510
  room : ∀ f ∈ fps, (Db.valuesIn t (startKey (.default V) f.hash) (stopKey (.default V) f.hash)).length <
    (Config.default V).maxDBCollisions

section Stored
variable {id : UInt32} {fps : List (Fingerprint V)} {t : DupTable Nat Nat} {f : Fingerprint V}

omit [Sample V] in
/-- The value of a stored fingerprint as a hit. -/
theorem hit_pair (h : 11 ≤ f.timeIndex1 ∧ f.timeIndex1 < 2 ^ 31) (queryT1 : Nat) :
    hit queryT1 (pair id f).2 = ⟨i32 queryT1, f.timeIndex1, id.toNat⟩ := by
  have htime := pair_time id (f := f) (by omega) (by omega)
  have href : i32 ((pair id f).2 / 2 ^ 32 % 2 ^ 32) = f.timeIndex1 := by
    rw [i32, if_pos (by omega)]
    omega
  rw [hit, href, pair_id]

/-- **A stored fingerprint hits itself.** -/
theorem Stored.self_hit (h : Stored id fps t) (hf : f ∈ fps) :
    (⟨f.timeIndex1, f.timeIndex1, id.toNat⟩ : Hit) ∈ hitsOf (.default V) t f := by
  obtain ⟨ht, h1, h2⟩ := h.range f hf
  obtain ⟨hlow, hstart, hstop⟩ := keys_default h1 h2
  have hroom := h.room f hf
  have hvalue : (pair id f).2 ≠ 0 := by
    have := pair_time id (f := f) (by omega) (by omega)
    intro h0
    rw [h0] at this
    omega
  have hmem : (pair id f).2 ∈ Db.valuesIn t (startKey (.default V) f.hash) (stopKey (.default V) f.hash) := by
    refine List.mem_map_of_mem (List.mem_filter.2 ⟨h.has f hf, decide_eq_true ?_⟩)
    rw [hstart, hstop]
    simp only [pair] at hvalue ⊢
    exact ⟨by omega, by omega, hvalue⟩
  have hhit : hit (u32 f.timeIndex1) (pair id f).2 = ⟨f.timeIndex1, f.timeIndex1, id.toNat⟩ := by
    rw [hit_pair ht, i32_u32 ⟨by omega, ht.2⟩]
  rw [hitsOf, List.take_of_length_le (Nat.le_of_lt hroom), ← hhit]
  exact List.mem_map_of_mem hmem

/-- **A hit under the key of time difference zero is a stored fingerprint of the audio.** -/
theorem Stored.hit_back (h : Stored id fps t) {x : Hit} (hx : x ∈ hitsOf (.default V) t f)
    (hkey : x.key = resultKey 0 0 id.toNat) : x.identifier = id.toNat ∧ ∃ g ∈ fps, g.timeIndex1 = x.referenceT1 := by
  obtain ⟨v, hv, rfl⟩ := List.mem_map.1 hx
  obtain ⟨e, he, rfl⟩ := List.mem_map.1 (List.mem_of_mem_take hv)
  have hid : e.2 % 2 ^ 32 = id.toNat := resultKey_id (Nat.mod_lt _ (by decide)) id.toNat_lt hkey
  obtain ⟨g, hg, rfl⟩ := h.only e (List.mem_filter.1 he).1 hid
  rw [hit_pair (h.range g hg).1]
  exact ⟨rfl, g, hg, rfl⟩

/-- Every fingerprint has a hit of its own. -/
theorem length_le_hits {α β : Type} {g : α → List β} {p : β → Bool} : ∀ {l : List α}, (∀ a ∈ l, ∃ b ∈ g a, p b = true) →
    l.length ≤ ((l.flatMap g).filter p).length
  | [], _ => Nat.zero_le _
  | a :: l, h => by
    obtain ⟨b, hb, hp⟩ := h a List.mem_cons_self
    have hone : 0 < ((g a).filter p).length := List.length_pos_of_mem (List.mem_filter.2 ⟨hb, hp⟩)
    have hrest := length_le_hits fun a ha => h a (List.mem_cons_of_mem _ ha)
    rw [List.flatMap_cons, List.filter_append, List.length_append, List.length_cons]
    omega

/-- What the entry of an audio at time difference zero says about the fingerprints of a run. -/
structure Covers (id : UInt32) (fps : List (Fingerprint V)) (m : MatchResult) : Prop where
  identifier : m.matchIdentifier = id.toNat
  count : fps.length ≤ m.matchCount
  first : IsLeast {t | ∃ f ∈ fps, f.timeIndex1 = t} m.firstReferenceFingerprintT1
  last : IsGreatest {t | ∃ f ∈ fps, f.timeIndex1 = t} m.lastReferenceFingerprintT1

theorem Stored.covers (h : Stored id fps t) (hne : fps ≠ []) :
    ∃ m, tallyAll (fun _ => none) (fps.flatMap (hitsOf (.default V) t)) (resultKey 0 0 id.toNat) = some m ∧
      Covers id fps m := by
  have hsum := tally_summary (fps.flatMap (hitsOf (.default V) t)) (resultKey 0 0 id.toNat)
  have hself : ∀ f ∈ fps, ∃ x ∈ hitsOf (.default V) t f,
      decide (x.key = resultKey 0 0 id.toNat) = true := fun f hf =>
    ⟨_, h.self_hit hf, decide_eq_true (resultKey_self _ _)⟩
  have hlen := length_le_hits hself
  have hback : ∀ x ∈ (fps.flatMap (hitsOf (.default V) t)).filter (fun x => x.key = resultKey 0 0 id.toNat),
      x.identifier = id.toNat ∧ ∃ g ∈ fps, g.timeIndex1 = x.referenceT1 := by
    intro x hx
    obtain ⟨hx, hkey⟩ := List.mem_filter.1 hx
    obtain ⟨f, _, hxf⟩ := List.mem_flatMap.1 hx
    exact h.hit_back hxf (of_decide_eq_true hkey)
  have htimes : {t' | t' ∈ ((fps.flatMap (hitsOf (.default V) t)).filter
      (fun x => x.key = resultKey 0 0 id.toNat)).map Hit.referenceT1} = {t | ∃ f ∈ fps, f.timeIndex1 = t} := by
    ext t'
    constructor
    · intro ht'
      obtain ⟨x, hx, rfl⟩ := List.mem_map.1 ht'
      exact (hback x hx).2
    · rintro ⟨f, hf, rfl⟩
      refine List.mem_map.2 ⟨_, List.mem_filter.2 ⟨List.mem_flatMap.2 ⟨f, hf, h.self_hit hf⟩, ?_⟩, rfl⟩
      exact decide_eq_true (resultKey_self _ _)
  generalize (fps.flatMap (hitsOf (.default V) t)).filter (fun x => x.key = resultKey 0 0 id.toNat) = hs at *
  have hsne : hs ≠ [] := by
    rintro rfl
    exact hne (List.length_eq_zero_iff.1 (Nat.le_zero.1 hlen))
  obtain ⟨m, hm, hcount, hid, hfirst, hlast⟩ := hsum.present hsne
  obtain ⟨x, hx, hxid⟩ := List.mem_map.1 hid
  exact ⟨m, hm, hxid ▸ (hback x hx).1, hcount ▸ hlen, htimes ▸ hfirst, htimes ▸ hlast⟩

end Stored

/-! ## Storing and querying -/

/-- No lookup for one of the fingerprints fills its result array. -/
def NeverFull (cfg : Config V) (db : Db) (fps : List (Fingerprint V)) : Prop :=
  ∀ f ∈ fps, ∀ results r, db.find (startKey cfg f.hash) (stopKey cfg f.hash) results cfg.maxDBCollisions = some r →
    r.numberOfResults < cfg.maxDBCollisions

variable {q : QSort (EventPoint V) EventPoint.timeIndex} {fmt : MagnitudeFormat V}

omit [Sample V] in
theorem NeverFull.room {cfg : Config V} {db : Db} {fps : List (Fingerprint V)} (h : NeverFull cfg db fps)
    {f : Fingerprint V} (hf : f ∈ fps) :
    (Db.valuesIn db.fps (startKey cfg f.hash) (stopKey cfg f.hash)).length < cfg.maxDBCollisions := by
  obtain ⟨r, hr⟩ := Option.isSome_iff_exists.1
    (Db.find_isSome db (startKey cfg f.hash) (stopKey cfg f.hash) (fun _ => 0) cfg.maxDBCollisions)
  have hcount := h f hf _ r hr
  rw [Db.find_count hr] at hcount
  omega

omit [Sample V] in
/-- A small table fills no result array. -/
theorem NeverFull.of_length {cfg : Config V} {db : Db} (h : db.fps.entries.length < cfg.maxDBCollisions)
    (fps : List (Fingerprint V)) : NeverFull cfg db fps := by
  intro f _ results r hr
  have hvalues : (Db.valuesIn db.fps (startKey cfg f.hash) (stopKey cfg f.hash)).length ≤ db.fps.entries.length := by
    rw [Db.valuesIn, List.length_map]
    exact List.length_filter_le ..
  rw [Db.find_count hr]
  omega

/-- What a storing run leaves in a table without pairs of the audio. -/
theorem stored_run {audio : Audio V} {id : UInt32} {db stored : Db} (hnew : ∀ e ∈ db.fps.entries, e.2 % 2 ^ 32 ≠ id.toNat)
    (hstored : (process (.default V) q fmt .store audio id db).map Outcome.db = some stored)
    (hroom : NeverFull (.default V) stored (extracted (.default V) q audio.frames)) :
    Stored id (extracted (.default V) q audio.frames) stored.fps := by
  rw [process_store rfl, Option.some.injEq] at hstored
  have hmem : ∀ e, e ∈ stored.fps ↔ e ∈ (extracted (.default V) q audio.frames).map (pair id) ∨ e ∈ db.fps := by
    intro e
    rw [← hstored]
    exact Db.mem_store
  refine ⟨fun f hf => ?_, fun e he hid => ?_, extracted_range q audio, fun f hf => hroom.room hf⟩
  · exact (hmem _).2 (Or.inl (List.mem_map_of_mem hf))
  · rcases (hmem e).1 he with he | he
    · obtain ⟨f, hf, rfl⟩ := List.mem_map.1 he
      exact ⟨f, hf, rfl⟩
    · exact absurd hid (hnew e he)

variable (q fmt) in
/-- The table of a query holds the hits of the fingerprints that a storing run extracts. -/
theorem process_query {cfg : Config V} (hkeep : cfg.keepMatchesFor = 0) (audio : Audio V) (id : UInt32) (db : Db) :
    (process cfg q fmt .query audio id db).map Outcome.results =
      some (tallyAll (fun _ => none) ((extracted cfg q audio.frames).flatMap (hitsOf cfg db.fps))) := by
  simp only [process, feed_handed, Option.map_some, Option.some.injEq]
  exact match_results hkeep (handed cfg q .query audio.frames) (FpMatcher.new db)

/-- **Stored audio matches itself.** -/
theorem matches_itself (audio : Audio V) (id queryId : UInt32) (db stored : Db)
    (hnew : ∀ e ∈ db.fps.entries, e.2 % 2 ^ 32 ≠ id.toNat)
    (hstored : (process (.default V) q fmt .store audio id db).map Outcome.db = some stored)
    (hroom : NeverFull (.default V) stored (extracted (.default V) q audio.frames))
    (hsome : extracted (.default V) q audio.frames ≠ []) :
    ∃ o m, process (.default V) q fmt .query audio queryId stored = some o ∧
      o.results (resultKey 0 0 id.toNat) = some m ∧ Covers id (extracted (.default V) q audio.frames) m := by
  have hkeep : (Config.default V).keepMatchesFor = 0 := by simp [Config.default]
  have hquery := process_query q fmt hkeep audio queryId stored
  obtain ⟨o, ho, hresults⟩ := Option.map_eq_some_iff.1 hquery
  obtain ⟨m, hm, hcovers⟩ := (stored_run hnew hstored hroom).covers hsome
  exact ⟨o, m, ho, hresults ▸ hm, hcovers⟩

theorem extracted_lastAudio : (extracted (.default ℚ) (.insertion _ EventPoint.timeIndex) lastAudio.frames).length = 1 := by
  rw [extracted, handed_inserted _ _ rfl, lastAudio, detected_impulses]
  decide +kernel

theorem matches_itself_lastAudio :
    ∃ stored, (process (.default ℚ) (.insertion _ EventPoint.timeIndex) FpDbWriterCache.sixDecimals .store lastAudio 7
      otherAudio).map Outcome.db = some stored ∧
    ∃ o m, process (.default ℚ) (.insertion _ EventPoint.timeIndex) FpDbWriterCache.sixDecimals .query lastAudio 0 stored =
      some o ∧ o.results (resultKey 0 0 7) = some m ∧
      Covers 7 (extracted (.default ℚ) (.insertion _ EventPoint.timeIndex) lastAudio.frames) m := by
  have hlen := extracted_lastAudio
  have hstored : (process (.default ℚ) (.insertion _ EventPoint.timeIndex) FpDbWriterCache.sixDecimals .store lastAudio 7
      otherAudio).map Outcome.db = some _ := process_store rfl lastAudio 7 otherAudio
  refine ⟨_, hstored, matches_itself lastAudio 7 0 otherAudio _ (by decide) hstored (.of_length ?_ _) ?_⟩
  · rw [Db.storeMetaData_fps]
    have hfps := Db.length_store_le otherAudio
      ((extracted (.default ℚ) (.insertion _ EventPoint.timeIndex) lastAudio.frames).map (pair 7))
    rw [List.length_map, hlen] at hfps
    have htwo : 1 + otherAudio.fps.entries.length < (Config.default ℚ).maxDBCollisions := by
      decide
    exact lt_of_le_of_lt hfps htwo
  · intro hnil
    rw [hnil] at hlen
    cases hlen

end Olaf.StreamProcessor
