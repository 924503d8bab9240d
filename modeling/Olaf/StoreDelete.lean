import Olaf.Caching
/-!
# Storing and deleting (`STORE` against `DELETE`)

Both modes hand over the same fingerprints and their writers turn them into the same pairs. A batch is at most
300 fingerprints, which the writer's arrays have room for behind its threshold, so the database gets every
pair (`process_store`, `process_delete`). The pairs of an audio carry its identifier, so those of others are never touched.
-/

namespace Olaf.StreamProcessor
open EpExtractor FpDbWriter Sorting

variable {V : Type} [Sample V] {cfg : Config V} {q : QSort (EventPoint V) EventPoint.timeIndex} {fmt : MagnitudeFormat V}

/-- A batch of the default size fits behind the threshold. -/
theorem handed_room (hmax : cfg.maxFingerprints = (Config.default V).maxFingerprints) (mode : Mode) (frames : List (Frame V)) :
    ∀ fps ∈ handed cfg q mode frames, threshold + fps.length ≤ capacity := by
  intro fps hfps
  have := handed_bounded cfg q mode frames fps hfps
  rw [hmax] at this
  simp only [Config.default] at this
  simp only [threshold, capacity]
  omega

/-- The metadata that a run stores. -/
def metaData (cfg : Config V) (q : QSort (EventPoint V) EventPoint.timeIndex) (audio : Audio V) : ResourceMetaData :=
  ⟨audio.path, audio.totalSamplesRead / cfg.audioSampleRate, total cfg q audio.frames⟩

/-- A storing run puts the pairs of its fingerprints into the database. -/
theorem process_store (hmax : cfg.maxFingerprints = (Config.default V).maxFingerprints) (audio : Audio V) (id : UInt32)
    (db : Db) :
    (process cfg q fmt .store audio id db).map Outcome.db =
      some ((db.store ((extracted cfg q audio.frames).map (pair id))).storeMetaData id (metaData cfg q audio)) := by
  simp only [process, feed_handed, (destroy_eq db id (handed_room hmax .store audio.frames)).1]
  rfl

/-- A deleting run takes them out. -/
theorem process_delete (hmax : cfg.maxFingerprints = (Config.default V).maxFingerprints) (audio : Audio V) (id : UInt32)
    (db : Db) :
    (process cfg q fmt .delete audio id db).map Outcome.db =
      (db.delete ((extracted cfg q audio.frames).map (pair id))).deleteMetaData id := by
  simp only [process, feed_handed, (destroy_eq db id (handed_room hmax .delete audio.frames)).2]
  have hsame : handed cfg q .delete audio.frames = handed cfg q .store audio.frames := rfl
  rw [hsame, Option.map_map]
  exact Option.map_id'

omit [Sample V] in
/-- Storing the pairs of an audio leaves those of others alone. -/
theorem store_others {id : UInt32} {fps : List (Fingerprint V)} {db : Db} {e : Nat × Nat} (he : e.2 % 2 ^ 32 ≠ id.toNat) :
    e ∈ (db.store (fps.map (pair id))).fps ↔ e ∈ db.fps := by
  rw [Db.mem_store, or_iff_right]
  intro h
  obtain ⟨f, _, rfl⟩ := List.mem_map.1 h
  exact he (pair_id id f)

theorem store_store (db : Db) (ps : List (Nat × Nat)) (id : UInt32) (m : ResourceMetaData) :
    (((db.store ps).storeMetaData id m).store ps).storeMetaData id m = (db.store ps).storeMetaData id m := by
  obtain ⟨hr, hw⟩ := Db.store_rest ps ((db.store ps).storeMetaData id m)
  refine Db.ext (fun e => ?_) ?_ hw
  · simp only [Db.storeMetaData_fps, Db.mem_store]
    tauto
  · rw [Db.storeMetaData_resourceMap, hr, Db.storeMetaData_resourceMap]
    exact Function.update_idem ..

theorem store_delete_eq {db : Db} {ps : List (Nat × Nat)} {id : UInt32} (hnew : ∀ e ∈ ps, e ∉ db.fps)
    (hmeta : db.resourceMap id = none) (m : ResourceMetaData) :
    (((db.store ps).storeMetaData id m).delete ps).deleteMetaData id = some db := by
  obtain ⟨hr, hw⟩ := Db.store_rest ps db
  obtain ⟨hr', hw'⟩ := Db.delete_rest ps ((db.store ps).storeMetaData id m)
  have hmap : (((db.store ps).storeMetaData id m).delete ps).resourceMap = Function.update db.resourceMap id (some m) := by
    rw [hr', Db.storeMetaData_resourceMap, hr]
  rw [Db.deleteMetaData, hmap, if_neg (by rw [Function.update_self]; exact Option.some_ne_none m), Option.some.injEq,
    Function.update_idem]
  refine Db.ext (fun e => ?_) (Function.update_eq_self_iff.2 hmeta.symm) (hw'.trans hw)
  simp only [Db.mem_delete, Db.storeMetaData_fps, Db.mem_store]
  have := hnew e
  tauto

/-- What storing an audio and deleting it again does, `stored` being the database in between. -/
structure StoresAndDeletes (cfg : Config V) (q : QSort (EventPoint V) EventPoint.timeIndex) (fmt : MagnitudeFormat V)
    (audio : Audio V) (id : UInt32) (db stored : Db) : Prop where
  runs : (process cfg q fmt .store audio id db).map Outcome.db = some stored
  table : ∀ e, e ∈ stored.fps ↔ e ∈ db.fps ∨ ∃ f ∈ extracted cfg q audio.frames,
    e = (f.hash, ((f.timeIndex1 * 2 ^ 32 + id.toNat) % 2 ^ 64).toNat)
  again : (process cfg q fmt .store audio id stored).map Outcome.db = some stored
  undone : (process cfg q fmt .delete audio id stored).map Outcome.db = some db
  others : ∀ e, e.2 % 2 ^ 32 ≠ id.toNat → (e ∈ stored.fps ↔ e ∈ db.fps)
  otherMetaData : ∀ key, key ≠ id → stored.resourceMap key = db.resourceMap key

/-- **Delete undoes store and store is idempotent.** -/
theorem store_delete (hmax : cfg.maxFingerprints = (Config.default V).maxFingerprints) (audio : Audio V) (id : UInt32)
    (db : Db) (hfps : ∀ e ∈ db.fps.entries, e.2 % 2 ^ 32 ≠ id.toNat) (hmeta : db.resourceMap id = none) :
    ∃ stored, StoresAndDeletes cfg q fmt audio id db stored := by
  refine ⟨_, process_store hmax audio id db, fun e => ?_, ?_, ?_, fun e he => store_others he, fun key hkey => ?_⟩
  · rw [Db.storeMetaData_fps, Db.mem_store, or_comm, List.mem_map]
    refine or_congr_right (exists_congr fun f => and_congr_right fun _ => ?_)
    rw [← pair_value, eq_comm]
    rfl
  · rw [process_store hmax, store_store]
  · rw [process_delete hmax]
    refine store_delete_eq (fun e he hin => ?_) hmeta _
    obtain ⟨f, _, rfl⟩ := List.mem_map.1 he
    exact hfps _ hin (pair_id id f)
  · rw [Db.storeMetaData_resourceMap, Function.update_of_ne hkey, (Db.store_rest _ _).1]

/-- A database with one pair of audio 9. -/
def otherAudio : Db := ⟨⟨[(5, 9)], List.pairwise_singleton _ _⟩, fun _ => none, false⟩

theorem store_delete_lastAudio :
    ∃ stored, StoresAndDeletes (.default ℚ) (.insertion _ EventPoint.timeIndex) FpDbWriterCache.sixDecimals lastAudio 7
      otherAudio stored :=
  store_delete rfl lastAudio 7 otherAudio (by decide) rfl

end Olaf.StreamProcessor
