import Mathlib.Algebra.Order.Floor.Semiring
import Mathlib.Data.Rat.Floor
import Olaf.IdentityFilter
import Olaf.Library.Checked
import Olaf.Library.Growing
import Olaf.ResultLine
/-!
# Queries in fragments (`executeFragmentedParallel` with the action `Query`)

| here | there |
| --- | --- |
| `AudioTools` | `ffprobe` and `ffmpeg`, and what the stream processor makes of the raw audio: `none` for an error |
| `processAudioFragment` | `processAudioFragment` (`olaf_cli_threading.zig:186`), as far as the query that it runs |
| `queryFragments` | the loop over the fragments of a file (`:267-290`) |
| `executeFragmentedParallel` | `executeFragmentedParallel` (`:238`) |
| `Carries` | a result line or an object has this number as its `query_offset` |

Times are exact. The loop cuts a file into fragments of the same length (`queryFragments_returns`). Where a fragment starts is
told to `ffmpeg` only: both queries set the offset of their results to zero, which is right for the first fragment
(`located_iff`).
-/

namespace Olaf.FragmentedQuery
open Checked Growing ParallelQuery QueryPrint

/-- `%.3f`, which writes a whole number with three zeros behind the point. -/
structure OffsetFormat where
  fixed3 : ℚ → List Char
  seconds : ∀ n : Nat, fixed3 n = Nat.toDigits 10 n ++ ".000".toList

structure AudioTools where
  getAudioDuration : List Char → Option ℚ
  /-- The fragment of a file from a start on, of a duration. -/
  convertAudio : AudioFileWithId → ℚ → Nat → Option Run

/-- `olaf_query` and `olaf_query_json` set the offset to zero. -/
def olafQuery (index total : Nat) (path : List Char) (run : Run) (excludeIdentifier : UInt32) : Query where
  ctx := ⟨index, total, path, 0, excludeIdentifier⟩
  stats := run.stats
  rawAudio := run.rawAudio
  reports := run.reports
  final := run.final

def processAudioFragment (tools : AudioTools) (audioFile : AudioFileWithId) (index total : Nat) (fragmentStart : ℚ)
    (fragmentDuration : Nat) (excludeIdentifier : UInt32) : Option Query := do
  let run ← tools.convertAudio audioFile fragmentStart fragmentDuration
  return olafQuery index total audioFile.path run excludeIdentifier

/-- A fragment that was queried. -/
structure Fragment where
  start : ℚ
  query : Query

structure LoopState where
  fragmentStart : ℚ
  fragmentIndex : Nat
  queried : List Fragment

def queryFragments (tools : AudioTools) (audioFile : AudioFileWithId) (index total : Nat) (totalDuration : ℚ)
    (fragmentDuration : Nat) (excludeIdentifier : UInt32) (fuel : Nat) : Option (List Fragment) := do
  let s ← whileLoop (fun s : LoopState => s.fragmentStart < totalDuration) (fun s => do
      let remaining := totalDuration - s.fragmentStart
      let currentDuration := min (fragmentDuration : ℚ) remaining
      let query ← processAudioFragment tools audioFile index total s.fragmentStart fragmentDuration excludeIdentifier
      return ⟨s.fragmentStart + currentDuration, s.fragmentIndex + 1, s.queried ++ [⟨s.fragmentStart, query⟩]⟩)
    fuel ⟨0, 0, []⟩
  return s.queried

def executeFragmentedParallel (tools : AudioTools) (char : UInt8 → UInt32) (allowIdentityMatch : Bool)
    (audioFiles : List AudioFileWithId) (fragmentDuration fuel : Nat) : Option (List (List Fragment)) :=
  audioFiles.zipIdx.mapM fun (audioFile, fileIndex) => do
    let totalDuration ← tools.getAudioDuration audioFile.path
    queryFragments tools audioFile fileIndex audioFiles.length totalDuration fragmentDuration
      (excludeIdentifier char .query allowIdentityMatch audioFile.identifier) fuel

/-! ## What is claimed of a file -/

/-- The first call of a result line. -/
def queryInfo (fixed3 : ℚ → List Char) (ctx : Context) (offset : ℚ) : List Char :=
  CText.formatInt (FpMatcher.i32 ((ctx.qIndex + 1) % 2 ^ 32)) ++ " ,".toList ++
    CText.formatInt (FpMatcher.i32 (ctx.qTotal % 2 ^ 32)) ++ " ,".toList ++ ctx.queryPath ++ ", ".toList ++
    fixed3 offset ++ ", ".toList

/-- In an object it is the second call behind the query's path. -/
def Carries (fixed3 : ℚ → List Char) (fmt : OutputFormat) (ctx : Context) (r : List (List Char)) (offset : ℚ) : Prop :=
  match fmt with
  | .csv => r.head? = some (queryInfo fixed3 ctx offset)
  | .json => r[5 + (jsonPrintEscaped (some ctx.queryPath)).length]? = some (jsonLine "  " "query_offset" (fixed3 offset) ",\n")

/-- The fragments are next to each other from zero on, and what is printed for one carries its start. -/
structure Located (fixed3 : ℚ → List Char) (fmt : OutputFormat) (totalDuration : ℚ) (fragmentDuration : Nat)
    (fragments : List Fragment) : Prop where
  starts : ∀ k f, fragments[k]? = some f → f.start = ((k * fragmentDuration : Nat) : ℚ)
  inside : ∀ f ∈ fragments, f.start < totalDuration
  covered : ∀ t, 0 ≤ t → t < totalDuration → ∃ f ∈ fragments, f.start ≤ t ∧ t < f.start + fragmentDuration
  offsets : ∀ f ∈ fragments, ∀ r ∈ records fixed3 fmt f.query, r ≠ [header] → Carries fixed3 fmt f.query.ctx r f.start

/-- The tools give an answer for every file and fragment. -/
structure AudioTools.Work (tools : AudioTools) (audioFiles : List AudioFileWithId) (fragmentDuration : Nat) : Prop where
  duration : ∀ audioFile ∈ audioFiles, (tools.getAudioDuration audioFile.path).isSome
  convert : ∀ audioFile ∈ audioFiles, ∀ start, (tools.convertAudio audioFile start fragmentDuration).isSome

/-- What one turn of the loop for each fragment takes. -/
def AudioTools.Enough (tools : AudioTools) (audioFiles : List AudioFileWithId) (fragmentDuration fuel : Nat) : Prop :=
  ∀ audioFile ∈ audioFiles, ∀ totalDuration, tools.getAudioDuration audioFile.path = some totalDuration →
    ⌈totalDuration / fragmentDuration⌉₊ < fuel

/-- No query but that of the first fragment prints a result. -/
def SilentAfterFirst (tools : AudioTools) (fmt : OutputFormat) (audioFile : AudioFileWithId) (index total : Nat)
    (totalDuration : ℚ) (fragmentDuration : Nat) (excludeIdentifier : UInt32) : Prop :=
  ∀ k ≥ 1, ((k * fragmentDuration : Nat) : ℚ) < totalDuration → ∀ q,
    processAudioFragment tools audioFile index total ((k * fragmentDuration : Nat) : ℚ) fragmentDuration excludeIdentifier = some q →
    ¬ q.PrintsResult fmt

/-- For a file with its index. -/
def FileLocated (tools : AudioTools) (fixed3 : ℚ → List Char) (fmt : OutputFormat) (fragmentDuration : Nat)
    (x : AudioFileWithId × Nat) (fragments : List Fragment) : Prop :=
  ∀ totalDuration, tools.getAudioDuration x.1.path = some totalDuration →
    Located fixed3 fmt totalDuration fragmentDuration fragments

def FileSilent (tools : AudioTools) (char : UInt8 → UInt32) (fmt : OutputFormat) (allowIdentityMatch : Bool)
    (total fragmentDuration : Nat) (x : AudioFileWithId × Nat) : Prop :=
  ∀ totalDuration, tools.getAudioDuration x.1.path = some totalDuration →
    SilentAfterFirst tools fmt x.1 x.2 total totalDuration fragmentDuration
      (excludeIdentifier char .query allowIdentityMatch x.1.identifier)

/-! ## The loop -/

section Loop
variable {tools : AudioTools} {audioFile : AudioFileWithId} {index total fragmentDuration : Nat} {totalDuration : ℚ}
  {excludeIdentifier : UInt32}

/-- The fragments up to number `n`, with their queries. -/
structure Queried (tools : AudioTools) (audioFile : AudioFileWithId) (index total : Nat) (totalDuration : ℚ)
    (fragmentDuration : Nat) (excludeIdentifier : UInt32) (n : Nat) (fragments : List Fragment) : Prop where
  length : fragments.length = n
  each : ∀ k f, fragments[k]? = some f → f.start = ((k * fragmentDuration : Nat) : ℚ) ∧ f.start < totalDuration ∧
    processAudioFragment tools audioFile index total f.start fragmentDuration excludeIdentifier = some f.query

/-- One more fragment. -/
theorem Queried.step {n : Nat} {fragments : List Fragment} {query : Query}
    (h : Queried tools audioFile index total totalDuration fragmentDuration excludeIdentifier n fragments)
    (hstart : ((n * fragmentDuration : Nat) : ℚ) < totalDuration)
    (hquery : processAudioFragment tools audioFile index total ((n * fragmentDuration : Nat) : ℚ) fragmentDuration excludeIdentifier =
      some query) :
    Queried tools audioFile index total totalDuration fragmentDuration excludeIdentifier (n + 1)
      (fragments ++ [⟨((n * fragmentDuration : Nat) : ℚ), query⟩]) := by
  obtain ⟨rfl, heach⟩ := h
  refine ⟨by rw [List.length_append, List.length_singleton], ?_⟩
  exact (each_concat (P := fun k _ (f : Fragment) => f.start = ((k * fragmentDuration : Nat) : ℚ) ∧ f.start < totalDuration ∧
    processAudioFragment tools audioFile index total f.start fragmentDuration excludeIdentifier = some f.query)).2
      ⟨heach, rfl, hstart, hquery⟩

/-- **The loop ends behind the last fragment.** -/
theorem queryFragments_returns {fuel : Nat} (hL : 1 ≤ fragmentDuration)
    (hconvert : ∀ start, (tools.convertAudio audioFile start fragmentDuration).isSome)
    (hfuel : ⌈totalDuration / fragmentDuration⌉₊ < fuel) :
    Returns (queryFragments tools audioFile index total totalDuration fragmentDuration excludeIdentifier fuel) fun fragments =>
      ∃ n, Queried tools audioFile index total totalDuration fragmentDuration excludeIdentifier n fragments ∧
        totalDuration ≤ ((n * fragmentDuration : Nat) : ℚ) := by
  have hpos : (0 : ℚ) < fragmentDuration := by exact_mod_cast hL
  refine Returns.bind (whileLoop_returns
    (fun s => Queried tools audioFile index total totalDuration fragmentDuration excludeIdentifier s.fragmentIndex s.queried ∧
      (s.fragmentStart < totalDuration → s.fragmentStart = ((s.fragmentIndex * fragmentDuration : Nat) : ℚ)) ∧
      (totalDuration ≤ s.fragmentStart → totalDuration ≤ ((s.fragmentIndex * fragmentDuration : Nat) : ℚ)))
    (fun s => ⌈totalDuration / fragmentDuration⌉₊ - s.fragmentIndex) ?_ (by simpa using hfuel) ?_) ?_
  · rintro ⟨start, n, queried⟩ ⟨hqueried, hstart, _⟩ hcond
    rw [decide_eq_true_eq] at hcond
    dsimp only at hcond hstart hqueried ⊢
    have hn := hstart hcond
    subst hn
    obtain ⟨run, hrun⟩ := Option.isSome_iff_exists.1 (hconvert ((n * fragmentDuration : Nat) : ℚ))
    have hquery : processAudioFragment tools audioFile index total ((n * fragmentDuration : Nat) : ℚ) fragmentDuration
        excludeIdentifier = some (olafQuery index total audioFile.path run excludeIdentifier) := by
      rw [processAudioFragment, hrun]
      rfl
    rw [hquery]
    refine Returns.pure ⟨⟨hqueried.step hcond hquery, ?_, ?_⟩, ?_⟩
    · intro h
      dsimp only at h ⊢
      rcases min_choice (fragmentDuration : ℚ) (totalDuration - ((n * fragmentDuration : Nat) : ℚ)) with hmin | hmin
      · rw [hmin]
        push_cast
        ring
      · rw [hmin] at h
        linarith
    · intro h
      dsimp only at h ⊢
      have hle := min_le_left (fragmentDuration : ℚ) (totalDuration - ((n * fragmentDuration : Nat) : ℚ))
      push_cast at h hle ⊢
      linarith
    · dsimp only
      have hlt : n < ⌈totalDuration / fragmentDuration⌉₊ := by
        rw [Nat.lt_ceil, lt_div_iff₀ hpos]
        exact_mod_cast hcond
      omega
  · refine ⟨⟨rfl, fun k f hf => by cases hf⟩, fun _ => by simp, fun h => by simpa using h⟩
  · rintro ⟨start, n, queried⟩ ⟨⟨hqueried, _, hend⟩, hcond⟩
    rw [decide_eq_false_iff_not, not_lt] at hcond
    exact Returns.pure ⟨n, hqueried, hend hcond⟩

end Loop

/-! ## The offset -/

section Offset
variable {fixed3 : ℚ → List Char} {fmt : OutputFormat} {q : Query} {r : List (List Char)}

variable (fixed3) in
/-- The records other than the header are the results. -/
theorem result_record_iff : (∃ r ∈ records fixed3 fmt q, r ≠ [header]) ↔ q.PrintsResult fmt := by
  constructor
  · rintro ⟨r, hr, hne⟩
    unfold records at hr
    split at hr
    · rename_i hraw
      refine ⟨hraw, ?_⟩
      cases fmt with
      | json => trivial
      | csv =>
        obtain ⟨results, hresults, hline⟩ := List.mem_flatMap.1 hr
        obtain ⟨m, hm, he, _⟩ := ((mem_csvReport fixed3).1 hline).resolve_left hne
        exact ⟨results, hresults, m, hm, he⟩
    · cases hr
  · intro h
    obtain ⟨r, hr, hlength⟩ := (long_record_iff fixed3 fmt q).2 h
    refine ⟨r, hr, ?_⟩
    rintro rfl
    rw [List.length_singleton] at hlength
    omega

/-- A result carries the numbers that look like zero. -/
theorem carries_iff (hq : q.ctx.qOffset = 0) (hr : r ∈ records fixed3 fmt q) (hne : r ≠ [header]) (s : ℚ) :
    Carries fixed3 fmt q.ctx r s ↔ fixed3 0 = fixed3 s := by
  unfold records at hr
  split at hr
  · cases fmt with
    | csv =>
      obtain ⟨results, _, hline⟩ := List.mem_flatMap.1 hr
      obtain ⟨m, _, he, rfl⟩ := ((mem_csvReport fixed3).1 hline).resolve_left hne
      rw [Carries, printMatch, if_neg (by rw [he]; decide), hq, List.head?_cons, Option.some.injEq, queryInfo]
      simp only [List.append_assoc, List.append_cancel_left_eq, List.append_left_inj]
    | json =>
      obtain rfl := List.mem_singleton.1 hr
      have hat : ∀ before path after : List (List Char), before.length = 4 →
          (before ++ path ++ after)[5 + path.length]? = after[1]? := by
        intro before path after hbefore
        rw [List.getElem?_append_right (by rw [List.length_append]; omega), List.length_append, hbefore]
        congr 1
        omega
      rw [Carries, queryJson]
      simp only [List.append_assoc]
      rw [← List.append_assoc, hat _ _ _ rfl]
      simp only [List.cons_append, List.getElem?_cons_succ, List.getElem?_cons_zero, Option.some.injEq, jsonLine,
        List.append_assoc, List.append_cancel_left_eq, List.append_left_inj]
  · cases hr

/-- Whole numbers that look the same are the same. -/
theorem OffsetFormat.seconds_inj (fixed : OffsetFormat) {n m : Nat} (h : fixed.fixed3 n = fixed.fixed3 m) : n = m := by
  rw [fixed.seconds, fixed.seconds, List.append_left_inj] at h
  have hread := congrArg (Nat.ofDigitChars 10 · 0) h
  rwa [Nat.ofDigitChars_ten_toDigits, Nat.ofDigitChars_ten_toDigits] at hread

end Offset

/-! ## All files -/

section Files
variable {tools : AudioTools} {audioFile : AudioFileWithId} {index total fragmentDuration : Nat} {totalDuration : ℚ}
  {excludeIdentifier : UInt32} {fmt : OutputFormat}

theorem processAudioFragment_offset {start : ℚ} {q : Query}
    (h : processAudioFragment tools audioFile index total start fragmentDuration excludeIdentifier = some q) :
    q.ctx.qOffset = 0 := by
  rw [processAudioFragment] at h
  obtain ⟨run, _, hq⟩ := Option.bind_eq_some_iff.1 h
  rw [← Option.some.inj hq]
  rfl

/-- Every start inside the audio is one of a fragment. -/
theorem Queried.lt_length {n k : Nat} {fragments : List Fragment}
    (h : Queried tools audioFile index total totalDuration fragmentDuration excludeIdentifier n fragments)
    (hend : totalDuration ≤ ((n * fragmentDuration : Nat) : ℚ)) (hk : ((k * fragmentDuration : Nat) : ℚ) < totalDuration) :
    k < fragments.length := by
  have hless := lt_of_lt_of_le hk hend
  rw [Nat.cast_lt] at hless
  rw [h.length]
  exact lt_of_mul_lt_mul_right hless (Nat.zero_le _)

theorem Queried.covers {n : Nat} {fragments : List Fragment} (hL : 1 ≤ fragmentDuration)
    (h : Queried tools audioFile index total totalDuration fragmentDuration excludeIdentifier n fragments)
    (hend : totalDuration ≤ ((n * fragmentDuration : Nat) : ℚ)) {t : ℚ} (ht : 0 ≤ t) (hlt : t < totalDuration) :
    ∃ f ∈ fragments, f.start ≤ t ∧ t < f.start + fragmentDuration := by
  have hpos : (0 : ℚ) < fragmentDuration := by exact_mod_cast hL
  have hfloor := Nat.floor_le (div_nonneg ht hpos.le)
  have hsucc := Nat.lt_floor_add_one (t / fragmentDuration)
  rw [le_div_iff₀ hpos, ← Nat.cast_mul] at hfloor
  rw [div_lt_iff₀ hpos, add_mul, one_mul, ← Nat.cast_mul] at hsucc
  have hk := h.lt_length hend (lt_of_le_of_lt hfloor hlt)
  have hstart := (h.each _ _ (List.getElem?_eq_getElem hk)).1
  exact ⟨_, List.getElem_mem hk, by rw [hstart]; exact hfloor, by rw [hstart]; exact hsucc⟩

/-- Of all fragments only the first starts at the offset that every query has. -/
theorem Queried.carries_iff (fixed : OffsetFormat) {n k : Nat} {fragments : List Fragment} {f : Fragment}
    (hL : 1 ≤ fragmentDuration)
    (h : Queried tools audioFile index total totalDuration fragmentDuration excludeIdentifier n fragments)
    (hf : fragments[k]? = some f) {r : List (List Char)} (hr : r ∈ records fixed.fixed3 fmt f.query) (hne : r ≠ [header]) :
    Carries fixed.fixed3 fmt f.query.ctx r f.start ↔ k = 0 := by
  obtain ⟨hstart, _, hquery⟩ := h.each k f hf
  rw [FragmentedQuery.carries_iff (processAudioFragment_offset hquery) hr hne, hstart]
  constructor
  · intro heq
    have hzero := fixed.seconds_inj (n := 0) (m := k * fragmentDuration) (by rw [Nat.cast_zero]; exact heq)
    rcases Nat.mul_eq_zero.1 hzero.symm with hk | hk
    · exact hk
    · omega
  · rintro rfl
    rw [Nat.zero_mul, Nat.cast_zero]

/-- The fragments of a file are where they should be, and their results carry their starts unless they print some at another
place than zero. -/
theorem located_of_queried (fixed : OffsetFormat) {n : Nat} {fragments : List Fragment} (hL : 1 ≤ fragmentDuration)
    (h : Queried tools audioFile index total totalDuration fragmentDuration excludeIdentifier n fragments)
    (hend : totalDuration ≤ ((n * fragmentDuration : Nat) : ℚ)) :
    Located fixed.fixed3 fmt totalDuration fragmentDuration fragments ↔
      SilentAfterFirst tools fmt audioFile index total totalDuration fragmentDuration excludeIdentifier := by
  constructor
  · intro hlocated k hk hlt q hq hprints
    have hkn := h.lt_length hend hlt
    obtain ⟨hstart, _, hquery⟩ := h.each k _ (List.getElem?_eq_getElem hkn)
    rw [hstart, hq, Option.some.injEq] at hquery
    rw [hquery] at hprints
    obtain ⟨r, hr, hne⟩ := (result_record_iff fixed.fixed3).2 hprints
    have hat := (h.carries_iff fixed hL (List.getElem?_eq_getElem hkn) hr hne).1
      (hlocated.offsets _ (List.getElem_mem hkn) r hr hne)
    omega
  · intro hsilent
    refine ⟨fun k f hf => (h.each k f hf).1, ?_, ?_, ?_⟩
    · intro f hf
      obtain ⟨k, hk⟩ := List.mem_iff_getElem?.1 hf
      exact (h.each k f hk).2.1
    · exact fun t ht hlt => h.covers hL hend ht hlt
    · intro f hf r hr hne
      obtain ⟨k, hk⟩ := List.mem_iff_getElem?.1 hf
      refine (h.carries_iff fixed hL hk hr hne).2 ?_
      by_contra hzero
      obtain ⟨hstart, hinside, hquery⟩ := h.each k f hk
      rw [hstart] at hinside hquery
      exact hsilent k (by omega) hinside f.query hquery ((result_record_iff _).1 ⟨r, hr, hne⟩)

/-- The property holds of a file when its condition does. -/
theorem forall₂_iff {α β : Type} {R P : α → β → Prop} {Q : α → Prop} (h : ∀ a b, R a b → (P a b ↔ Q a)) {l : List α}
    {l' : List β} (hl : List.Forall₂ R l l') : List.Forall₂ P l l' ↔ ∀ a ∈ l, Q a := by
  induction hl with
  | nil => simp
  | cons hab _ ih => rw [List.forall₂_cons, ih, h _ _ hab, List.forall_mem_cons]

end Files

section Run
variable {fmt : OutputFormat} {tools : AudioTools} {char : UInt8 → UInt32} {allowIdentityMatch : Bool}
  {audioFiles : List AudioFileWithId} {fragmentDuration fuel : Nat}

variable (char allowIdentityMatch) in
/-- Every file is cut into fragments, and each of these is queried. -/
theorem execute_queried (hL : 1 ≤ fragmentDuration) (hwork : tools.Work audioFiles fragmentDuration)
    (hfuel : tools.Enough audioFiles fragmentDuration fuel) :
    Returns (executeFragmentedParallel tools char allowIdentityMatch audioFiles fragmentDuration fuel)
      (List.Forall₂ (fun x fragments => ∃ totalDuration, tools.getAudioDuration x.1.path = some totalDuration ∧
        ∃ n, Queried tools x.1 x.2 audioFiles.length totalDuration fragmentDuration
          (excludeIdentifier char .query allowIdentityMatch x.1.identifier) n fragments ∧
        totalDuration ≤ ((n * fragmentDuration : Nat) : ℚ)) audioFiles.zipIdx) := by
  refine mapM_returns ?_
  rintro ⟨audioFile, fileIndex⟩ hx
  have hmem := List.fst_mem_of_mem_zipIdx hx
  obtain ⟨totalDuration, hduration⟩ := Option.isSome_iff_exists.1 (hwork.duration audioFile hmem)
  dsimp only
  rw [hduration]
  refine (queryFragments_returns hL (hwork.convert audioFile hmem) (hfuel audioFile hmem totalDuration hduration)).mono ?_
  exact fun fragments h => ⟨totalDuration, rfl, h⟩

theorem located_iff_of_returns (fixed : OffsetFormat) (hL : 1 ≤ fragmentDuration)
    (hwork : tools.Work audioFiles fragmentDuration) (hfuel : tools.Enough audioFiles fragmentDuration fuel) {out}
    (hout : executeFragmentedParallel tools char allowIdentityMatch audioFiles fragmentDuration fuel = some out) :
    List.Forall₂ (FileLocated tools fixed.fixed3 fmt fragmentDuration) audioFiles.zipIdx out ↔
      ∀ x ∈ audioFiles.zipIdx, FileSilent tools char fmt allowIdentityMatch audioFiles.length fragmentDuration x := by
  obtain ⟨out', hout', hqueried⟩ := execute_queried char allowIdentityMatch hL hwork hfuel
  obtain rfl := Option.some.inj (hout'.symm.trans hout)
  refine forall₂_iff ?_ hqueried
  rintro x fragments ⟨totalDuration, hduration, n, hn, hend⟩
  simp only [FileLocated, FileSilent, hduration, Option.some.injEq, forall_eq']
  exact located_of_queried fixed hL hn hend

end Run

/-- **The results of a query in fragments carry the starts of their fragments iff only first fragments have results**: the
loop ends and cuts each file into fragments of the same length in any case. -/
theorem located_iff (fixed : OffsetFormat) (fmt : OutputFormat) (tools : AudioTools) (char : UInt8 → UInt32)
    (allowIdentityMatch : Bool) (audioFiles : List AudioFileWithId) (fragmentDuration fuel : Nat) (hL : 1 ≤ fragmentDuration)
    (hwork : tools.Work audioFiles fragmentDuration) (hfuel : tools.Enough audioFiles fragmentDuration fuel) :
    Returns (executeFragmentedParallel tools char allowIdentityMatch audioFiles fragmentDuration fuel)
        (List.Forall₂ (FileLocated tools fixed.fixed3 fmt fragmentDuration) audioFiles.zipIdx) ↔
      ∀ x ∈ audioFiles.zipIdx, FileSilent tools char fmt allowIdentityMatch audioFiles.length fragmentDuration x := by
  obtain ⟨out, hout, _⟩ := execute_queried char allowIdentityMatch hL hwork hfuel
  rw [← located_iff_of_returns fixed hL hwork hfuel hout]
  refine ⟨?_, fun h => ⟨out, hout, h⟩⟩
  rintro ⟨out', hout', h⟩
  obtain rfl := Option.some.inj (hout'.symm.trans hout)
  exact h

/-- Every audio lasts as long, and no fragment has a match. -/
def unmatched (totalDuration : ℚ) : AudioTools :=
  ⟨fun _ => some totalDuration, fun _ _ _ => some ⟨⟨10, 30, 1⟩, true, [], [FpMatcher.emptyResult]⟩⟩

theorem unmatched_work (totalDuration : ℚ) (audioFiles : List AudioFileWithId) (fragmentDuration : Nat) :
    (unmatched totalDuration).Work audioFiles fragmentDuration :=
  ⟨fun _ _ => rfl, fun _ _ _ => rfl⟩

/-- Thousandths of a second. -/
def milliseconds : OffsetFormat where
  fixed3 := ResultLine.thousandths.fixed3
  seconds n := by
    have hfloor : (((n : ℚ) * 1000 + 1 / 2).floor) = ((n * 1000 : Nat) : Int) := by
      refine Int.le_antisymm (Int.le_of_lt_add_one (Rat.floor_lt_iff.2 ?_)) (Rat.le_floor_iff.2 ?_) <;> push_cast <;> linarith
    rw [ResultLine.thousandths]
    dsimp only
    rw [hfloor, if_neg (by omega), Int.natAbs_natCast, Nat.mul_div_cancel _ (by decide), Nat.mul_mod_left]
    rfl

/-- The file lasts forty seconds and has a match, and the raw audio of a later fragment cannot be opened. -/
def firstOpened : AudioTools :=
  ⟨fun _ => some 40, fun _ start _ => some ⟨⟨10, 30, 1⟩, decide (start = 0), [], [⟨6, 0, 1 / 2, "a.wav".toList, 7, 1, 3 / 2⟩]⟩⟩

theorem located_iff_firstOpened :
    Returns (executeFragmentedParallel firstOpened UInt8.toUInt32 true [zeroFile] 30 3)
      (List.Forall₂ (FileLocated firstOpened milliseconds.fixed3 .csv 30) [zeroFile].zipIdx) := by
  refine (located_iff milliseconds .csv firstOpened UInt8.toUInt32 true [zeroFile] 30 3 (by decide)
    ⟨fun _ _ => rfl, fun _ _ _ => rfl⟩ ?_).2 ?_
  · intro audioFile _ totalDuration h
    obtain rfl := Option.some.inj h
    exact Nat.lt_succ_of_le (Nat.ceil_le.2 (by norm_num))
  · intro x _ totalDuration h k hk hlt q hq hprints
    obtain rfl := Option.some.inj hq
    have hstart : ((k * 30 : Nat) : ℚ) = 0 := of_decide_eq_true hprints.1
    have hzero : k * 30 = 0 := by exact_mod_cast hstart
    omega

/-- The second half minute of a file is reported at its beginning. -/
theorem secondFragment_not_located : ¬ ∀ (fixed : OffsetFormat) (fmt : OutputFormat) (tools : AudioTools)
    (char : UInt8 → UInt32) (allowIdentityMatch : Bool) (audioFiles : List AudioFileWithId) (fragmentDuration fuel : Nat),
    1 ≤ fragmentDuration → tools.Work audioFiles fragmentDuration → tools.Enough audioFiles fragmentDuration fuel →
    Returns (executeFragmentedParallel tools char allowIdentityMatch audioFiles fragmentDuration fuel)
      (List.Forall₂ (FileLocated tools fixed.fixed3 fmt fragmentDuration) audioFiles.zipIdx) := by
  intro h
  have hfuel : (unmatched 60).Enough [zeroFile] 30 3 := by
    intro audioFile _ totalDuration h
    obtain rfl := Option.some.inj h
    exact Nat.lt_succ_of_le (Nat.ceil_le.2 (by norm_num))
  have hwork := unmatched_work 60 [zeroFile] 30
  obtain ⟨out, hout, hlocated⟩ := h milliseconds .csv (unmatched 60) UInt8.toUInt32 true [zeroFile] 30 3 (by decide) hwork hfuel
  have hsilent := (located_iff_of_returns milliseconds (by decide) hwork hfuel hout).1 hlocated
  refine hsilent (zeroFile, 0) (List.mem_singleton_self _) 60 rfl 1 (by decide) (by norm_num) _ rfl ⟨rfl, ?_⟩
  exact ⟨[FpMatcher.emptyResult], List.mem_singleton_self _, _, List.mem_singleton_self _, rfl⟩

end Olaf.FragmentedQuery
