import Olaf.EventPoints
import Olaf.Fingerprint
/-!
# Combining event points into fingerprints (`olaf_fp_extractor.c`)

| here | there |
| --- | --- |
| `Pass`         | what the combination loops change: the event point array and the fingerprint array up to `fingerprintIndex` (`warning_given` only guards a message) |
| `kLoop`, `jLoop`, `iLoop` | the three nested loops of `olaf_fp_extractor_extract_three` (`:154-277`) |
| `jLoop2`, `iLoop` | the two nested loops of `olaf_fp_extractor_extract_two` (`:279-370`) |

A loop runs from an index over `rem` more slots; a `break` returns the state. The assertions between the
tests are not part of the functions. Whatever a loop does is recorded by the list of index triples it
emitted (`Emits`), a two-point fingerprint being the triple `(i, j, j)`; `Yields` adds which triples may
and which must be in that list, and its rules compose loops.
-/

namespace Olaf.FpExtractor

variable {V : Type}

/-- The state of the combination loops. -/
structure Pass (V : Type) where
  eventPoints : List (EventPoint V)
  fingerprints : List (Fingerprint V)

/-- The distance tests between two event points. -/
def Near (cfg : Config V) (p q : EventPoint V) : Prop :=
  cfg.minTimeDistance ≤ q.timeIndex - p.timeIndex ∧ q.timeIndex - p.timeIndex ≤ cfg.maxTimeDistance ∧
  cfg.minFreqDistance ≤ (p.frequencyBin - q.frequencyBin).natAbs ∧
  (p.frequencyBin - q.frequencyBin).natAbs ≤ cfg.maxFreqDistance

instance (cfg : Config V) (p q : EventPoint V) : Decidable (Near cfg p q) :=
  inferInstanceAs (Decidable (_ ∧ _ ∧ _ ∧ _))

/-- The fingerprint of three event points. -/
def fingerprint (p1 p2 p3 : EventPoint V) : Fingerprint V where
  frequencyBin1 := p1.frequencyBin
  timeIndex1 := p1.timeIndex
  magnitude1 := p1.magnitude
  frequencyBin2 := p2.frequencyBin
  timeIndex2 := p2.timeIndex
  magnitude2 := p2.magnitude
  frequencyBin3 := p3.frequencyBin
  timeIndex3 := p3.timeIndex
  magnitude3 := p3.magnitude

/-- `usages++`, `c` times. -/
def use (c : Nat) (p : EventPoint V) : EventPoint V := { p with usages := p.usages + c }

/-- Two event points that a fingerprint cannot tell apart. -/
structure Agree (p q : EventPoint V) : Prop where
  time : p.timeIndex = q.timeIndex
  bin : p.frequencyBin = q.frequencyBin
  magnitude : p.magnitude = q.magnitude

theorem Agree.near {cfg : Config V} {p p' q q' : EventPoint V} (h : Agree p p') (h' : Agree q q') :
    Near cfg p q ↔ Near cfg p' q' := by
  simp only [Near, h.time, h.bin, h'.time, h'.bin]

theorem Agree.fingerprint {p p' q q' r r' : EventPoint V} (h : Agree p p') (h' : Agree q q') (h'' : Agree r r') :
    fingerprint p q r = fingerprint p' q' r' := by
  simp only [FpExtractor.fingerprint, h.time, h.bin, h.magnitude, h'.time, h'.bin, h'.magnitude, h''.time, h''.bin,
    h''.magnitude]

variable [Sample V]

/-- Slot `m` of the array. -/
def point (eps : List (EventPoint V)) (m : Nat) : EventPoint V := eps.getD m .free

/-! ## The loops -/

/-- The innermost body of `extract_three` once its tests have passed. -/
def emitThree (cfg : Config V) (i j k : Nat) (p1 p2 p3 : EventPoint V) (s : Pass V) : Pass V :=
  if cfg.maxFingerprints ≤ s.fingerprints.length then s
  else ⟨((s.eventPoints.modify i (use 1)).modify j (use 1)).modify k (use 1),
    s.fingerprints ++ [fingerprint p1 p2 p3]⟩

/-- `for (k = j+1; …)`. `tDiff` is the variable of the `j` loop, which this loop tests before it sets it. -/
def kLoop (cfg : Config V) (i j : Nat) (p1 p2 : EventPoint V) : (rem k : Nat) → (tDiff : Int) → Pass V → Pass V
  | 0, _, _, s => s
  | rem + 1, k, tDiff, s =>
    let p3 := point s.eventPoints k
    if p3.usages > cfg.maxEventPointUsages then s
    else if tDiff > cfg.maxTimeDistance then s
    else kLoop cfg i j p1 p2 rem (k + 1) (p3.timeIndex - p2.timeIndex)
      (if Near cfg p2 p3 then emitThree cfg i j k p1 p2 p3 s else s)

/-- `for (j = i+1; …)` of `extract_three`. -/
def jLoop (cfg : Config V) (i : Nat) (p1 : EventPoint V) : (rem j : Nat) → Pass V → Pass V
  | 0, _, s => s
  | rem + 1, j, s =>
    let p2 := point s.eventPoints j
    if p2.usages > cfg.maxEventPointUsages then s
    else if p2.timeIndex - p1.timeIndex > cfg.maxTimeDistance then s
    else jLoop cfg i p1 rem (j + 1)
      (if Near cfg p1 p2 then kLoop cfg i j p1 p2 rem (j + 1) (p2.timeIndex - p1.timeIndex) s else s)

/-- The body of `extract_two` once its tests have passed; here the bound is tested with `==`. -/
def emitTwo (cfg : Config V) (i j : Nat) (p1 p2 : EventPoint V) (s : Pass V) : Pass V :=
  if s.fingerprints.length = cfg.maxFingerprints then s
  else ⟨(s.eventPoints.modify i (use 1)).modify j (use 1), s.fingerprints ++ [fingerprint p1 p2 p2]⟩

/-- `for (j = i+1; …)` of `extract_two`. -/
def jLoop2 (cfg : Config V) (i : Nat) (p1 : EventPoint V) : (rem j : Nat) → Pass V → Pass V
  | 0, _, s => s
  | rem + 1, j, s =>
    let p2 := point s.eventPoints j
    if p2.usages > cfg.maxEventPointUsages then s
    else if p2.timeIndex - p1.timeIndex > cfg.maxTimeDistance then s
    else jLoop2 cfg i p1 rem (j + 1) (if Near cfg p1 p2 then emitTwo cfg i j p1 p2 s else s)

/-- `for (i = 0; …)`, the same in both functions up to the inner loop. -/
def iLoop (cfg : Config V) (audioBlockIndex : Int)
    (inner : (i : Nat) → (p1 : EventPoint V) → (rem j : Nat) → Pass V → Pass V) : (rem i : Nat) → Pass V → Pass V
  | 0, _, s => s
  | rem + 1, i, s =>
    let p1 := point s.eventPoints i
    if p1.frequencyBin = 0 ∧ p1.timeIndex = 0 then s
    else if p1.usages > cfg.maxEventPointUsages then s
    else if p1.timeIndex > audioBlockIndex - cfg.maxTimeDistance then s
    else iLoop cfg audioBlockIndex inner rem (i + 1) (inner i p1 rem (i + 1) s)

/-- `olaf_fp_extractor_extract_three`. -/
def extractThree (cfg : Config V) (eps : EventPoints V) (fps : List (Fingerprint V)) (audioBlockIndex : Int) : Pass V :=
  iLoop cfg audioBlockIndex (jLoop cfg) eps.eventPointIndex 0 ⟨eps.eventPoints, fps⟩

/-- `olaf_fp_extractor_extract_two`. -/
def extractTwo (cfg : Config V) (eps : EventPoints V) (fps : List (Fingerprint V)) (audioBlockIndex : Int) : Pass V :=
  iLoop cfg audioBlockIndex (jLoop2 cfg) eps.eventPointIndex 0 ⟨eps.eventPoints, fps⟩

/-! ## What a loop emitted -/

/-- Three indices into the event point array. -/
abbrev Combo := Nat × Nat × Nat

/-- The fingerprint of a combination of slots. -/
def fingerprintOf (eps : List (EventPoint V)) (c : Combo) : Fingerprint V :=
  fingerprint (point eps c.1) (point eps c.2.1) (point eps c.2.2)

/-- How many combinations of a list slot `m` is part of. -/
def hits (m : Nat) (L : List Combo) : Nat := L.countP fun c => c.1 = m ∨ c.2.1 = m ∨ c.2.2 = m

theorem hits_append (m : Nat) (L L' : List Combo) : hits m (L ++ L') = hits m L + hits m L' := List.countP_append

/-- `s'` is `s` after the combinations `L` were appended as fingerprints and counted as usages. -/
structure Emits (s s' : Pass V) (L : List Combo) : Prop where
  length : s'.eventPoints.length = s.eventPoints.length
  points : ∀ m, m < s.eventPoints.length → point s'.eventPoints m = use (hits m L) (point s.eventPoints m)
  fingerprints : s'.fingerprints = s.fingerprints ++ L.map (fingerprintOf s.eventPoints)

/-- `eps'` is `eps` after some of its slots were used more often. -/
structure SamePoints (eps eps' : List (EventPoint V)) : Prop where
  length : eps'.length = eps.length
  time : ∀ m, (point eps' m).timeIndex = (point eps m).timeIndex
  bin : ∀ m, (point eps' m).frequencyBin = (point eps m).frequencyBin
  magnitude : ∀ m, (point eps' m).magnitude = (point eps m).magnitude
  usages : ∀ m, (point eps m).usages ≤ (point eps' m).usages

theorem SamePoints.refl (eps : List (EventPoint V)) : SamePoints eps eps :=
  ⟨rfl, fun _ => rfl, fun _ => rfl, fun _ => rfl, fun _ => Int.le_refl _⟩

theorem SamePoints.trans {a b c : List (EventPoint V)} (h : SamePoints a b) (h' : SamePoints b c) : SamePoints a c :=
  ⟨h'.length.trans h.length, fun m => (h'.time m).trans (h.time m), fun m => (h'.bin m).trans (h.bin m),
    fun m => (h'.magnitude m).trans (h.magnitude m), fun m => Int.le_trans (h.usages m) (h'.usages m)⟩

theorem SamePoints.fingerprintOf {eps eps' : List (EventPoint V)} (h : SamePoints eps eps') (c : Combo) :
    fingerprintOf eps' c = fingerprintOf eps c := by
  simp only [FpExtractor.fingerprintOf, fingerprint, h.time, h.bin, h.magnitude]

theorem SamePoints.agree {eps eps' : List (EventPoint V)} (h : SamePoints eps eps') (m : Nat) :
    Agree (point eps' m) (point eps m) := ⟨h.time m, h.bin m, h.magnitude m⟩

theorem point_of_le {eps : List (EventPoint V)} {m : Nat} (h : eps.length ≤ m) : point eps m = .free := by
  rw [point, List.getD_eq_getElem?_getD, List.getElem?_eq_none h]; rfl

theorem Emits.refl (s : Pass V) : Emits s s [] :=
  ⟨rfl, fun m _ => by simp [hits, use], by simp⟩

theorem Emits.same {s s' : Pass V} {L : List Combo} (h : Emits s s' L) : SamePoints s.eventPoints s'.eventPoints := by
  have hp : ∀ m, ∃ c, point s'.eventPoints m = use c (point s.eventPoints m) := by
    intro m
    by_cases hm : m < s.eventPoints.length
    · exact ⟨_, h.points m hm⟩
    · refine ⟨0, ?_⟩
      have hl := h.length
      have h1 : point s.eventPoints m = .free := point_of_le (by omega)
      have h2 : point s'.eventPoints m = .free := point_of_le (by omega)
      simp [h1, h2, use]
  refine ⟨h.length, fun m => ?_, fun m => ?_, fun m => ?_, fun m => ?_⟩ <;> obtain ⟨c, hc⟩ := hp m <;> rw [hc]
  case refine_4 => simp only [use]; omega
  all_goals rfl

theorem Emits.trans {s s1 s2 : Pass V} {L L' : List Combo} (h : Emits s s1 L) (h' : Emits s1 s2 L') :
    Emits s s2 (L ++ L') := by
  refine ⟨h'.length.trans h.length, fun m hm => ?_, ?_⟩
  · rw [h'.points m (by rw [h.length]; exact hm), h.points m hm, hits_append]
    simp only [use, Nat.cast_add, Int.add_assoc]
  · rw [h'.fingerprints, h.fingerprints, List.append_assoc, List.map_append]
    congr 2
    exact List.map_congr_left fun c _ => h.same.fingerprintOf c

/-- No slot from `lo` up to `hi` has been used too often to be combined. -/
def Fit (cfg : Config V) (eps : List (EventPoint V)) (lo hi : Nat) : Prop :=
  ∀ m, lo ≤ m → m ≤ hi → (point eps m).usages ≤ cfg.maxEventPointUsages

theorem Fit.before {cfg : Config V} {eps eps' : List (EventPoint V)} {lo hi : Nat} (h : Fit cfg eps' lo hi)
    (hs : SamePoints eps eps') : Fit cfg eps lo hi := fun m h1 h2 => Int.le_trans (hs.usages m) (h m h1 h2)

theorem Fit.cons {cfg : Config V} {eps : List (EventPoint V)} {lo hi : Nat}
    (h0 : (point eps lo).usages ≤ cfg.maxEventPointUsages) (h : Fit cfg eps (lo + 1) hi) : Fit cfg eps lo hi := by
  intro m h1 h2
  by_cases hm : m = lo
  · rw [hm]; exact h0
  · exact h m (by omega) h2

theorem Fit.mono {cfg : Config V} {eps : List (EventPoint V)} {lo lo' hi hi' : Nat} (h : Fit cfg eps lo hi)
    (h1 : lo ≤ lo') (h2 : hi' ≤ hi) : Fit cfg eps lo' hi' := fun m h3 h4 => h m (by omega) (by omega)

/-- No cap stopped a pass that ended in `r` before a combination up to slot `hi`. -/
structure Clear (cfg : Config V) (hi : Nat) (r : Pass V) : Prop where
  fit : Fit cfg r.eventPoints 0 hi
  room : r.fingerprints.length < cfg.maxFingerprints

theorem Clear.before {cfg : Config V} {hi : Nat} {s r : Pass V} {L : List Combo} (h : Clear cfg hi r)
    (he : Emits s r L) : Clear cfg hi s := by
  refine ⟨h.fit.before he.same, ?_⟩
  have := h.room
  rw [he.fingerprints, List.length_append] at this
  omega

/-- From `s` to `r` some list of combinations was emitted: none twice, only combinations in `may`, and every
combination in `must` that no cap stopped. -/
def Yields (cfg : Config V) (s r : Pass V) (may must : Combo → Prop) : Prop :=
  ∃ L, Emits s r L ∧ L.Nodup ∧ (∀ c ∈ L, may c) ∧ (∀ c, must c → Clear cfg c.2.2 r → c ∈ L) ∧
    (s.fingerprints.length ≤ cfg.maxFingerprints → r.fingerprints.length ≤ cfg.maxFingerprints)

section Rules
variable {cfg : Config V} {s s1 r : Pass V} {may may' must must' : Combo → Prop}

/-- A loop that stops at once. -/
theorem Yields.stop (h : ∀ c, must c → ¬ Clear cfg c.2.2 s) : Yields cfg s s may must :=
  ⟨[], .refl s, .nil, by simp, fun c hm hc => absurd hc (h c hm), id⟩

/-- One combination, emitted unless the fingerprint array is full. -/
theorem Yields.single {c : Combo} {full : Prop} [Decidable full] (he : Emits s r (if full then [] else [c]))
    (hfull : full → cfg.maxFingerprints ≤ s.fingerprints.length)
    (hroom : ¬ full → s.fingerprints.length ≤ cfg.maxFingerprints → s.fingerprints.length < cfg.maxFingerprints) :
    Yields cfg s r (· = c) (· = c) := by
  have hclear : ∀ hi, Clear cfg hi r → s.fingerprints.length < cfg.maxFingerprints := fun hi h => (h.before he).room
  refine ⟨_, he, ?_, ?_, fun d hd hcl => ?_, fun h0 => ?_⟩
  · split <;> simp
  · split <;> simp
  · rw [if_neg fun h => Nat.not_lt.2 (hfull h) (hclear _ hcl), hd]
    exact List.mem_singleton_self c
  · rw [he.fingerprints, List.length_append, List.length_map]
    split
    · exact h0
    · rename_i h
      exact hroom h h0

theorem Yields.mono (h : Yields cfg s r may must) (h1 : ∀ c, may c → may' c) (h2 : ∀ c, must' c → must c) :
    Yields cfg s r may' must' := by
  obtain ⟨L, he, hn, hm, hc, hl⟩ := h
  exact ⟨L, he, hn, fun c hcL => h1 c (hm c hcL), fun c hmu hcl => hc c (h2 c hmu) hcl, hl⟩

/-- Two stretches of a loop that emit different combinations. -/
theorem Yields.seq (h : Yields cfg s s1 may must) (h' : Yields cfg s1 r may' must') (hd : ∀ c, may c → ¬ may' c) :
    Yields cfg s r (fun c => may c ∨ may' c) (fun c => must c ∨ must' c) := by
  obtain ⟨L, he, hnd, hm, hc, hl⟩ := h
  obtain ⟨L', he', hnd', hm', hc', hl'⟩ := h'
  refine ⟨L ++ L', he.trans he', ?_, fun c hcL => ?_, fun c hmu hcl => ?_, fun h0 => hl' (hl h0)⟩
  · exact List.nodup_append.2 ⟨hnd, hnd', fun c h1 d h2 hcd => hd c (hm c h1) (hcd ▸ hm' d h2)⟩
  · exact (List.mem_append.1 hcL).imp (hm c) (hm' c)
  · exact List.mem_append.2 (hmu.imp (fun h => hc c h (hcl.before he')) (fun h => hc' c h hcl))

theorem Yields.same (h : Yields cfg s r may must) : SamePoints s.eventPoints r.eventPoints := by
  obtain ⟨L, he, _⟩ := h; exact he.same

theorem Yields.bounded (h : Yields cfg s r may must) (h0 : s.fingerprints.length ≤ cfg.maxFingerprints) :
    r.fingerprints.length ≤ cfg.maxFingerprints := by
  obtain ⟨_, _, _, _, _, hl⟩ := h
  exact hl h0

end Rules

/-! ## The loops of `extract_three` -/

theorem point_modify (eps : List (EventPoint V)) (i : Nat) (f : EventPoint V → EventPoint V) {m : Nat}
    (hm : m < eps.length) : point (eps.modify i f) m = if i = m then f (point eps m) else point eps m := by
  simp only [point, List.getD_eq_getElem?_getD, List.getElem?_modify, List.getElem?_eq_getElem hm]
  split <;> rfl

theorem hits_single (m : Nat) (c : Combo) : hits m [c] = if c.1 = m ∨ c.2.1 = m ∨ c.2.2 = m then 1 else 0 := by
  simp [hits, List.countP_cons]

/-- The slots below `n` are in time order. -/
def Ascending (eps : List (EventPoint V)) (n : Nat) : Prop :=
  ∀ a b, a < b → b < n → (point eps a).timeIndex ≤ (point eps b).timeIndex

theorem Ascending.le {eps : List (EventPoint V)} {n a b : Nat} (h : Ascending eps n) (hab : a ≤ b) (hb : b < n) :
    (point eps a).timeIndex ≤ (point eps b).timeIndex := by
  rcases Nat.eq_or_lt_of_le hab with rfl | hlt
  · exact Int.le_refl _
  · exact h a b hlt hb

/-- The points of two slots that a pass has used. -/
theorem Ascending.le_of_agree {eps : List (EventPoint V)} {n a b : Nat} {p p' : EventPoint V} (h : Ascending eps n) (hab : a < b)
    (hb : b < n) (hp : Agree p (point eps a)) (hp' : Agree p' (point eps b)) : p.timeIndex ≤ p'.timeIndex := by
  rw [hp.time, hp'.time]
  exact h a b hab hb

section Three
variable {cfg : Config V} {base : List (EventPoint V)} {n : Nat}

variable (cfg) in
theorem emitThree_emits {i j k : Nat} (hij : i < j) (hjk : j < k) {p1 p2 p3 : EventPoint V} {s : Pass V}
    (hs : SamePoints base s.eventPoints) (h1 : Agree p1 (point base i)) (h2 : Agree p2 (point base j))
    (h3 : Agree p3 (point base k)) :
    Emits s (emitThree cfg i j k p1 p2 p3 s)
      (if cfg.maxFingerprints ≤ s.fingerprints.length then [] else [(i, j, k)]) := by
  unfold emitThree
  split
  · exact .refl s
  · refine ⟨by simp, fun m hm => ?_, ?_⟩
    · rw [point_modify _ _ _ (by simpa using hm), point_modify _ _ _ (by simpa using hm), point_modify _ _ _ hm,
        hits_single]
      by_cases hi : i = m <;> by_cases hj : j = m <;> by_cases hkm : k = m <;>
        first
        | (exfalso; omega)
        | simp [hi, hj, hkm, use]
    · rw [h1.fingerprint h2 h3, List.map_singleton, hs.fingerprintOf]; rfl

variable (cfg) in
theorem emitThree_yields {i j k : Nat} (hij : i < j) (hjk : j < k)
    {p1 p2 p3 : EventPoint V} {s : Pass V} (hs : SamePoints base s.eventPoints)
    (h1 : Agree p1 (point base i)) (h2 : Agree p2 (point base j)) (h3 : Agree p3 (point base k)) :
    Yields cfg s (emitThree cfg i j k p1 p2 p3 s) (· = (i, j, k)) (· = (i, j, k)) :=
  .single (emitThree_emits cfg hij hjk hs h1 h2 h3) id (fun h _ => Nat.lt_of_not_le h)

/-- The combinations the `k` loop is about when it starts at slot `k`. -/
structure KCombo (cfg : Config V) (base : List (EventPoint V)) (n i j k : Nat) (c : Combo) : Prop where
  first : c.1 = i
  second : c.2.1 = j
  start : k ≤ c.2.2
  bound : c.2.2 < n
  near : Near cfg (point base j) (point base c.2.2)
  fit : Fit cfg base k c.2.2

/-- **The `k` loop.** The lagging `tDiff` test drops nothing: it only stops once a point was already out of reach. -/
theorem kLoop_yields {i j : Nat} (hij : i < j) {p1 p2 : EventPoint V} (hn : n ≤ base.length)
    (h1 : Agree p1 (point base i)) (h2 : Agree p2 (point base j)) :
    ∀ (rem k : Nat) (tDiff : Int) (s : Pass V), k + rem = n → j < k → SamePoints base s.eventPoints →
      (tDiff ≤ cfg.maxTimeDistance ∨
        (Ascending base n → ∀ k', k ≤ k' → k' < n → tDiff ≤ (point base k').timeIndex - (point base j).timeIndex)) →
      Yields cfg s (kLoop cfg i j p1 p2 rem k tDiff s) (KCombo cfg base n i j k)
        (fun c => Ascending base n ∧ KCombo cfg base n i j k c)
  | 0, k, _, s, hk, _, _, _ => by
    refine .stop fun c hc => ?_
    have := hc.2.start; have := hc.2.bound; omega
  | rem + 1, k, tDiff, s, hk, hjk, hs, htd => by
    have hkn : k < n := by omega
    have hag := hs.agree k
    simp only [kLoop]
    split
    · -- the point was used too often
      refine .stop fun c hc hcl => ?_
      have := hcl.fit k (Nat.zero_le _) hc.2.start
      omega
    rename_i husage
    split
    · -- the previous point was out of reach, so are this and the later ones
      refine .stop fun c hc => ?_
      obtain ⟨ha, hc⟩ := hc
      rcases htd with h | h
      · omega
      · have := h ha c.2.2 hc.start hc.bound
        have := hc.near.2.1
        omega
    have hfit : (point base k).usages ≤ cfg.maxEventPointUsages := by have := hs.usages k; omega
    have hrec : ∀ s', SamePoints base s'.eventPoints →
        Yields cfg s' (kLoop cfg i j p1 p2 rem (k + 1) ((point s.eventPoints k).timeIndex - p2.timeIndex) s')
          (KCombo cfg base n i j (k + 1)) (fun c => Ascending base n ∧ KCombo cfg base n i j (k + 1) c) := by
      intro s' hs'
      refine kLoop_yields hij hn h1 h2 rem (k + 1) _ s' (by omega) (by omega) hs' (Or.inr fun ha k' hk' hk'n => ?_)
      have := ha k k' (by omega) hk'n
      rw [hag.time, h2.time]; omega
    have hiff : Near cfg p2 (point s.eventPoints k) ↔ Near cfg (point base j) (point base k) := h2.near hag
    have hcons : ∀ c, KCombo cfg base n i j (k + 1) c → KCombo cfg base n i j k c := fun c h =>
      ⟨h.first, h.second, by have := h.start; omega, h.bound, h.near, h.fit.cons hfit⟩
    have htail : ∀ c, KCombo cfg base n i j k c → c.2.2 ≠ k → KCombo cfg base n i j (k + 1) c := fun c h hne =>
      ⟨h.first, h.second, by have := h.start; omega, h.bound, h.near, h.fit.mono (by omega) (Nat.le_refl _)⟩
    by_cases hN : Near cfg p2 (point s.eventPoints k)
    · -- slot `k` is combined, then the rest of the loop
      rw [if_pos hN]
      have he := emitThree_yields cfg hij hjk hs h1 h2 hag
      refine (he.seq (hrec _ (hs.trans he.same)) ?_).mono ?_ ?_
      · rintro c rfl h; exact absurd h.start (by simp)
      · rintro c (rfl | h)
        · refine ⟨rfl, rfl, Nat.le_refl _, hkn, hiff.1 hN, fun m hm hm' => ?_⟩
          rw [Nat.le_antisymm hm' hm]; exact hfit
        · exact hcons c h
      · rintro c ⟨ha, hc⟩
        by_cases hck : c.2.2 = k
        · exact Or.inl (by rw [← hc.first, ← hc.second, ← hck])
        · exact Or.inr ⟨ha, htail c hc hck⟩
    · rw [if_neg hN]
      refine (hrec s hs).mono hcons ?_
      rintro c ⟨ha, hc⟩
      exact ⟨ha, htail c hc fun h => hN (hiff.2 (h ▸ hc.near))⟩

/-- The combinations the `j` loop is about when it starts at slot `j`. -/
structure JCombo (cfg : Config V) (base : List (EventPoint V)) (n i j : Nat) (c : Combo) : Prop where
  first : c.1 = i
  start : j ≤ c.2.1
  near : Near cfg (point base i) (point base c.2.1)
  lt : c.2.1 < c.2.2
  bound : c.2.2 < n
  near' : Near cfg (point base c.2.1) (point base c.2.2)
  fit : Fit cfg base j c.2.2

/-- **The `j` loop of `extract_three`.** -/
theorem jLoop_yields {i : Nat} {p1 : EventPoint V} (hn : n ≤ base.length) (h1 : Agree p1 (point base i)) :
    ∀ (rem j : Nat) (s : Pass V), j + rem = n → i < j → SamePoints base s.eventPoints →
      Yields cfg s (jLoop cfg i p1 rem j s) (JCombo cfg base n i j)
        (fun c => Ascending base n ∧ JCombo cfg base n i j c)
  | 0, j, s, hj, _, _ => by
    refine .stop fun c hc => ?_
    have := hc.2.start; have := hc.2.lt; have := hc.2.bound; omega
  | rem + 1, j, s, hj, hij, hs => by
    have hjn : j < n := by omega
    have hag := hs.agree j
    simp only [jLoop]
    split
    · refine .stop fun c hc hcl => ?_
      have := hcl.fit j (Nat.zero_le _) (by have := hc.2.start; have := hc.2.lt; omega)
      omega
    rename_i husage
    split
    · -- everything from here on is too far in the future
      refine .stop fun c hc => ?_
      obtain ⟨ha, hc⟩ := hc
      have := ha.le hc.start (by have := hc.lt; have := hc.bound; omega)
      have := hc.near.2.1
      have := hag.time; have := h1.time
      omega
    have hfit : (point base j).usages ≤ cfg.maxEventPointUsages := by have := hs.usages j; omega
    have hrec : ∀ s', SamePoints base s'.eventPoints →
        Yields cfg s' (jLoop cfg i p1 rem (j + 1) s') (JCombo cfg base n i (j + 1))
          (fun c => Ascending base n ∧ JCombo cfg base n i (j + 1) c) := fun s' hs' =>
      jLoop_yields hn h1 rem (j + 1) s' (by omega) (by omega) hs'
    have hiff : Near cfg p1 (point s.eventPoints j) ↔ Near cfg (point base i) (point base j) := h1.near hag
    have hcons : ∀ c, JCombo cfg base n i (j + 1) c → JCombo cfg base n i j c := fun c h =>
      ⟨h.first, by have := h.start; omega, h.near, h.lt, h.bound, h.near', h.fit.cons hfit⟩
    have htail : ∀ c, JCombo cfg base n i j c → c.2.1 ≠ j → JCombo cfg base n i (j + 1) c := fun c h hne =>
      ⟨h.first, by have := h.start; omega, h.near, h.lt, h.bound, h.near', h.fit.mono (by omega) (Nat.le_refl _)⟩
    by_cases hN : Near cfg p1 (point s.eventPoints j)
    · rw [if_pos hN]
      have hk : Yields cfg s _ (KCombo cfg base n i j (j + 1)) _ := kLoop_yields hij hn h1 hag rem (j + 1)
        ((point s.eventPoints j).timeIndex - p1.timeIndex) s (by omega) (by omega) hs (Or.inl (by omega))
      refine (hk.seq (hrec _ (hs.trans hk.same)) ?_).mono ?_ ?_
      · intro c h h'; have := h.second; have := h'.start; omega
      · rintro c (h | h)
        · have h2 := h.second
          exact ⟨h.first, by omega, h2 ▸ hiff.1 hN, by have := h.start; omega, h.bound, h2 ▸ h.near, h.fit.cons hfit⟩
        · exact hcons c h
      · rintro c ⟨ha, hc⟩
        by_cases hcj : c.2.1 = j
        · exact Or.inl ⟨ha, hc.first, hcj, by have := hc.lt; omega, hc.bound, hcj ▸ hc.near',
            hc.fit.mono (by omega) (Nat.le_refl _)⟩
        · exact Or.inr ⟨ha, htail c hc hcj⟩
    · rw [if_neg hN]
      refine (hrec s hs).mono hcons ?_
      rintro c ⟨ha, hc⟩
      exact ⟨ha, htail c hc fun h => hN (hiff.2 (h ▸ hc.near))⟩

end Three

/-! ## The loops of `extract_two` -/

section Two
variable {cfg : Config V} {base : List (EventPoint V)} {n : Nat}

variable (cfg) in
theorem emitTwo_emits {i j : Nat} (hij : i < j) {p1 p2 : EventPoint V} {s : Pass V} (hs : SamePoints base s.eventPoints)
    (h1 : Agree p1 (point base i)) (h2 : Agree p2 (point base j)) :
    Emits s (emitTwo cfg i j p1 p2 s) (if s.fingerprints.length = cfg.maxFingerprints then [] else [(i, j, j)]) := by
  unfold emitTwo
  split
  · exact .refl s
  · refine ⟨by simp, fun m hm => ?_, ?_⟩
    · rw [point_modify _ _ _ (by simpa using hm), point_modify _ _ _ hm, hits_single]
      by_cases hi : i = m <;> by_cases hj : j = m <;>
        first
        | (exfalso; omega)
        | simp [hi, hj, use]
    · rw [h1.fingerprint h2 h2, List.map_singleton, hs.fingerprintOf]; rfl

variable (cfg) in
theorem emitTwo_yields {i j : Nat} (hij : i < j) {p1 p2 : EventPoint V} {s : Pass V}
    (hs : SamePoints base s.eventPoints) (h1 : Agree p1 (point base i)) (h2 : Agree p2 (point base j)) :
    Yields cfg s (emitTwo cfg i j p1 p2 s) (· = (i, j, j)) (· = (i, j, j)) :=
  .single (emitTwo_emits cfg hij hs h1 h2) (fun h => Nat.le_of_eq h.symm) (fun h h0 => Nat.lt_of_le_of_ne h0 h)

/-- The combinations the `j` loop of `extract_two` is about when it starts at slot `j`. -/
structure JCombo2 (cfg : Config V) (base : List (EventPoint V)) (n i j : Nat) (c : Combo) : Prop where
  first : c.1 = i
  start : j ≤ c.2.1
  near : Near cfg (point base i) (point base c.2.1)
  bound : c.2.1 < n
  third : c.2.2 = c.2.1
  fit : Fit cfg base j c.2.2

/-- **The `j` loop of `extract_two`.** -/
theorem jLoop2_yields {i : Nat} {p1 : EventPoint V} (hn : n ≤ base.length) (h1 : Agree p1 (point base i)) :
    ∀ (rem j : Nat) (s : Pass V), j + rem = n → i < j → SamePoints base s.eventPoints →
      Yields cfg s (jLoop2 cfg i p1 rem j s) (JCombo2 cfg base n i j)
        (fun c => Ascending base n ∧ JCombo2 cfg base n i j c)
  | 0, j, s, hj, _, _ => by
    refine .stop fun c hc => ?_
    have := hc.2.start; have := hc.2.bound; omega
  | rem + 1, j, s, hj, hij, hs => by
    have hjn : j < n := by omega
    have hag := hs.agree j
    simp only [jLoop2]
    split
    · refine .stop fun c hc hcl => ?_
      have := hcl.fit j (Nat.zero_le _) (by have := hc.2.start; have := hc.2.third; omega)
      omega
    rename_i husage
    split
    · refine .stop fun c hc => ?_
      obtain ⟨ha, hc⟩ := hc
      have := ha.le hc.start hc.bound
      have := hc.near.2.1
      have := hag.time; have := h1.time
      omega
    have hfit : (point base j).usages ≤ cfg.maxEventPointUsages := by have := hs.usages j; omega
    have hrec : ∀ s', SamePoints base s'.eventPoints →
        Yields cfg s' (jLoop2 cfg i p1 rem (j + 1) s') (JCombo2 cfg base n i (j + 1))
          (fun c => Ascending base n ∧ JCombo2 cfg base n i (j + 1) c) := fun s' hs' =>
      jLoop2_yields hn h1 rem (j + 1) s' (by omega) (by omega) hs'
    have hiff : Near cfg p1 (point s.eventPoints j) ↔ Near cfg (point base i) (point base j) := h1.near hag
    have hcons : ∀ c, JCombo2 cfg base n i (j + 1) c → JCombo2 cfg base n i j c := fun c h =>
      ⟨h.first, by have := h.start; omega, h.near, h.bound, h.third, h.fit.cons hfit⟩
    have htail : ∀ c, JCombo2 cfg base n i j c → c.2.1 ≠ j → JCombo2 cfg base n i (j + 1) c := fun c h hne =>
      ⟨h.first, by have := h.start; omega, h.near, h.bound, h.third, h.fit.mono (by omega) (Nat.le_refl _)⟩
    by_cases hN : Near cfg p1 (point s.eventPoints j)
    · rw [if_pos hN]
      have he := emitTwo_yields cfg hij hs h1 hag
      refine (he.seq (hrec _ (hs.trans he.same)) ?_).mono ?_ ?_
      · rintro c rfl h; exact absurd h.start (by simp)
      · rintro c (rfl | h)
        · refine ⟨rfl, Nat.le_refl _, hiff.1 hN, hjn, rfl, fun m hm hm' => ?_⟩
          rw [Nat.le_antisymm hm' hm]; exact hfit
        · exact hcons c h
      · rintro c ⟨ha, hc⟩
        by_cases hcj : c.2.1 = j
        · exact Or.inl (Prod.ext hc.first (Prod.ext hcj (hc.third.trans hcj)))
        · exact Or.inr ⟨ha, htail c hc hcj⟩
    · rw [if_neg hN]
      refine (hrec s hs).mono hcons ?_
      rintro c ⟨ha, hc⟩
      exact ⟨ha, htail c hc fun h => hN (hiff.2 (h ▸ hc.near))⟩

end Two

/-! ## The outer loop and the two functions -/

section Outer
variable {cfg : Config V} {base : List (EventPoint V)} {n : Nat}

/-- What ends the outer loop as an empty point. -/
def EmptyPoint (p : EventPoint V) : Prop := p.frequencyBin = 0 ∧ p.timeIndex = 0

/-- The combinations the outer loop is about when it starts at slot `i`, `J i` being those of its inner loop. -/
structure ICombo (cfg : Config V) (base : List (EventPoint V)) (audioBlockIndex : Int) (n : Nat)
    (J : Nat → Combo → Prop) (i : Nat) (c : Combo) : Prop where
  start : i ≤ c.1
  bound : c.1 < n
  anchor : (point base c.1).timeIndex ≤ audioBlockIndex - cfg.maxTimeDistance
  nonempty : ∀ m, i ≤ m → m ≤ c.1 → ¬ EmptyPoint (point base m)
  fit : Fit cfg base i c.1
  inner : J c.1 c

/-- **The outer loop** emits what its inner loop emits for every anchor that is old enough. -/
theorem iLoop_yields {audioBlockIndex : Int}
    {inner : (i : Nat) → (p1 : EventPoint V) → (rem j : Nat) → Pass V → Pass V} {J : Nat → Combo → Prop}
    (hJ : ∀ i c, J i c → c.1 = i ∧ c.1 ≤ c.2.2) (hn : n ≤ base.length)
    (hinner : ∀ i p1 rem s, Agree p1 (point base i) → i + 1 + rem = n → SamePoints base s.eventPoints →
      Yields cfg s (inner i p1 rem (i + 1) s) (J i) (fun c => Ascending base n ∧ J i c)) :
    ∀ (rem i : Nat) (s : Pass V), i + rem = n → SamePoints base s.eventPoints →
      Yields cfg s (iLoop cfg audioBlockIndex inner rem i s) (ICombo cfg base audioBlockIndex n J i)
        (fun c => Ascending base n ∧ ICombo cfg base audioBlockIndex n J i c)
  | 0, i, s, hi, _ => by
    refine .stop fun c hc => ?_
    have := hc.2.start; have := hc.2.bound; omega
  | rem + 1, i, s, hi, hs => by
    have hin : i < n := by omega
    have hag := hs.agree i
    simp only [iLoop]
    split
    · rename_i he
      refine .stop fun c hc => ?_
      rw [hag.bin, hag.time] at he
      exact absurd he (hc.2.nonempty i (Nat.le_refl _) hc.2.start)
    rename_i hne
    rw [hag.bin, hag.time] at hne
    split
    · refine .stop fun c hc hcl => ?_
      have := hcl.fit i (Nat.zero_le _) (Nat.le_trans hc.2.start (hJ _ c hc.2.inner).2)
      omega
    rename_i husage
    split
    · -- this anchor is too recent, so are the later ones
      refine .stop fun c hc => ?_
      obtain ⟨ha, hc⟩ := hc
      have := ha.le hc.start hc.bound
      have := hc.anchor
      have := hag.time
      omega
    have hj := hinner i _ rem s hag (by omega) hs
    have hrec : Yields cfg _ (iLoop cfg audioBlockIndex inner rem (i + 1) _) _ _ := iLoop_yields hJ hn hinner rem (i + 1) _ (by omega)
      (hs.trans hj.same)
    have hold : (point base i).timeIndex ≤ audioBlockIndex - cfg.maxTimeDistance := by have := hag.time; omega
    have hfit : (point base i).usages ≤ cfg.maxEventPointUsages := by have := hs.usages i; omega
    refine (hj.seq hrec ?_).mono ?_ ?_
    · intro c h h'; have := (hJ i c h).1; have := h'.start; omega
    · rintro c (h | h)
      · have hci := (hJ i c h).1
        refine ⟨by omega, by omega, hci ▸ hold, fun m hm hm' => ?_, fun m hm hm' => ?_, hci ▸ h⟩
        · rw [show m = i by omega]; exact hne
        · rw [show m = i by omega]; exact hfit
      · refine ⟨by have := h.start; omega, h.bound, h.anchor, fun m hm hm' => ?_, h.fit.cons hfit, h.inner⟩
        by_cases hmi : m = i
        · rw [hmi]; exact hne
        · exact h.nonempty m (by omega) hm'
    · rintro c ⟨ha, hc⟩
      by_cases hci : c.1 = i
      · exact Or.inl ⟨ha, hci ▸ hc.inner⟩
      · exact Or.inr ⟨ha, by have := hc.start; omega, hc.bound, hc.anchor,
          fun m hm hm' => hc.nonempty m (by omega) hm', hc.fit.mono (by omega) (Nat.le_refl _), hc.inner⟩

theorem extractTwo_yields (cfg : Config V) (eps : EventPoints V) (fps : List (Fingerprint V)) (audioBlockIndex : Int)
    (hn : eps.eventPointIndex ≤ eps.eventPoints.length) :
    Yields cfg ⟨eps.eventPoints, fps⟩ (extractTwo cfg eps fps audioBlockIndex)
      (ICombo cfg eps.eventPoints audioBlockIndex eps.eventPointIndex
        (fun i c => JCombo2 cfg eps.eventPoints eps.eventPointIndex i (i + 1) c) 0)
      (fun c => Ascending eps.eventPoints eps.eventPointIndex ∧ ICombo cfg eps.eventPoints audioBlockIndex eps.eventPointIndex
        (fun i c => JCombo2 cfg eps.eventPoints eps.eventPointIndex i (i + 1) c) 0 c) := by
  refine iLoop_yields (fun i c h => ⟨h.first, ?_⟩) hn (fun i p1 rem s h1 hr hs => ?_) eps.eventPointIndex 0 _ (by omega) (.refl _)
  · have := h.first; have := h.start; have := h.third; omega
  · exact jLoop2_yields hn h1 rem (i + 1) s hr (by omega) hs

theorem extractThree_yields (cfg : Config V) (eps : EventPoints V) (fps : List (Fingerprint V)) (audioBlockIndex : Int)
    (hn : eps.eventPointIndex ≤ eps.eventPoints.length) :
    Yields cfg ⟨eps.eventPoints, fps⟩ (extractThree cfg eps fps audioBlockIndex)
      (ICombo cfg eps.eventPoints audioBlockIndex eps.eventPointIndex
        (fun i c => JCombo cfg eps.eventPoints eps.eventPointIndex i (i + 1) c) 0)
      (fun c => Ascending eps.eventPoints eps.eventPointIndex ∧ ICombo cfg eps.eventPoints audioBlockIndex eps.eventPointIndex
        (fun i c => JCombo cfg eps.eventPoints eps.eventPointIndex i (i + 1) c) 0 c) := by
  refine iLoop_yields (fun i c h => ⟨h.first, ?_⟩) hn (fun i p1 rem s h1 hr hs => ?_) eps.eventPointIndex 0 _ (by omega) (.refl _)
  · have := h.first; have := h.start; have := h.lt; omega
  · exact jLoop_yields hn h1 rem (i + 1) s hr (by omega) hs

/-- What may be combined: an anchor that is old enough and, in time order, one or two points near enough, with
nothing on the way to them that ends a loop. -/
structure Combination (cfg : Config V) (base : List (EventPoint V)) (n : Nat) (audioBlockIndex : Int) (c : Combo) :
    Prop where
  anchor : (point base c.1).timeIndex ≤ audioBlockIndex - cfg.maxTimeDistance
  lt : c.1 < c.2.1
  near : Near cfg (point base c.1) (point base c.2.1)
  le : c.2.1 ≤ c.2.2
  bound : c.2.2 < n
  third : (cfg.numberOfEPsPerFP = 2 ∧ c.2.2 = c.2.1) ∨
    (cfg.numberOfEPsPerFP = 3 ∧ c.2.1 < c.2.2 ∧ Near cfg (point base c.2.1) (point base c.2.2))
  nonempty : ∀ m, m ≤ c.1 → ¬ EmptyPoint (point base m)
  fit : Fit cfg base 0 c.2.2

/-- The combination stage of `olaf_fp_extractor_extract` (`:392-399`); any other number of event points is
`assert(false)`. -/
def combine (cfg : Config V) (eps : EventPoints V) (fps : List (Fingerprint V)) (audioBlockIndex : Int) : Pass V :=
  if cfg.numberOfEPsPerFP = 2 then extractTwo cfg eps fps audioBlockIndex
  else if cfg.numberOfEPsPerFP = 3 then extractThree cfg eps fps audioBlockIndex
  else ⟨eps.eventPoints, fps⟩

/-- **The combination stage**: only combinations within the limits, none twice, each counted once for each of
its points; every one of them that no cap stops when the buffer is in time order. -/
theorem combine_yields (cfg : Config V) (eps : EventPoints V) (fps : List (Fingerprint V)) (audioBlockIndex : Int)
    (hn : eps.eventPointIndex ≤ eps.eventPoints.length) :
    Yields cfg ⟨eps.eventPoints, fps⟩ (combine cfg eps fps audioBlockIndex)
      (Combination cfg eps.eventPoints eps.eventPointIndex audioBlockIndex)
      (fun c => Ascending eps.eventPoints eps.eventPointIndex ∧
        Combination cfg eps.eventPoints eps.eventPointIndex audioBlockIndex c) := by
  have hglue : ∀ {a b : Nat}, Fit cfg eps.eventPoints 0 a → Fit cfg eps.eventPoints (a + 1) b →
      Fit cfg eps.eventPoints 0 b := fun {a b} h h' m _ hm' => by
    by_cases hma : m ≤ a
    · exact h m (Nat.zero_le _) hma
    · exact h' m (by omega) hm'
  unfold combine
  split
  · rename_i h2
    refine (extractTwo_yields cfg eps fps audioBlockIndex hn).mono ?_ ?_
    · intro c h
      have h' := h.inner
      have := h'.start; have := h'.third; have := h'.bound
      exact ⟨h.anchor, by omega, h'.near, by omega, by omega, Or.inl ⟨h2, h'.third⟩,
        fun m hm => h.nonempty m (Nat.zero_le _) hm, hglue h.fit h'.fit⟩
    · rintro c ⟨ha, hc⟩
      have hb := hc.bound; have hlt := hc.lt; have hle := hc.le
      rcases hc.third with ⟨_, h⟩ | ⟨h3, _⟩
      · exact ⟨ha, by omega, by omega, hc.anchor, fun m _ hm => hc.nonempty m hm,
          hc.fit.mono (Nat.le_refl _) (by omega),
          rfl, by omega, hc.near, by omega, h, hc.fit.mono (by omega) (Nat.le_refl _)⟩
      · omega
  · rename_i h2
    split
    · rename_i h3
      refine (extractThree_yields cfg eps fps audioBlockIndex hn).mono ?_ ?_
      · intro c h
        have h' := h.inner
        have := h'.start; have := h'.lt
        exact ⟨h.anchor, by omega, h'.near, by omega, h'.bound, Or.inr ⟨h3, h'.lt, h'.near'⟩,
          fun m hm => h.nonempty m (Nat.zero_le _) hm, hglue h.fit h'.fit⟩
      · rintro c ⟨ha, hc⟩
        have hb := hc.bound; have hlt := hc.lt; have hle := hc.le
        rcases hc.third with ⟨h, _⟩ | ⟨_, h, hnear⟩
        · omega
        · exact ⟨ha, by omega, by omega, hc.anchor, fun m _ hm => hc.nonempty m hm,
            hc.fit.mono (Nat.le_refl _) (by omega),
            rfl, by omega, hc.near, h, hb, hnear, hc.fit.mono (by omega) (Nat.le_refl _)⟩
    · rename_i h3
      refine .stop fun c hc => ?_
      rcases hc.2.third with ⟨h, _⟩ | ⟨h, _⟩
      · exact absurd h h2
      · exact absurd h h3

/-- The combination stage emits something exactly when there is something to combine and room for it. -/
theorem combine_nil_iff (cfg : Config V) (eps : EventPoints V) (audioBlockIndex : Int)
    (hn : eps.eventPointIndex ≤ eps.eventPoints.length) (ha : Ascending eps.eventPoints eps.eventPointIndex) :
    (combine cfg eps [] audioBlockIndex).fingerprints = [] ↔
      cfg.maxFingerprints = 0 ∨ ∀ c, ¬ Combination cfg eps.eventPoints eps.eventPointIndex audioBlockIndex c := by
  obtain ⟨L, he, _, hmay, hmust, hroom⟩ := combine_yields cfg eps [] audioBlockIndex hn
  have hfp := he.fingerprints
  rw [List.nil_append] at hfp
  constructor
  · intro hnil
    rw [hnil, eq_comm, List.map_eq_nil_iff] at hfp
    subst hfp
    by_cases h0 : cfg.maxFingerprints = 0
    · exact Or.inl h0
    · -- nothing was used, so no cap was in the way
      refine Or.inr fun c hc => ?_
      have hlen := he.length
      have hfit : Fit cfg (combine cfg eps [] audioBlockIndex).eventPoints 0 c.2.2 := fun m hm hm' => by
        rw [he.points m (by have := hc.bound; exact Nat.lt_of_lt_of_le (by omega) hn)]
        simpa [hits, use] using hc.fit m hm hm'
      exact absurd (hmust c ⟨ha, hc⟩ ⟨hfit, by rw [hnil]; simp; omega⟩) (by simp)
  · rintro (h0 | hno)
    · have := hroom (by simp)
      exact List.eq_nil_of_length_eq_zero (by omega)
    · have hL : L = [] := List.eq_nil_iff_forall_not_mem.2 fun c hc => hno c (hmay c hc)
      rw [hfp, hL, List.map_nil]

end Outer

end Olaf.FpExtractor
