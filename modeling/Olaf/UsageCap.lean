import Mathlib.Data.List.Sort
import Mathlib.Data.Prod.Lex
import Olaf.Emission
/-!
# The usage cap within a call

`candidates` lists what the distance tests admit in the order of the loops. A call emits the first `maxFingerprints` of them
exactly as long as no point gets more usages by them than the cap (`WithinCap`); then, and only then, every point ends within
the cap (`combine_capped`).

A point beyond the cap does not only keep itself out: the loop that tests it stops there. `complete_of_nothingHides` says when
no combination is lost by that, `fourPoints_hidden` shows one that is.
-/

namespace Olaf.FpExtractor

variable {V : Type} [Sample V]

/-! ## Lists in the order of the loops -/

theorem earlier_wf : WellFounded Earlier := by
  refine Subrelation.wf (r := Prod.Lex (· < ·) (Prod.Lex (· < ·) (· < ·))) (fun {c d} h => ?_)
    (Nat.lt_wfRel.wf.prod_lex (Nat.lt_wfRel.wf.prod_lex Nat.lt_wfRel.wf))
  rcases h with h | ⟨h, h' | ⟨h', h''⟩⟩
  · exact Prod.Lex.left _ _ h
  · exact Prod.lex_def.2 (Or.inr ⟨h, Prod.Lex.left _ _ h'⟩)
  · exact Prod.lex_def.2 (Or.inr ⟨h, Prod.lex_def.2 (Or.inr ⟨h', h''⟩)⟩)

instance : Std.Irrefl Earlier := ⟨earlier_irrefl⟩

instance : Std.Antisymm Earlier := ⟨fun _ _ h h' => absurd h' h.asymm⟩

theorem before_sublist (L : List Combo) (p : Combo) : (before L p).Sublist L := List.filter_sublist

/-- What is before `t` is before everything from `t` on. -/
theorem before_before {L : List Combo} {c t : Combo} (h : ¬ Earlier c t) : before (before L c) t = before L t := by
  rw [before, before, List.filter_filter]
  apply List.filter_congr
  intro d _
  by_cases hd : Earlier d t
  · simp [hd, hd.trans_le h]
  · simp [hd]

theorem hits_sublist {L L' : List Combo} (h : L.Sublist L') (m : Nat) : hits m L ≤ hits m L' := h.countP_le

theorem sublist_of_mem {L E : List Combo} (hs : L.Pairwise Earlier) (hE : E.Pairwise Earlier) (h : ∀ c ∈ L, c ∈ E) :
    L.Sublist E := List.sublist_of_subperm_of_pairwise (List.subperm_of_subset hs.nodup h) hs hE

/-- A list in order is determined by a property that each member has to have given the members before it. -/
theorem eq_of_determined {P : List Combo → Combo → Prop} (hP : ∀ X Y c, before X c = before Y c → P X c → P Y c)
    {L L' : List Combo} (hs : L.Pairwise Earlier) (hs' : L'.Pairwise Earlier) (hL : ∀ c, c ∈ L ↔ P L c)
    (hL' : ∀ c, c ∈ L' ↔ P L' c) : L = L' := by
  apply hs.eq_of_mem_iff hs'
  intro c
  induction c using earlier_wf.induction with
  | _ c ih =>
    have hsame : before L c = before L' c := by
      apply (hs.sublist (before_sublist L c)).eq_of_mem_iff (hs'.sublist (before_sublist L' c))
      intro d
      simp only [before, List.mem_filter, decide_eq_true_eq]
      exact and_congr_left fun hd => ih d hd
    rw [hL, hL']
    exact ⟨hP L L' c hsame, hP L' L c hsame.symm⟩

/-- The first `r` of a list in order. -/
theorem mem_take_iff {E : List Combo} (hs : E.Pairwise Earlier) (r : Nat) (c : Combo) :
    c ∈ E.take r ↔ c ∈ E ∧ (before (E.take r) c).length < r := by
  induction E generalizing r with
  | nil => simp
  | cons d E ih =>
    obtain ⟨hd, hs⟩ := List.pairwise_cons.1 hs
    cases r with
    | zero => simp
    | succ r =>
      rw [List.take_succ_cons, List.mem_cons, List.mem_cons]
      by_cases hc : c = d
      · subst hc
        have hnil : before (c :: E.take r) c = [] := by
          apply List.filter_eq_nil_iff.2
          intro d' hd'
          rcases List.mem_cons.1 hd' with rfl | hm
          · simpa using earlier_irrefl d'
          · simpa using (hd d' (List.mem_of_mem_take hm)).asymm
        simp [hnil]
      · simp only [hc, false_or, ih hs]
        apply and_congr_right
        intro hm
        have hcons : before (d :: E.take r) c = d :: before (E.take r) c := by
          rw [before, List.filter_cons_of_pos (by simpa using hd c hm)]
          rfl
        rw [hcons, List.length_cons]
        omega

/-! ## What the distance tests admit -/

instance (p : EventPoint V) : Decidable (EmptyPoint p) :=
  inferInstanceAs (Decidable (p.frequencyBin = 0 ∧ p.timeIndex = 0))

instance (cfg : Config V) (base : List (EventPoint V)) (audioBlockIndex : Int) (i : Nat) :
    Decidable (Anchors cfg base audioBlockIndex i) :=
  decidable_of_iff ((point base i).timeIndex ≤ audioBlockIndex - cfg.maxTimeDistance ∧
      ∀ m, m ≤ i → ¬ EmptyPoint (point base m))
    ⟨fun h => ⟨h.1, h.2⟩, fun h => ⟨h.old, h.nonempty⟩⟩

instance (cfg : Config V) (arity : Arity) (base : List (EventPoint V)) (n : Nat) (audioBlockIndex : Int) (c : Combo) :
    Decidable (Candidate cfg arity base n audioBlockIndex c) :=
  decidable_of_iff (c.2.2 < n ∧ c.1 < c.2.1 ∧ Near cfg (point base c.1) (point base c.2.1) ∧
      Third cfg base arity c.2.1 c.2.2 ∧ Anchors cfg base audioBlockIndex c.1)
    ⟨fun ⟨h1, h2, h3, h4, h5⟩ => ⟨h5, h2, h3, h4, h1⟩, fun h => ⟨h.bound, h.lt, h.near, h.third, h.anchor⟩⟩

/-- All triples of slots below `n`, in the order of the loops. -/
def triples (n : Nat) : List Combo :=
  (List.range n).flatMap fun i => (List.range n).flatMap fun j => (List.range n).map fun k => (i, j, k)

theorem pairwise_triples (n : Nat) : (triples n).Pairwise Earlier := by
  have hrange := List.pairwise_lt_range (n := n)
  refine List.pairwise_flatMap.2 ⟨fun i _ => List.pairwise_flatMap.2 ⟨fun j _ => ?_, ?_⟩, ?_⟩
  · exact List.pairwise_map.2 (hrange.imp fun h => Or.inr ⟨rfl, Or.inr ⟨rfl, h⟩⟩)
  · refine hrange.imp fun {j j'} h c hc d hd => ?_
    obtain ⟨k, _, rfl⟩ := List.mem_map.1 hc
    obtain ⟨k', _, rfl⟩ := List.mem_map.1 hd
    exact Or.inr ⟨rfl, Or.inl h⟩
  · refine hrange.imp fun {i i'} h c hc d hd => ?_
    obtain ⟨j, _, hc⟩ := List.mem_flatMap.1 hc
    obtain ⟨j', _, hd⟩ := List.mem_flatMap.1 hd
    obtain ⟨k, _, rfl⟩ := List.mem_map.1 hc
    obtain ⟨k', _, rfl⟩ := List.mem_map.1 hd
    exact Or.inl h

/-- What the distance tests admit, in the order of the loops. -/
def candidates (cfg : Config V) (arity : Arity) (base : List (EventPoint V)) (n : Nat) (audioBlockIndex : Int) :
    List Combo := (triples n).filter fun c => Candidate cfg arity base n audioBlockIndex c

section Call
variable {cfg : Config V} {arity : Arity} {base : List (EventPoint V)} {n : Nat} {audioBlockIndex : Int}

theorem mem_candidates {c : Combo} :
    c ∈ candidates cfg arity base n audioBlockIndex ↔ Candidate cfg arity base n audioBlockIndex c := by
  simp only [candidates, List.mem_filter, decide_eq_true_eq, and_iff_right_iff_imp]
  intro h
  have hlt := h.lt
  have hle := h.third.le
  have hb := h.bound
  simp only [triples, List.mem_flatMap, List.mem_map, List.mem_range]
  exact ⟨c.1, by omega, c.2.1, by omega, c.2.2, hb, rfl⟩

theorem pairwise_candidates (cfg : Config V) (arity : Arity) (base : List (EventPoint V)) (n : Nat) (audioBlockIndex : Int) :
    (candidates cfg arity base n audioBlockIndex).Pairwise Earlier := (pairwise_triples n).filter _

/-- Without a failing test a call emits candidates in order until there is no room. -/
theorem eq_take_candidates {L : List Combo} {r : Nat} (hs : L.Pairwise Earlier)
    (hL : ∀ c, c ∈ L ↔ Candidate cfg arity base n audioBlockIndex c ∧ (before L c).length < r) :
    L = (candidates cfg arity base n audioBlockIndex).take r := by
  have hE := pairwise_candidates cfg arity base n audioBlockIndex
  refine eq_of_determined (P := fun X c => Candidate cfg arity base n audioBlockIndex c ∧ (before X c).length < r)
    (fun X Y c h hX => h ▸ hX) hs (hE.sublist (List.take_sublist _ _)) hL fun c => ?_
  rw [mem_take_iff hE, mem_candidates]

theorem admits_congr {held : Nat} {C : Combo → Prop} (X Y : List Combo) (c : Combo) (h : before X c = before Y c)
    (hX : Admits cfg base held C X c) : Admits cfg base held C Y c := by
  obtain ⟨hC, htests, hroom⟩ := hX
  refine ⟨hC, fun m hm => ?_, h ▸ hroom⟩
  rw [← before_before (testAt_le hm), ← h, before_before (testAt_le hm)]
  exact htests m hm

theorem Passes.mono {L L' : List Combo} {m : Nat} (h : Passes cfg base L' m) (hs : L.Sublist L') : Passes cfg base L m := by
  have := hits_sublist hs m
  unfold Passes at *
  omega

/-- What is within the cap in the end was so at every test. -/
theorem Passes.before {L : List Combo} {m : Nat} (h : Passes cfg base L m) (p : Combo) :
    Passes cfg base (FpExtractor.before L p) m := h.mono (before_sublist L p)

/-- **Every point ends a call within the cap if and only if the candidates that find room leave it there.** -/
theorem extract_capped (arity : Arity) (cfg : Config V) (eps : EventPoints V) (fps : List (Fingerprint V))
    (audioBlockIndex : Int) (hn : eps.eventPointIndex ≤ eps.eventPoints.length)
    (ha : Ascending eps.eventPoints eps.eventPointIndex) (hroom : fps.length ≤ cfg.maxFingerprints) :
    (∀ m, m < eps.eventPointIndex →
      (point (extractN arity cfg eps fps audioBlockIndex).eventPoints m).usages ≤ cfg.maxEventPointUsages) ↔
    ∀ m, m < eps.eventPointIndex → Passes cfg eps.eventPoints
      ((candidates cfg arity eps.eventPoints eps.eventPointIndex audioBlockIndex).take (cfg.maxFingerprints - fps.length)) m := by
  obtain ⟨L, he, hs, hmem⟩ := extract_exact arity cfg eps fps audioBlockIndex hn ha hroom
  have hE := pairwise_candidates cfg arity eps.eventPoints eps.eventPointIndex audioBlockIndex
  have hlen : ∀ x, fps.length + x < cfg.maxFingerprints ↔ x < cfg.maxFingerprints - fps.length := fun x => by omega
  have husages : ∀ m, m < eps.eventPointIndex →
      ((point (extractN arity cfg eps fps audioBlockIndex).eventPoints m).usages ≤ cfg.maxEventPointUsages ↔
        Passes cfg eps.eventPoints L m) := fun m hm => he.passes_iff (Nat.lt_of_lt_of_le hm hn)
  constructor
  · intro hcap
    have hL : L = (candidates cfg arity eps.eventPoints eps.eventPointIndex audioBlockIndex).take
        (cfg.maxFingerprints - fps.length) := by
      refine eq_take_candidates hs fun c => (hmem c).trans ?_
      rw [Admits, hlen]
      refine and_congr_right fun hc => and_iff_right fun m hm => ?_
      have hmn : m < eps.eventPointIndex := Nat.lt_of_le_of_lt hm hc.bound
      exact ((husages m hmn).1 (hcap m hmn)).before _
    intro m hm
    rw [← hL]
    exact (husages m hm).1 (hcap m hm)
  · intro hfit m hm
    have hL : L = (candidates cfg arity eps.eventPoints eps.eventPointIndex audioBlockIndex).take
        (cfg.maxFingerprints - fps.length) := by
      apply eq_of_determined admits_congr hs (hE.sublist (List.take_sublist _ _)) hmem
      intro c
      rw [mem_take_iff hE, mem_candidates, Admits, hlen]
      exact and_congr_right fun hc => (and_iff_right fun m hm =>
        (hfit m (Nat.lt_of_le_of_lt hm hc.bound)).before _).symm
    rw [husages m hm, hL]
    exact hfit m hm

end Call

/-- What the distance tests admit to the combination stage. -/
def admitted (cfg : Config V) (eps : EventPoints V) (audioBlockIndex : Int) : List Combo :=
  if cfg.numberOfEPsPerFP = 2 then candidates cfg .two eps.eventPoints eps.eventPointIndex audioBlockIndex
  else if cfg.numberOfEPsPerFP = 3 then candidates cfg .three eps.eventPoints eps.eventPointIndex audioBlockIndex
  else []

/-- The first `maxFingerprints` of them leave every buffered point within the cap. -/
def WithinCap (cfg : Config V) (eps : EventPoints V) (audioBlockIndex : Int) : Prop :=
  ∀ m, m < eps.eventPointIndex →
    Passes cfg eps.eventPoints ((admitted cfg eps audioBlockIndex).take cfg.maxFingerprints) m

/-- **The combination stage leaves every point within the cap** exactly when what is admitted does. -/
theorem combine_capped (cfg : Config V) (eps : EventPoints V) (audioBlockIndex : Int)
    (hn : eps.eventPointIndex ≤ eps.eventPoints.length) (ha : Ascending eps.eventPoints eps.eventPointIndex) :
    (∀ m, m < eps.eventPointIndex →
      (point (combine cfg eps [] audioBlockIndex).eventPoints m).usages ≤ cfg.maxEventPointUsages) ↔
    WithinCap cfg eps audioBlockIndex := by
  have hcall := fun arity => extract_capped arity cfg eps [] audioBlockIndex hn ha (Nat.zero_le _)
  unfold WithinCap admitted combine
  split
  · exact hcall .two
  · split
    · exact hcall .three
    · simp [Passes, hits]

/-! ## What a point beyond the cap hides -/

/-- Every combination of three buffered points that the distance tests admit is emitted, unless one of the three ends beyond
the cap or the fingerprint array fills up. -/
def Complete (cfg : Config V) (eps : EventPoints V) (fps : List (Fingerprint V)) (audioBlockIndex : Int) : Prop :=
  ∃ L, Emits ⟨eps.eventPoints, fps⟩ (extractThree cfg eps fps audioBlockIndex) L ∧
    ∀ i j k, i < j → j < k → k < eps.eventPointIndex →
      (point eps.eventPoints i).timeIndex ≤ audioBlockIndex - cfg.maxTimeDistance →
      Near cfg (point eps.eventPoints i) (point eps.eventPoints j) →
      Near cfg (point eps.eventPoints j) (point eps.eventPoints k) →
      (∀ m, m = i ∨ m = j ∨ m = k →
        (point (extractThree cfg eps fps audioBlockIndex).eventPoints m).usages ≤ cfg.maxEventPointUsages) →
      (extractThree cfg eps fps audioBlockIndex).fingerprints.length < cfg.maxFingerprints → (i, j, k) ∈ L

instance (cfg : Config V) (base : List (EventPoint V)) (H : List Combo) (m : Nat) : Decidable (Passes cfg base H m) :=
  inferInstanceAs (Decidable (_ ≤ _))

/-- The tests of a combination's own three slots. -/
def OwnPass (cfg : Config V) (base : List (EventPoint V)) (L : List Combo) (c : Combo) : Prop :=
  Passes cfg base (before L (testAt c c.1)) c.1 ∧ Passes cfg base (before L (testAt c c.2.1)) c.2.1 ∧
    Passes cfg base (before L (testAt c c.2.2)) c.2.2

instance (cfg : Config V) (base : List (EventPoint V)) (L : List Combo) (c : Combo) : Decidable (OwnPass cfg base L c) :=
  inferInstanceAs (Decidable (_ ∧ _ ∧ _))

/-- What is emitted of the candidates `todo`, after `done`, when a point beyond the cap is passed over and ends no loop. -/
def passOver (cfg : Config V) (base : List (EventPoint V)) (held : Nat) : (todo done : List Combo) → List Combo
  | [], done => done
  | c :: todo, done =>
    passOver cfg base held todo
      (if OwnPass cfg base done c ∧ held + done.length < cfg.maxFingerprints then done ++ [c] else done)

/-- The combinations that only their own points decide on. -/
def unhidden (cfg : Config V) (eps : EventPoints V) (fps : List (Fingerprint V)) (audioBlockIndex : Int) : List Combo :=
  passOver cfg eps.eventPoints fps.length (candidates cfg .three eps.eventPoints eps.eventPointIndex audioBlockIndex) []

/-- No slot that is tested on the way to one of them, its own three aside, is beyond the cap by then. -/
def NothingHides (cfg : Config V) (eps : EventPoints V) (fps : List (Fingerprint V)) (audioBlockIndex : Int) : Prop :=
  ∀ c ∈ unhidden cfg eps fps audioBlockIndex, ∀ m, m ≤ c.2.2 → ¬ (m = c.1 ∨ m = c.2.1 ∨ m = c.2.2) →
    Passes cfg eps.eventPoints (before (unhidden cfg eps fps audioBlockIndex) (testAt c m)) m

/-- All candidates together leave their own points within the cap, and they find room. -/
structure Spare (cfg : Config V) (eps : EventPoints V) (fps : List (Fingerprint V)) (audioBlockIndex : Int) : Prop where
  own : ∀ c, Candidate cfg .three eps.eventPoints eps.eventPointIndex audioBlockIndex c →
    ∀ m, m = c.1 ∨ m = c.2.1 ∨ m = c.2.2 →
      Passes cfg eps.eventPoints (candidates cfg .three eps.eventPoints eps.eventPointIndex audioBlockIndex) m
  room : fps.length + (candidates cfg .three eps.eventPoints eps.eventPointIndex audioBlockIndex).length < cfg.maxFingerprints

section Hiding
variable {cfg : Config V} {eps : EventPoints V} {fps : List (Fingerprint V)} {audioBlockIndex : Int}

theorem ownPass_of_passes {base : List (EventPoint V)} {L : List Combo} {c : Combo}
    (h : ∀ m, m = c.1 ∨ m = c.2.1 ∨ m = c.2.2 → Passes cfg base L m) : OwnPass cfg base L c :=
  ⟨(h _ (by simp)).before _, (h _ (by simp)).before _, (h _ (by simp)).before _⟩

theorem OwnPass.congr {base : List (EventPoint V)} {X Y : List Combo} {c : Combo} (hle : c.1 ≤ c.2.2 ∧ c.2.1 ≤ c.2.2)
    (h : before X c = before Y c) (hX : OwnPass cfg base X c) : OwnPass cfg base Y c := by
  have hsame : ∀ m, m ≤ c.2.2 → before X (testAt c m) = before Y (testAt c m) := fun m hm => by
    rw [← before_before (testAt_le hm), h, before_before (testAt_le hm)]
  obtain ⟨h1, h2, h3⟩ := hX
  rw [hsame _ hle.1] at h1
  rw [hsame _ hle.2] at h2
  rw [hsame _ (Nat.le_refl _)] at h3
  exact ⟨h1, h2, h3⟩

/-- A list of candidates in order is decided on one by one. -/
theorem passOver_spec (cfg : Config V) (base : List (EventPoint V)) (held : Nat) (todo : List Combo)
    (hle : ∀ c ∈ todo, c.1 ≤ c.2.2 ∧ c.2.1 ≤ c.2.2) : ∀ (done : List Combo), (done ++ todo).Pairwise Earlier →
    (passOver cfg base held todo done).Pairwise Earlier ∧
      ∀ d, d ∈ passOver cfg base held todo done ↔ d ∈ done ∨ d ∈ todo ∧
        OwnPass cfg base (passOver cfg base held todo done) d ∧
        held + (before (passOver cfg base held todo done) d).length < cfg.maxFingerprints := by
  induction todo with
  | nil =>
    intro done hs
    rw [List.append_nil] at hs
    exact ⟨hs, by simp [passOver]⟩
  | cons c todo ih =>
    intro done hs
    obtain ⟨hdone, htodo, hacross⟩ := List.pairwise_append.1 hs
    have hlater := (List.pairwise_cons.1 htodo).1
    have hold : ∀ d ∈ done, Earlier d c := fun d hd => hacross d hd c (by simp)
    have hkeep : before done c = done := List.filter_eq_self.2 fun d hd => by simpa using hold d hd
    unfold passOver
    generalize hnext : (if OwnPass cfg base done c ∧ held + done.length < cfg.maxFingerprints then done ++ [c] else done) = done'
    have hs' : (done' ++ todo).Pairwise Earlier := by
      rw [← hnext]
      split
      · rwa [List.append_assoc]
      · exact hs.sublist ((List.sublist_cons_self c todo).append_left done)
    have hdone' : ∀ d, d ∈ done' ↔ d ∈ done ∨ d = c ∧ OwnPass cfg base done c ∧ held + done.length < cfg.maxFingerprints := by
      intro d
      rw [← hnext]
      split <;> simp [*]
    obtain ⟨hR, hmem⟩ := ih (fun d hd => hle d (List.mem_cons_of_mem c hd)) done' hs'
    -- what is decided later does not come before `c`
    have hbefore : before (passOver cfg base held todo done') c = done := by
      apply (hR.sublist (before_sublist _ c)).eq_of_mem_iff hdone
      intro d
      simp only [before, List.mem_filter, decide_eq_true_eq, hmem, hdone']
      constructor
      · rintro ⟨(hd | ⟨rfl, _⟩) | ⟨hd, _⟩, hdc⟩
        · exact hd
        · exact absurd hdc (earlier_irrefl d)
        · exact absurd hdc (hlater d hd).asymm
      · intro hd
        exact ⟨Or.inl (Or.inl hd), hold d hd⟩
    have hown : OwnPass cfg base done c ↔ OwnPass cfg base (passOver cfg base held todo done') c :=
      ⟨OwnPass.congr (hle c (by simp)) (hkeep.trans hbefore.symm), OwnPass.congr (hle c (by simp)) (hbefore.trans hkeep.symm)⟩
    refine ⟨hR, fun d => ?_⟩
    rw [hmem d, hdone' d, or_assoc, List.mem_cons, or_and_right]
    refine or_congr_right (or_congr_left (and_congr_right fun hd => ?_))
    rw [hd, hbefore, hown]

theorem unhidden_spec (cfg : Config V) (eps : EventPoints V) (fps : List (Fingerprint V)) (audioBlockIndex : Int) :
    (unhidden cfg eps fps audioBlockIndex).Pairwise Earlier ∧ ∀ c, c ∈ unhidden cfg eps fps audioBlockIndex ↔
      Candidate cfg .three eps.eventPoints eps.eventPointIndex audioBlockIndex c ∧
        OwnPass cfg eps.eventPoints (unhidden cfg eps fps audioBlockIndex) c ∧
        fps.length + (before (unhidden cfg eps fps audioBlockIndex) c).length < cfg.maxFingerprints := by
  obtain ⟨hs, hmem⟩ := passOver_spec cfg eps.eventPoints fps.length
    (candidates cfg .three eps.eventPoints eps.eventPointIndex audioBlockIndex) (fun c hc => by
      have h := mem_candidates.1 hc
      have := h.lt
      have := h.third.1
      omega) [] (pairwise_candidates cfg .three eps.eventPoints eps.eventPointIndex audioBlockIndex)
  refine ⟨hs, fun c => (hmem c).trans ?_⟩
  rw [mem_candidates]
  simp only [List.not_mem_nil, false_or]
  exact Iff.rfl

/-- Without points that hide others a call emits what only its own points decide on. -/
theorem NothingHides.emits (h : NothingHides cfg eps fps audioBlockIndex) {L : List Combo} (hs : L.Pairwise Earlier)
    (hmem : ∀ c, c ∈ L ↔ Admits cfg eps.eventPoints fps.length
      (Candidate cfg .three eps.eventPoints eps.eventPointIndex audioBlockIndex) L c) :
    L = unhidden cfg eps fps audioBlockIndex := by
  obtain ⟨hs', hmem'⟩ := unhidden_spec cfg eps fps audioBlockIndex
  apply eq_of_determined admits_congr hs hs' hmem
  intro c
  constructor
  · intro hc
    obtain ⟨hC, ⟨h1, h2, h3⟩, hroom⟩ := (hmem' c).1 hc
    refine ⟨hC, fun m hm => ?_, hroom⟩
    by_cases hown : m = c.1 ∨ m = c.2.1 ∨ m = c.2.2
    · rcases hown with rfl | rfl | rfl
      · exact h1
      · exact h2
      · exact h3
    · exact h c hc m hm hown
  · rintro ⟨hC, htests, hroom⟩
    have hlt := hC.lt
    have hthird := hC.third.1
    exact (hmem' c).2 ⟨hC, ⟨htests _ (by omega), htests _ (by omega), htests _ (Nat.le_refl _)⟩, hroom⟩

theorem candidate_of_bins (hf : ∀ m, m < eps.eventPointIndex → 1 ≤ (point eps.eventPoints m).frequencyBin) {i j k : Nat}
    (hij : i < j) (hjk : j < k) (hk : k < eps.eventPointIndex)
    (hold : (point eps.eventPoints i).timeIndex ≤ audioBlockIndex - cfg.maxTimeDistance)
    (h1 : Near cfg (point eps.eventPoints i) (point eps.eventPoints j))
    (h2 : Near cfg (point eps.eventPoints j) (point eps.eventPoints k)) :
    Candidate cfg .three eps.eventPoints eps.eventPointIndex audioBlockIndex (i, j, k) := by
  refine ⟨⟨hold, fun m hm he => ?_⟩, hij, h1, ⟨hjk, h2⟩, hk⟩
  have := hf m (by simp only at hm; omega)
  have := he.1
  omega

/-- **When the combination of three points is complete.** It is when nothing hides a combination; where the candidates leave
their own points within the cap, it is only then. -/
theorem complete_of_nothingHides (cfg : Config V) (eps : EventPoints V) (fps : List (Fingerprint V)) (audioBlockIndex : Int)
    (hn : eps.eventPointIndex ≤ eps.eventPoints.length) (ha : Ascending eps.eventPoints eps.eventPointIndex)
    (hf : ∀ m, m < eps.eventPointIndex → 1 ≤ (point eps.eventPoints m).frequencyBin)
    (hroom : fps.length ≤ cfg.maxFingerprints) :
    (NothingHides cfg eps fps audioBlockIndex → Complete cfg eps fps audioBlockIndex) ∧
      (Spare cfg eps fps audioBlockIndex →
        (Complete cfg eps fps audioBlockIndex ↔ NothingHides cfg eps fps audioBlockIndex)) := by
  obtain ⟨L, he, hs, hmem⟩ := extract_exact .three cfg eps fps audioBlockIndex hn ha hroom
  have hE := pairwise_candidates cfg .three eps.eventPoints eps.eventPointIndex audioBlockIndex
  have husages : ∀ m, m < eps.eventPointIndex →
      ((point (extractThree cfg eps fps audioBlockIndex).eventPoints m).usages ≤ cfg.maxEventPointUsages ↔
        Passes cfg eps.eventPoints L m) := fun m hm => he.passes_iff (Nat.lt_of_lt_of_le hm hn)
  have hheld : (extractThree cfg eps fps audioBlockIndex).fingerprints.length = fps.length + L.length := he.held
  have hcomplete : NothingHides cfg eps fps audioBlockIndex → Complete cfg eps fps audioBlockIndex := by
    intro hhide
    refine ⟨L, he, fun i j k hij hjk hk hold h1 h2 hcap hfree => ?_⟩
    have hL := hhide.emits hs hmem
    have hown : OwnPass cfg eps.eventPoints L (i, j, k) := ownPass_of_passes fun m hm =>
      (husages m (by simp only at hm; omega)).1 (hcap m hm)
    have hlen := (before_sublist L (i, j, k)).length_le
    rw [hL, (unhidden_spec cfg eps fps audioBlockIndex).2, ← hL]
    exact ⟨candidate_of_bins hf hij hjk hk hold h1 h2, hown, by omega⟩
  refine ⟨hcomplete, fun hspare => ⟨fun ⟨L', he', hall⟩ => ?_, hcomplete⟩⟩
  have hsub : L.Sublist (candidates cfg .three eps.eventPoints eps.eventPointIndex audioBlockIndex) :=
    sublist_of_mem hs hE fun c hc => mem_candidates.2 ((hmem c).1 hc).1
  have hlen := hsub.length_le
  have hroom' := hspare.room
  have hin : ∀ c ∈ candidates cfg .three eps.eventPoints eps.eventPointIndex audioBlockIndex, c ∈ L' := by
    intro c hcE
    have hc := mem_candidates.1 hcE
    have hlt := hc.lt
    have hthird := hc.third.1
    have hb := hc.bound
    refine hall c.1 c.2.1 c.2.2 hlt hthird hb hc.anchor.old hc.near hc.third.2 (fun m hm => ?_) (by omega)
    exact (husages m (by omega)).2 ((hspare.own c hc m hm).mono hsub)
  -- both lists have the length of what was appended, so every candidate was emitted
  have hsame : L.length = L'.length := by
    have := he'.held
    rw [hheld] at this
    omega
  have hL : L = candidates cfg .three eps.eventPoints eps.eventPointIndex audioBlockIndex := by
    refine hsub.eq_of_length_le ?_
    rw [hsame]
    exact hE.nodup.length_le_of_subset hin
  have hunhidden : unhidden cfg eps fps audioBlockIndex = L := by
    obtain ⟨hs', hmem'⟩ := unhidden_spec cfg eps fps audioBlockIndex
    apply hs'.eq_of_mem_iff hs
    intro c
    rw [hL, mem_candidates, hmem']
    apply and_iff_left_of_imp
    intro hc
    have hsub' : (unhidden cfg eps fps audioBlockIndex).Sublist
        (candidates cfg .three eps.eventPoints eps.eventPointIndex audioBlockIndex) :=
      sublist_of_mem hs' hE fun d hd => mem_candidates.2 ((hmem' d).1 hd).1
    have hlen' := ((before_sublist _ c).trans hsub').length_le
    exact ⟨ownPass_of_passes fun m hm => (hspare.own c hc m hm).mono hsub', by omega⟩
  intro c hc m hm _
  rw [hunhidden] at hc ⊢
  exact ((hmem c).1 hc).2.1 m hm

end Hiding

/-- Three points that combine, with nothing between them. -/
theorem complete_of_nothingHides_threeSlots :
    unhidden (.default ℚ) threeSlots [] 100 = [(0, 1, 2)] ∧ NothingHides (.default ℚ) threeSlots [] 100 ∧
      Complete (.default ℚ) threeSlots [] 100 := by
  have hone : unhidden (.default ℚ) threeSlots [] 100 = [(0, 1, 2)] := by decide +kernel
  have hhides : NothingHides (.default ℚ) threeSlots [] 100 := by
    intro c hc m hm hown
    rw [hone, List.mem_singleton] at hc
    subst hc
    have hle : m ≤ 2 := hm
    have hnone : ¬ (m = 0 ∨ m = 1 ∨ m = 2) := hown
    omega
  have hascending : ∀ b, b < 3 → ∀ a, a < b →
      (point threeSlots.eventPoints a).timeIndex ≤ (point threeSlots.eventPoints b).timeIndex := by decide
  exact ⟨hone, hhides, (complete_of_nothingHides (.default ℚ) threeSlots [] 100 (by decide) (fun a b hab hb => hascending b hb a hab)
    (by decide) (by decide)).1 hhides⟩

/-- Three points that combine and, between the first two, one that earlier calls used eleven times. -/
def fourPoints : EventPoints ℚ := ⟨[⟨100, 10, 1, 0⟩, ⟨300, 11, 1, 11⟩, ⟨110, 13, 1, 0⟩, ⟨120, 16, 1, 0⟩], 4⟩

/-- The `j` loop stops at the second point, so the other three are not combined. -/
theorem fourPoints_hidden :
    Ascending fourPoints.eventPoints fourPoints.eventPointIndex ∧
      (∀ m, m < fourPoints.eventPointIndex → 1 ≤ (point fourPoints.eventPoints m).frequencyBin) ∧
      ¬ Complete (.default ℚ) fourPoints [] 100 := by
  have hnone : (extractThree (.default ℚ) fourPoints [] 100).fingerprints = [] := by decide
  refine ⟨fun a b hab hb => ?_, by decide, fun ⟨L, he, hall⟩ => ?_⟩
  · have hall : ∀ b, b < 4 → ∀ a, a < b →
        (point fourPoints.eventPoints a).timeIndex ≤ (point fourPoints.eventPoints b).timeIndex := by decide
    exact hall b hb a hab
  · have hin : ((0, 2, 3) : Combo) ∈ L := by
      refine hall 0 2 3 (by decide) (by decide) (by decide) (by decide) (by decide) (by decide) ?_ ?_
      · rintro m (rfl | rfl | rfl) <;> decide
      · rw [hnone]
        decide
    have hL := he.fingerprints
    rw [hnone, List.nil_append, eq_comm, List.map_eq_nil_iff] at hL
    rw [hL] at hin
    cases hin

end Olaf.FpExtractor
