import Mathlib.Data.List.Induction
import Olaf.FpExtractor
/-!
# Which combinations a call emits

The loops of `olaf_fp_extractor.c` come to the combinations in lexicographic order (`Earlier`). On the way to `c` they test
every slot up to its last one for its usages, slot `m` when they are about to come to `testAt c m`, and a test that fails
ends its loop. So `c` is emitted if and only if the distance tests admit it (`Candidate`), none of these tests fails with
the combinations emitted by then, and there is room (`extract_exact`). This determines what a call emits.

`Exact` is that statement for the part of a loop from one combination up to another; its rules follow the loops: `stop` for
a `break`, `one` for a single combination and `seq` for two parts in a row.
-/

namespace Olaf.FpExtractor

variable {V : Type} [Sample V]

/-! ## The order of the loops -/

/-- Lexicographic order. -/
def Earlier (c d : Combo) : Prop := c.1 < d.1 ∨ c.1 = d.1 ∧ (c.2.1 < d.2.1 ∨ c.2.1 = d.2.1 ∧ c.2.2 < d.2.2)

instance : DecidableRel Earlier := fun c d =>
  inferInstanceAs (Decidable (c.1 < d.1 ∨ c.1 = d.1 ∧ (c.2.1 < d.2.1 ∨ c.2.1 = d.2.1 ∧ c.2.2 < d.2.2)))

theorem earlier_irrefl (c : Combo) : ¬ Earlier c c := by
  unfold Earlier
  omega

theorem Earlier.trans_le {c p d : Combo} (h : Earlier c p) (h' : ¬ Earlier d p) : Earlier c d := by
  unfold Earlier at *
  omega

theorem Earlier.le_trans {c p d : Combo} (h : ¬ Earlier p c) (h' : Earlier p d) : Earlier c d := by
  unfold Earlier at *
  omega

theorem not_earlier_trans {c p d : Combo} (h : ¬ Earlier p c) (h' : ¬ Earlier d p) : ¬ Earlier d c := by
  unfold Earlier at *
  omega

theorem Earlier.trans {c p d : Combo} (h : Earlier c p) (h' : Earlier p d) : Earlier c d := by
  unfold Earlier at *
  omega

theorem Earlier.asymm {c d : Combo} (h : Earlier c d) : ¬ Earlier d c := by
  unfold Earlier at *
  omega

/-- The combinations of a list before `p`. -/
def before (L : List Combo) (p : Combo) : List Combo := L.filter (Earlier · p)

/-- What the loops are about to come to when they test slot `m` on the way to `c`. -/
def testAt (c : Combo) (m : Nat) : Combo :=
  if m ≤ c.1 then (m, 0, 0) else if m ≤ c.2.1 then (c.1, m, 0) else (c.1, c.2.1, m)

theorem testAt_first {c : Combo} {m : Nat} (h : m ≤ c.1) : testAt c m = (m, 0, 0) := if_pos h

theorem testAt_second {c : Combo} {m : Nat} (h : c.1 < m) (h' : m ≤ c.2.1) : testAt c m = (c.1, m, 0) := by
  rw [testAt, if_neg (by omega), if_pos h']

theorem testAt_third {c : Combo} {m : Nat} (h : c.1 < m) (h' : c.2.1 < m) : testAt c m = (c.1, c.2.1, m) := by
  rw [testAt, if_neg (by omega), if_neg (by omega)]

/-- The three loops in which a slot is tested. -/
theorem testAt_cases (c : Combo) (m : Nat) :
    (m ≤ c.1 ∧ testAt c m = (m, 0, 0)) ∨ (c.1 < m ∧ m ≤ c.2.1 ∧ testAt c m = (c.1, m, 0)) ∨
      (c.1 < m ∧ c.2.1 < m ∧ testAt c m = (c.1, c.2.1, m)) := by
  by_cases h1 : m ≤ c.1
  · exact Or.inl ⟨h1, testAt_first h1⟩
  by_cases h2 : m ≤ c.2.1
  · exact Or.inr (Or.inl ⟨by omega, h2, testAt_second (by omega) h2⟩)
  · exact Or.inr (Or.inr ⟨by omega, by omega, testAt_third (by omega) (by omega)⟩)

/-- A test is made before the combination. -/
theorem testAt_le {c : Combo} {m : Nat} (h : m ≤ c.2.2) : ¬ Earlier c (testAt c m) := by
  rcases testAt_cases c m with ⟨_, he⟩ | ⟨_, _, he⟩ | ⟨_, _, he⟩ <;> simp only [he, Earlier] <;> omega

theorem before_nil (p : Combo) : before [] p = [] := rfl

theorem before_append (L L' : List Combo) (p : Combo) : before (L ++ L') p = before L p ++ before L' p :=
  List.filter_append _ _

/-- The part of a list that begins at `p'` is not before a point up to there. -/
theorem before_append_low {L L' : List Combo} {p' t : Combo} (hL' : ∀ d ∈ L', ¬ Earlier d p') (ht : ¬ Earlier p' t) :
    before (L ++ L') t = before L t := by
  have hnil : before L' t = [] := by
    apply List.filter_eq_nil_iff.2
    intro d hd
    simpa using not_earlier_trans ht (hL' d hd)
  rw [before_append, hnil, List.append_nil]

/-- The part that ends there is before a later point. -/
theorem before_append_high {L L' : List Combo} {p' t : Combo} (hL : ∀ d ∈ L, Earlier d p') (ht : ¬ Earlier t p') :
    before (L ++ L') t = L ++ before L' t := by
  have hall : before L t = L := by
    apply List.filter_eq_self.2
    intro d hd
    simpa using (hL d hd).trans_le ht
  rw [before_append, hall]

theorem before_eq_nil {L : List Combo} {p t : Combo} (hL : ∀ d ∈ L, ¬ Earlier d p) (ht : ¬ Earlier p t) :
    before L t = [] := by
  apply List.filter_eq_nil_iff.2
  intro d hd
  simpa using not_earlier_trans ht (hL d hd)

/-! ## Parts of a loop -/

/-- Slot `m` may still be used once the combinations `H` were emitted. -/
def Passes (cfg : Config V) (base : List (EventPoint V)) (H : List Combo) (m : Nat) : Prop :=
  (point base m).usages + hits m H ≤ cfg.maxEventPointUsages

/-- What decides on `c` in a part that begins at `p` after the combinations `H` and emits `L`; `C` are the combinations that
the distance tests admit, and `room` that many are held at the start of the call. -/
structure Admitted (cfg : Config V) (base : List (EventPoint V)) (held : Nat) (C : Combo → Prop) (H L : List Combo)
    (p c : Combo) : Prop where
  candidate : C c
  tests : ∀ m, m ≤ c.2.2 → ¬ Earlier (testAt c m) p → Passes cfg base (H ++ before L (testAt c m)) m
  room : held + (H ++ before L c).length < cfg.maxFingerprints

/-- The part from `p` up to `q` takes `s` to `r` and emits what is admitted, in order. -/
def Exact (cfg : Config V) (base : List (EventPoint V)) (held : Nat) (C : Combo → Prop) (H : List Combo) (s r : Pass V)
    (p q : Combo) : Prop :=
  ∃ L, Emits s r L ∧ L.Pairwise Earlier ∧
    ∀ c, c ∈ L ↔ (¬ Earlier c p ∧ Earlier c q) ∧ Admitted cfg base held C H L p c

section Rules
variable {cfg : Config V} {base : List (EventPoint V)} {held : Nat} {C : Combo → Prop} {H : List Combo} {s s1 r : Pass V}
  {p p' q : Combo}

/-- A part that stops at once: what it does not come to fails a test. -/
theorem Exact.stop (h : ∀ c, ¬ Earlier c p → Earlier c q → C c →
    ∃ m, m ≤ c.2.2 ∧ ¬ Earlier (testAt c m) p ∧ ¬ Passes cfg base H m) : Exact cfg base held C H s s p q := by
  refine ⟨[], .refl s, .nil, fun c => iff_of_false List.not_mem_nil ?_⟩
  rintro ⟨⟨hp, hq⟩, hadm⟩
  obtain ⟨m, hm, hlate, hfail⟩ := h c hp hq hadm.candidate
  have := hadm.tests m hm hlate
  rw [before_nil, List.append_nil] at this
  exact hfail this

/-- A part with one candidate. -/
theorem Exact.one {d : Combo} (he : Emits s r (if held + H.length < cfg.maxFingerprints then [d] else []))
    (hp : ¬ Earlier d p) (hq : Earlier d q) (hC : C d) (honly : ∀ c, ¬ Earlier c p → Earlier c q → C c → c = d)
    (hpass : ∀ m, m ≤ d.2.2 → ¬ Earlier (testAt d m) p → Passes cfg base H m) : Exact cfg base held C H s r p q := by
  have hnil : ∀ L, (∀ e ∈ L, e = d) → ∀ t, ¬ Earlier d t → before L t = [] := by
    intro L hL t ht
    apply List.filter_eq_nil_iff.2
    intro e he
    rw [hL e he]
    simpa using ht
  refine ⟨_, he, ?_, fun c => ?_⟩
  · split <;> simp
  split
  · rename_i hroom
    constructor
    · intro hc
      obtain rfl := List.mem_singleton.1 hc
      refine ⟨⟨hp, hq⟩, hC, fun m hm hlate => ?_, ?_⟩
      · rw [hnil [c] (by simp) _ (testAt_le hm), List.append_nil]
        exact hpass m hm hlate
      · rw [hnil [c] (by simp) _ (earlier_irrefl c), List.append_nil]
        exact hroom
    · rintro ⟨⟨h1, h2⟩, hadm⟩
      exact List.mem_singleton.2 (honly c h1 h2 hadm.candidate)
  · rename_i hfull
    refine iff_of_false List.not_mem_nil fun h => hfull ?_
    have := h.2.room
    rwa [before_nil, List.append_nil] at this

/-- Two parts in a row. The one test between their beginnings is passed by all of the second. -/
theorem Exact.seq (hpp : ¬ Earlier p' p) (h : Exact cfg base held C H s s1 p p')
    (h' : ∀ L, Emits s s1 L → Exact cfg base held C (H ++ L) s1 r p' q) (hpq : ¬ Earlier q p')
    (hpass : ∀ c, C c → ¬ Earlier c p' → Earlier c q → ∀ m, m ≤ c.2.2 → ¬ Earlier (testAt c m) p →
      Earlier (testAt c m) p' → testAt c m = p ∧ Passes cfg base H m) : Exact cfg base held C H s r p q := by
  obtain ⟨L, he, hsorted, hmem⟩ := h
  obtain ⟨L', he', hsorted', hmem'⟩ := h' L he
  have hlow : ∀ d ∈ L, ¬ Earlier d p ∧ Earlier d p' := fun d hd => ((hmem d).1 hd).1
  have hhigh : ∀ d ∈ L', ¬ Earlier d p' := fun d hd => ((hmem' d).1 hd).1.1
  refine ⟨L ++ L', he.trans he', ?_, fun c => ?_⟩
  · exact List.pairwise_append.2 ⟨hsorted, hsorted', fun c hc d hd => (hlow c hc).2.trans_le (hhigh d hd)⟩
  rw [List.mem_append]
  by_cases hc : Earlier c p'
  · have hout : c ∉ L' := fun hcL => hhigh c hcL hc
    have hsame : ∀ t, ¬ Earlier c t → before (L ++ L') t = before L t := fun t ht =>
      before_append_low hhigh (Earlier.le_trans ht hc).asymm
    simp only [hout, or_false, hmem c]
    constructor
    · rintro ⟨⟨hp, _⟩, hadm⟩
      refine ⟨⟨hp, hc.trans_le hpq⟩, hadm.candidate, fun m hm hlate => ?_, ?_⟩
      · rw [hsame _ (testAt_le hm)]
        exact hadm.tests m hm hlate
      · rw [hsame _ (earlier_irrefl c)]
        exact hadm.room
    · rintro ⟨⟨hp, _⟩, hadm⟩
      refine ⟨⟨hp, hc⟩, hadm.candidate, fun m hm hlate => ?_, ?_⟩
      · rw [← hsame _ (testAt_le hm)]
        exact hadm.tests m hm hlate
      · rw [← hsame _ (earlier_irrefl c)]
        exact hadm.room
  · have hout : c ∉ L := fun hcL => hc (hlow c hcL).2
    have hsame : ∀ t, ¬ Earlier t p' → H ++ before (L ++ L') t = H ++ L ++ before L' t := fun t ht => by
      rw [before_append_high (fun d hd => (hlow d hd).2) ht, List.append_assoc]
    simp only [hout, false_or, hmem' c]
    constructor
    · rintro ⟨⟨_, hq⟩, hadm⟩
      refine ⟨⟨not_earlier_trans hpp hc, hq⟩, hadm.candidate, fun m hm hlate => ?_, ?_⟩
      · by_cases ht : Earlier (testAt c m) p'
        · -- nothing was emitted between the beginning and this test
          obtain ⟨hat, hpasses⟩ := hpass c hadm.candidate hc hq m hm hlate ht
          have hnil : before (L ++ L') (testAt c m) = [] := by
            refine before_eq_nil (p := p) (fun d hd => ?_) (hat ▸ earlier_irrefl p)
            rcases List.mem_append.1 hd with hd | hd
            · exact (hlow d hd).1
            · exact not_earlier_trans hpp (hhigh d hd)
          rw [hnil, List.append_nil]
          exact hpasses
        · rw [hsame _ ht]
          exact hadm.tests m hm ht
      · rw [hsame _ hc]
        exact hadm.room
    · rintro ⟨⟨_, hq⟩, hadm⟩
      refine ⟨⟨hc, hq⟩, hadm.candidate, fun m hm hlate => ?_, ?_⟩
      · rw [← hsame _ hlate]
        exact hadm.tests m hm (not_earlier_trans hpp hlate)
      · rw [← hsame _ hc]
        exact hadm.room

/-- A part that passes over what nothing admits. -/
theorem Exact.skip {t : Combo} (hpp : ¬ Earlier t p) (hpq : ¬ Earlier q t) (hno : ∀ c, C c → ¬ Earlier c p → ¬ Earlier c t)
    (h : Exact cfg base held C H s r t q)
    (hpass : ∀ c, C c → ¬ Earlier c t → Earlier c q → ∀ m, m ≤ c.2.2 → ¬ Earlier (testAt c m) p →
      Earlier (testAt c m) t → testAt c m = p ∧ Passes cfg base H m) : Exact cfg base held C H s r p q := by
  refine Exact.seq hpp (.stop fun c h1 h2 hC => absurd h2 (hno c hC h1)) (fun L he => ?_) hpq hpass
  have hL : L = [] := by simpa using he.fingerprints
  rw [hL, List.append_nil]
  exact h

/-- No part holds more than `maxFingerprints`. -/
theorem Exact.bounded (h : Exact cfg base held C H s r p q) (hH : s.fingerprints.length = held + H.length)
    (h0 : s.fingerprints.length ≤ cfg.maxFingerprints) : r.fingerprints.length ≤ cfg.maxFingerprints := by
  obtain ⟨L, he, hsorted, hmem⟩ := h
  rw [he.fingerprints, List.length_append, List.length_map]
  cases L using List.reverseRecOn with
  | nil => exact h0
  | append_singleton L' c =>
    -- the last combination found room after all the others
    have hroom := ((hmem c).1 (by simp)).2.room
    have hlate : ∀ d ∈ L', Earlier d c := fun d hd => (List.pairwise_append.1 hsorted).2.2 d hd c (by simp)
    have hlast : before (L' ++ [c]) c = L' := by
      rw [before_append_high hlate (earlier_irrefl c)]
      simp [before, earlier_irrefl]
    rw [hlast, List.length_append] at hroom
    rw [List.length_append, List.length_singleton]
    omega

end Rules

/-! ## The loops -/

/-- How many event points make a fingerprint. -/
inductive Arity
  | two
  | three

/-- `olaf_fp_extractor_extract_two` or `olaf_fp_extractor_extract_three`. -/
def extractN (arity : Arity) (cfg : Config V) (eps : EventPoints V) (fps : List (Fingerprint V)) (audioBlockIndex : Int) :
    Pass V :=
  match arity with
  | .two => extractTwo cfg eps fps audioBlockIndex
  | .three => extractThree cfg eps fps audioBlockIndex

/-- The third slot of a combination with second slot `j`. -/
def Third (cfg : Config V) (base : List (EventPoint V)) : Arity → (j k : Nat) → Prop
  | .two, j, k => k = j
  | .three, j, k => j < k ∧ Near cfg (point base j) (point base k)

instance (cfg : Config V) (base : List (EventPoint V)) : (arity : Arity) → (j k : Nat) → Decidable (Third cfg base arity j k)
  | .two, j, k => inferInstanceAs (Decidable (k = j))
  | .three, j, k => inferInstanceAs (Decidable (j < k ∧ Near cfg (point base j) (point base k)))

theorem Third.le {cfg : Config V} {base : List (EventPoint V)} {arity : Arity} {j k : Nat} (h : Third cfg base arity j k) :
    j ≤ k := by
  cases arity
  · exact Nat.le_of_eq (Eq.symm h)
  · exact Nat.le_of_lt h.1

/-- The outer loop gets to slot `i` and takes it for an anchor, its usages aside. -/
structure Anchors (cfg : Config V) (base : List (EventPoint V)) (audioBlockIndex : Int) (i : Nat) : Prop where
  old : (point base i).timeIndex ≤ audioBlockIndex - cfg.maxTimeDistance
  nonempty : ∀ m, m ≤ i → ¬ EmptyPoint (point base m)

/-- What the distance tests admit, among `n` slots. -/
structure Candidate (cfg : Config V) (arity : Arity) (base : List (EventPoint V)) (n : Nat) (audioBlockIndex : Int)
    (c : Combo) : Prop where
  anchor : Anchors cfg base audioBlockIndex c.1
  lt : c.1 < c.2.1
  near : Near cfg (point base c.1) (point base c.2.1)
  third : Third cfg base arity c.2.1 c.2.2
  bound : c.2.2 < n

section Loops
variable {cfg : Config V} {base : List (EventPoint V)} {fps : List (Fingerprint V)} {n : Nat} {audioBlockIndex : Int}
  {H : List Combo} {s : Pass V}

/-- A slot has the usages it began with and one for each combination with it since then. -/
theorem Emits.usages (he : Emits ⟨base, fps⟩ s H) {m : Nat} (hm : m < base.length) :
    (point s.eventPoints m).usages = (point base m).usages + hits m H := by
  rw [he.points m hm]
  rfl

theorem Emits.held (he : Emits ⟨base, fps⟩ s H) : s.fingerprints.length = fps.length + H.length := by
  rw [he.fingerprints, List.length_append, List.length_map]

theorem Emits.passes_iff (he : Emits ⟨base, fps⟩ s H) {m : Nat} (hm : m < base.length) :
    (point s.eventPoints m).usages ≤ cfg.maxEventPointUsages ↔ Passes cfg base H m := by rw [he.usages hm, Passes]

/-- The test of slot `m` is the one of `Passes`. -/
theorem Emits.passes (he : Emits ⟨base, fps⟩ s H) {m : Nat} (hm : m < base.length) :
    ¬ (point s.eventPoints m).usages > cfg.maxEventPointUsages ↔ Passes cfg base H m := by
  rw [gt_iff_lt, Int.not_lt, he.passes_iff hm]

/-! Where the loops are, by the order. -/

/-- What the `k` loop comes to from `(i, j, k)` on. -/
theorem within_k {c : Combo} {i j k : Nat} (hp : ¬ Earlier c (i, j, k)) (hq : Earlier c (i, j + 1, 0)) :
    c.1 = i ∧ c.2.1 = j ∧ k ≤ c.2.2 := by
  simp only [Earlier] at hp hq
  omega

/-- What the `j` loop comes to from `(i, j, x)` on. -/
theorem within_j {c : Combo} {i j x : Nat} (hp : ¬ Earlier c (i, j, x)) (hq : Earlier c (i + 1, 0, 0)) :
    c.1 = i ∧ j ≤ c.2.1 := by
  simp only [Earlier] at hp hq
  omega

theorem eq_of_within {c : Combo} {i j k : Nat} (hp : ¬ Earlier c (i, j, k)) (hq : Earlier c (i, j, k + 1)) :
    c = (i, j, k) := by
  simp only [Earlier] at hp hq
  simp only [Prod.ext_iff]
  omega

/-- The `k` loop tests its own slot and no other. -/
theorem testAt_k {c : Combo} {i j k m : Nat} (hi : c.1 = i) (hj : c.2.1 = j) (hij : i < j) (hjk : j < k)
    (hlate : ¬ Earlier (testAt c m) (i, j, k)) (hsoon : Earlier (testAt c m) (i, j, k + 1)) :
    m = k ∧ testAt c m = (i, j, k) := by
  refine ⟨?_, eq_of_within hlate hsoon⟩
  rcases testAt_cases c m with ⟨_, he⟩ | ⟨_, _, he⟩ | ⟨_, _, he⟩ <;> simp only [he, Earlier] at hlate hsoon <;> omega

/-- The `j` loop tests its own slot before the `k` loop begins. -/
theorem testAt_j {c : Combo} {i j x m : Nat} (hi : c.1 = i) (hij : i < j) (hx : x ≤ j + 1)
    (hlate : ¬ Earlier (testAt c m) (i, j, 0)) (hsoon : Earlier (testAt c m) (i, j, x)) :
    m = j ∧ testAt c m = (i, j, 0) := by
  rcases testAt_cases c m with ⟨_, he⟩ | ⟨_, _, he⟩ | ⟨_, _, he⟩ <;>
    simp only [he, Earlier, Prod.mk.injEq, and_true] at hlate hsoon ⊢ <;> omega

/-- The outer loop tests its own slot before the `j` loop begins. -/
theorem testAt_i {c : Combo} {i m : Nat} (hc : c.1 < c.2.1) (hlate : ¬ Earlier (testAt c m) (i, 0, 0))
    (hsoon : Earlier (testAt c m) (i, i + 1, 0)) : m = i ∧ testAt c m = (i, 0, 0) := by
  rcases testAt_cases c m with ⟨_, he⟩ | ⟨_, _, he⟩ | ⟨_, _, he⟩ <;>
    simp only [he, Earlier, Prod.mk.injEq, and_true] at hlate hsoon ⊢ <;> omega

/-- After the `k` loop of slot `j` no test is left of that slot. -/
theorem no_testAt_j {c : Combo} {i j x m : Nat} (hp : ¬ Earlier c (i, j + 1, 0)) (hx : 0 < x)
    (hlate : ¬ Earlier (testAt c m) (i, j, x)) : ¬ Earlier (testAt c m) (i, j + 1, 0) := by
  rcases testAt_cases c m with ⟨_, he⟩ | ⟨_, _, he⟩ | ⟨_, _, he⟩ <;> simp only [he, Earlier] at hp hlate ⊢ <;> omega

/-- After the `j` loop of slot `i` no test is left of that slot. -/
theorem no_testAt_i {c : Combo} {i m : Nat} (hp : ¬ Earlier c (i + 1, 0, 0))
    (hlate : ¬ Earlier (testAt c m) (i, i + 1, 0)) : ¬ Earlier (testAt c m) (i + 1, 0, 0) := by
  rcases testAt_cases c m with ⟨_, he⟩ | ⟨_, _, he⟩ | ⟨_, _, he⟩ <;> simp only [he, Earlier] at hp hlate ⊢ <;> omega

/-- **The `k` loop.** -/
theorem kLoop_exact {i j : Nat} {p1 p2 : EventPoint V} (hij : i < j) (hn : n ≤ base.length) (ha : Ascending base n)
    (h1 : Agree p1 (point base i)) (h2 : Agree p2 (point base j))
    (hC : ∀ k, Candidate cfg .three base n audioBlockIndex (i, j, k) ↔
      (j < k ∧ Near cfg (point base j) (point base k)) ∧ k < n) :
    ∀ (rem k : Nat) (tDiff : Int) (s : Pass V) (H : List Combo), k + rem = n → j < k → Emits ⟨base, fps⟩ s H →
      (tDiff ≤ cfg.maxTimeDistance ∨ ∀ k', k ≤ k' → k' < n → tDiff ≤ (point base k').timeIndex - (point base j).timeIndex) →
      Exact cfg base fps.length (Candidate cfg .three base n audioBlockIndex) H s (kLoop cfg i j p1 p2 rem k tDiff s)
        (i, j, k) (i, j + 1, 0)
  | 0, k, tDiff, s, H, hk, hjk, he, htd => by
    apply Exact.stop
    intro c hp hq hc
    have := within_k hp hq
    have := hc.bound
    omega
  | rem + 1, k, tDiff, s, H, hk, hjk, he, htd => by
    have hkn : k < n := by omega
    have hag : Agree (point s.eventPoints k) (point base k) := he.same.agree k
    simp only [kLoop]
    split
    · -- the point was used too often
      rename_i husage
      refine .stop fun c hp hq _ => ⟨k, (within_k hp hq).2.2, ?_, fun h => (he.passes (by omega)).2 h husage⟩
      obtain ⟨hi, hj, _⟩ := within_k hp hq
      rw [testAt_third (by omega) (by omega), hi, hj]
      exact earlier_irrefl _
    rename_i husage
    have hpass : Passes cfg base H k := (he.passes (by omega)).1 husage
    split
    · -- the previous point was out of reach, so are this and the later ones
      apply Exact.stop
      intro c hp hq hc
      obtain ⟨hi, hj, hk⟩ := within_k hp hq
      obtain ⟨⟨_, hnear⟩, hb⟩ := (hC c.2.2).1 (by rw [← hi, ← hj]; exact hc)
      have := hnear.2.1
      rcases htd with h | h
      · omega
      · have := h c.2.2 hk hb
        omega
    have hiff : Near cfg p2 (point s.eventPoints k) ↔ Near cfg (point base j) (point base k) := h2.near hag
    have hbody : Exact cfg base fps.length (Candidate cfg .three base n audioBlockIndex) H s
        (if Near cfg p2 (point s.eventPoints k) then emitThree cfg i j k p1 p2 (point s.eventPoints k) s else s)
        (i, j, k) (i, j, k + 1) := by
      split
      · rename_i hN
        have hemit := emitThree_emits cfg hij hjk he.same h1 h2 hag
        refine .one (d := (i, j, k)) ?_ (earlier_irrefl _) (by simp [Earlier]) ((hC k).2 ⟨⟨hjk, hiff.1 hN⟩, hkn⟩)
          (fun c hp hq _ => eq_of_within hp hq) (fun m hm hlate => ?_)
        · rw [he.held] at hemit
          simpa only [← Nat.not_le, ite_not] using hemit
        · have hsoon : Earlier (testAt (i, j, k) m) (i, j, k + 1) := Earlier.le_trans (testAt_le hm) (by simp [Earlier])
          rw [(testAt_k rfl rfl hij hjk hlate hsoon).1]
          exact hpass
      · rename_i hN
        apply Exact.stop
        intro c hp hq hc
        rw [eq_of_within hp hq, hC k] at hc
        exact absurd (hiff.2 hc.1.2) hN
    refine hbody.seq (by simp [Earlier]) (fun L hL => ?_) (by simp [Earlier]) ?_
    · refine kLoop_exact hij hn ha h1 h2 hC rem (k + 1) _ _ (H ++ L) (by omega) (by omega) (he.trans hL) (Or.inr ?_)
      intro k' hk' hk'n
      have := ha k k' (by omega) hk'n
      rw [hag.time, h2.time]
      omega
    · intro c hc hp hq m hm hlate hsoon
      obtain ⟨hi, hj, _⟩ := within_k hp hq
      obtain ⟨rfl, hat⟩ := testAt_k hi hj hij hjk hlate hsoon
      exact ⟨hat, hpass⟩

/-- The `j` loop stops at a point that was used too often. -/
theorem Exact.used_j {arity : Arity} {held i j : Nat} (hij : i < j) (hfail : ¬ Passes cfg base H j) :
    Exact cfg base held (Candidate cfg arity base n audioBlockIndex) H s s (i, j, 0) (i + 1, 0, 0) := by
  refine .stop fun c hp hq hc => ⟨j, ?_, ?_, hfail⟩ <;> obtain ⟨hi, hj⟩ := within_j hp hq
  · exact Nat.le_trans hj hc.third.le
  · rw [testAt_second (by omega) hj, hi]
    exact earlier_irrefl _

/-- The `j` loop stops where everything from there on is too far in the future. -/
theorem Exact.far_j {arity : Arity} {held i j : Nat} (ha : Ascending base n)
    (hfar : (point base j).timeIndex - (point base i).timeIndex > cfg.maxTimeDistance) :
    Exact cfg base held (Candidate cfg arity base n audioBlockIndex) H s s (i, j, 0) (i + 1, 0, 0) := by
  apply Exact.stop
  intro c hp hq hc
  obtain ⟨hi, hj⟩ := within_j hp hq
  have := ha.le hj (Nat.lt_of_le_of_lt hc.third.le hc.bound)
  have hnear := hc.near.2.1
  rw [hi] at hnear
  omega

/-- The `j` loop is over. -/
theorem Exact.end_j {arity : Arity} {held i j : Nat} (hj : n ≤ j) :
    Exact cfg base held (Candidate cfg arity base n audioBlockIndex) H s s (i, j, 0) (i + 1, 0, 0) := by
  apply Exact.stop
  intro c hp hq hc
  have hstart := (within_j hp hq).2
  have hle := hc.third.le
  have hb := hc.bound
  omega

/-- Slot `j` does not go with slot `i`. -/
theorem Exact.apart_j {arity : Arity} {held i j x : Nat} (hN : ¬ Near cfg (point base i) (point base j)) :
    Exact cfg base held (Candidate cfg arity base n audioBlockIndex) H s s (i, j, x) (i, j + 1, 0) := by
  apply Exact.stop
  intro c hp hq hc
  obtain ⟨hi, hj, _⟩ := within_k hp hq
  exact absurd (hi ▸ hj ▸ hc.near) hN

/-- Slot `j`, and then the rest of the `j` loop. -/
theorem Exact.next_j {C : Combo → Prop} {held : Nat} {r s1 : Pass V} {i j x : Nat} (hx : 0 < x)
    (h : Exact cfg base held C H s s1 (i, j, x) (i, j + 1, 0))
    (h' : ∀ L, Emits s s1 L → Exact cfg base held C (H ++ L) s1 r (i, j + 1, 0) (i + 1, 0, 0)) :
    Exact cfg base held C H s r (i, j, x) (i + 1, 0, 0) := by
  apply Exact.seq _ h h'
  · simp [Earlier]
  · intro c _ hp _ m _ hlate hsoon
    exact absurd hsoon (no_testAt_j hp hx hlate)
  · simp [Earlier]

/-- The test of slot `j`, before a part that begins at `(i, j, x)`. -/
theorem Exact.skip_j {C : Combo → Prop} {held : Nat} {r : Pass V} {i j x : Nat} (hij : i < j) (hx : x ≤ j + 1)
    (hno : ∀ c, C c → c.1 = i → c.2.1 = j → x ≤ c.2.2) (hpass : Passes cfg base H j)
    (h : Exact cfg base held C H s r (i, j, x) (i + 1, 0, 0)) : Exact cfg base held C H s r (i, j, 0) (i + 1, 0, 0) := by
  refine Exact.skip (t := (i, j, x)) (by simp [Earlier]) (by simp [Earlier]) (fun c hc hp hq => ?_) h
    (fun c _ hp hq m _ hlate hsoon => ?_)
  · have hq' : Earlier c (i, j + 1, 0) := Earlier.trans hq (by simp [Earlier])
    obtain ⟨hi, hj, _⟩ := within_k hp hq'
    have := hno c hc hi hj
    simp only [Earlier] at hq
    omega
  · obtain ⟨hi, _⟩ := within_j hp hq
    obtain ⟨rfl, hat⟩ := testAt_j hi hij hx hlate hsoon
    exact ⟨hat, hpass⟩

/-- **The `j` loop of `extract_three`.** -/
theorem jLoop_exact {i : Nat} {p1 : EventPoint V} (hn : n ≤ base.length) (ha : Ascending base n)
    (h1 : Agree p1 (point base i)) (hi : Anchors cfg base audioBlockIndex i) :
    ∀ (rem j : Nat) (s : Pass V) (H : List Combo), j + rem = n → i < j → Emits ⟨base, fps⟩ s H →
      Exact cfg base fps.length (Candidate cfg .three base n audioBlockIndex) H s (jLoop cfg i p1 rem j s)
        (i, j, 0) (i + 1, 0, 0)
  | 0, j, s, H, hj, hij, he => .end_j (by omega)
  | rem + 1, j, s, H, hj, hij, he => by
    have hjn : j < n := by omega
    have hag : Agree (point s.eventPoints j) (point base j) := he.same.agree j
    simp only [jLoop]
    split
    · rename_i husage
      exact .used_j hij fun h => (he.passes (by omega)).2 h husage
    rename_i husage
    have hpass : Passes cfg base H j := (he.passes (by omega)).1 husage
    split
    · rename_i hfar
      rw [hag.time, h1.time] at hfar
      exact .far_j ha hfar
    rename_i hreach
    have hiff : Near cfg p1 (point s.eventPoints j) ↔ Near cfg (point base i) (point base j) := h1.near hag
    refine Exact.skip_j (x := j + 1) hij (Nat.le_refl _) (fun c hc _ hj => ?_) hpass ?_
    · have := hc.third.1
      omega
    have hbody : Exact cfg base fps.length (Candidate cfg .three base n audioBlockIndex) H s
        (if Near cfg p1 (point s.eventPoints j) then
          kLoop cfg i j p1 (point s.eventPoints j) rem (j + 1) ((point s.eventPoints j).timeIndex - p1.timeIndex) s
         else s) (i, j, j + 1) (i, j + 1, 0) := by
      split
      · rename_i hN
        refine kLoop_exact hij hn ha h1 hag (fun k => ?_) rem (j + 1) _ s H (by omega) (Nat.lt_succ_self j) he
          (Or.inl (Int.not_lt.1 hreach))
        exact ⟨fun h => ⟨h.third, h.bound⟩, fun h => ⟨hi, hij, hiff.1 hN, h.1, h.2⟩⟩
      · rename_i hN
        exact .apart_j fun h => hN (hiff.2 h)
    apply hbody.next_j (Nat.succ_pos j)
    intro L hL
    exact jLoop_exact hn ha h1 hi rem (j + 1) _ (H ++ L) (by omega) (by omega) (he.trans hL)

/-- **The `j` loop of `extract_two`.** -/
theorem jLoop2_exact {i : Nat} {p1 : EventPoint V} (hn : n ≤ base.length) (ha : Ascending base n)
    (h1 : Agree p1 (point base i)) (hi : Anchors cfg base audioBlockIndex i) :
    ∀ (rem j : Nat) (s : Pass V) (H : List Combo), j + rem = n → i < j → Emits ⟨base, fps⟩ s H →
      s.fingerprints.length ≤ cfg.maxFingerprints →
      Exact cfg base fps.length (Candidate cfg .two base n audioBlockIndex) H s (jLoop2 cfg i p1 rem j s)
        (i, j, 0) (i + 1, 0, 0)
  | 0, j, s, H, hj, hij, he, hroom => .end_j (by omega)
  | rem + 1, j, s, H, hj, hij, he, hroom => by
    have hjn : j < n := by omega
    have hag : Agree (point s.eventPoints j) (point base j) := he.same.agree j
    simp only [jLoop2]
    split
    · rename_i husage
      exact .used_j hij fun h => (he.passes (by omega)).2 h husage
    rename_i husage
    have hpass : Passes cfg base H j := (he.passes (by omega)).1 husage
    split
    · rename_i hfar
      rw [hag.time, h1.time] at hfar
      exact .far_j ha hfar
    have hiff : Near cfg p1 (point s.eventPoints j) ↔ Near cfg (point base i) (point base j) := h1.near hag
    refine Exact.skip_j (x := 1) hij (by omega) (fun c hc _ hj => ?_) hpass ?_
    · have := hc.third.le
      omega
    have hbody : Exact cfg base fps.length (Candidate cfg .two base n audioBlockIndex) H s
        (if Near cfg p1 (point s.eventPoints j) then emitTwo cfg i j p1 (point s.eventPoints j) s else s)
        (i, j, 1) (i, j + 1, 0) := by
      split
      · rename_i hN
        have hemit := emitTwo_emits cfg hij he.same h1 hag
        refine .one (d := (i, j, j)) ?_ ?_ (by simp [Earlier]) ⟨hi, hij, hiff.1 hN, rfl, hjn⟩ (fun c hp hq hc => ?_)
          (fun m hm hlate => ?_)
        · rw [he.held] at hemit hroom
          by_cases hlt : fps.length + H.length < cfg.maxFingerprints
          · rw [if_neg (by omega)] at hemit
            rwa [if_pos hlt]
          · rw [if_pos (by omega)] at hemit
            rwa [if_neg hlt]
        · simp only [Earlier]
          omega
        · obtain ⟨hi, hj, _⟩ := within_k hp hq
          have hk : c.2.2 = c.2.1 := hc.third
          exact Prod.ext hi (Prod.ext hj (hk.trans hj))
        · -- the test of slot `j` came before this part
          have hsoon : Earlier (testAt (i, j, j) m) (i, j, j + 1) := Earlier.le_trans (testAt_le hm) (by simp [Earlier])
          have hlate' : ¬ Earlier (testAt (i, j, j) m) (i, j, 0) := not_earlier_trans (by simp [Earlier]) hlate
          rw [(testAt_j rfl hij (Nat.le_refl _) hlate' hsoon).2] at hlate
          exact absurd hlate (by simp [Earlier])
      · rename_i hN
        exact .apart_j fun h => hN (hiff.2 h)
    apply hbody.next_j Nat.one_pos
    intro L hL
    exact jLoop2_exact hn ha h1 hi rem (j + 1) _ (H ++ L) (by omega) (by omega) (he.trans hL) (hbody.bounded he.held hroom)

/-- **The outer loop**, for an inner loop that does what it should for every anchor. -/
theorem iLoop_exact {arity : Arity} {inner : (i : Nat) → (p1 : EventPoint V) → (rem j : Nat) → Pass V → Pass V}
    (hn : n ≤ base.length) (ha : Ascending base n)
    (hinner : ∀ i p1 rem s H, Agree p1 (point base i) → Anchors cfg base audioBlockIndex i → i + 1 + rem = n →
      Emits ⟨base, fps⟩ s H → s.fingerprints.length ≤ cfg.maxFingerprints →
      Exact cfg base fps.length (Candidate cfg arity base n audioBlockIndex) H s (inner i p1 rem (i + 1) s)
        (i, i + 1, 0) (i + 1, 0, 0)) :
    ∀ (rem i : Nat) (s : Pass V) (H : List Combo), i + rem = n → (∀ m, m < i → ¬ EmptyPoint (point base m)) →
      Emits ⟨base, fps⟩ s H → s.fingerprints.length ≤ cfg.maxFingerprints →
      Exact cfg base fps.length (Candidate cfg arity base n audioBlockIndex) H s (iLoop cfg audioBlockIndex inner rem i s)
        (i, 0, 0) (n, 0, 0)
  | 0, i, s, H, hi, hne, he, hroom => by
    apply Exact.stop
    intro c hp hq hc
    simp only [Earlier] at hp hq
    omega
  | rem + 1, i, s, H, hi, hne, he, hroom => by
    have hag : Agree (point s.eventPoints i) (point base i) := he.same.agree i
    have hstart : ∀ c : Combo, ¬ Earlier c (i, 0, 0) → i ≤ c.1 := by
      intro c hp
      simp only [Earlier] at hp
      omega
    simp only [iLoop]
    split
    · rename_i hempty
      rw [hag.bin, hag.time] at hempty
      exact .stop fun c hp hq hc => absurd hempty (hc.anchor.nonempty i (hstart c hp))
    rename_i hnonempty
    rw [hag.bin, hag.time] at hnonempty
    split
    · -- the anchor was used too often
      rename_i husage
      refine .stop fun c hp hq hc => ⟨i, ?_, ?_, fun h => (he.passes (by omega)).2 h husage⟩
      · have := hstart c hp
        have := hc.lt
        have := hc.third.le
        omega
      · rw [testAt_first (hstart c hp)]
        exact earlier_irrefl _
    rename_i husage
    have hpass : Passes cfg base H i := (he.passes (by omega)).1 husage
    split
    · -- this anchor is too recent, so are the later ones
      rename_i hrecent
      apply Exact.stop
      intro c hp hq hc
      have hb := hc.bound
      have := hc.lt
      have := hc.third.le
      have := ha.le (hstart c hp) (by omega)
      have := hc.anchor.old
      rw [hag.time] at hrecent
      omega
    rename_i hold
    rw [hag.time] at hold
    have hnonempty' : ∀ m, m < i + 1 → ¬ EmptyPoint (point base m) := by
      intro m hm
      rcases Nat.lt_succ_iff_lt_or_eq.1 hm with h | rfl
      · exact hne m h
      · exact hnonempty
    have hanchor : Anchors cfg base audioBlockIndex i :=
      ⟨Int.not_lt.1 hold, fun m hm => hnonempty' m (Nat.lt_succ_of_le hm)⟩
    refine Exact.skip (t := (i, i + 1, 0)) (by simp [Earlier]) ?_ (fun c hc hp hq => ?_) ?_
      (fun c hc hp hq m _ hlate hsoon => ?_)
    · simp only [Earlier]
      omega
    · have := hc.lt
      simp only [Earlier] at hp hq
      omega
    · have hbody := hinner i _ rem s H hag hanchor (by omega) he hroom
      refine hbody.seq (by simp [Earlier]) (fun L hL => ?_) ?_ ?_
      · exact iLoop_exact hn ha hinner rem (i + 1) _ (H ++ L) (by omega) hnonempty' (he.trans hL) (hbody.bounded he.held hroom)
      · simp only [Earlier]
        omega
      · intro c _ hp _ m _ hlate hsoon
        exact absurd hsoon (no_testAt_i hp hlate)
    · obtain ⟨rfl, hat⟩ := testAt_i hc.lt hlate hsoon
      exact ⟨hat, hpass⟩

end Loops

/-! ## The two functions -/

/-- What decides on `c` in a call that emits `L`: the distance tests, the usages of every slot that it tests on the way, and
room. -/
def Admits (cfg : Config V) (base : List (EventPoint V)) (held : Nat) (C : Combo → Prop) (L : List Combo) (c : Combo) : Prop :=
  C c ∧ (∀ m, m ≤ c.2.2 → Passes cfg base (before L (testAt c m)) m) ∧ held + (before L c).length < cfg.maxFingerprints

/-- **What a call emits**: the combinations that the distance tests admit, that no test on the way stops and that find room. -/
theorem extract_exact (arity : Arity) (cfg : Config V) (eps : EventPoints V) (fps : List (Fingerprint V))
    (audioBlockIndex : Int) (hn : eps.eventPointIndex ≤ eps.eventPoints.length)
    (ha : Ascending eps.eventPoints eps.eventPointIndex) (hroom : fps.length ≤ cfg.maxFingerprints) :
    ∃ L, Emits ⟨eps.eventPoints, fps⟩ (extractN arity cfg eps fps audioBlockIndex) L ∧ L.Pairwise Earlier ∧
      ∀ c, c ∈ L ↔ Admits cfg eps.eventPoints fps.length
        (Candidate cfg arity eps.eventPoints eps.eventPointIndex audioBlockIndex) L c := by
  have hloops : Exact cfg eps.eventPoints fps.length
      (Candidate cfg arity eps.eventPoints eps.eventPointIndex audioBlockIndex) [] ⟨eps.eventPoints, fps⟩
      (extractN arity cfg eps fps audioBlockIndex) (0, 0, 0) (eps.eventPointIndex, 0, 0) := by
    cases arity with
    | two =>
      exact iLoop_exact hn ha (fun i p1 rem s H h1 hi hr he hs => jLoop2_exact hn ha h1 hi rem (i + 1) s H hr (by omega) he hs)
        _ 0 _ [] (by omega) (by simp) (.refl _) hroom
    | three =>
      exact iLoop_exact hn ha (fun i p1 rem s H h1 hi hr he _ => jLoop_exact hn ha h1 hi rem (i + 1) s H hr (by omega) he)
        _ 0 _ [] (by omega) (by simp) (.refl _) hroom
  obtain ⟨L, he, hsorted, hmem⟩ := hloops
  refine ⟨L, he, hsorted, fun c => (hmem c).trans ?_⟩
  constructor
  · rintro ⟨_, hadm⟩
    exact ⟨hadm.candidate, fun m hm => hadm.tests m hm (by simp [Earlier]), hadm.room⟩
  · rintro ⟨hc, htests, hlen⟩
    refine ⟨⟨by simp [Earlier], ?_⟩, hc, fun m hm _ => htests m hm, hlen⟩
    have := hc.lt
    have := hc.third.le
    have := hc.bound
    exact Or.inl (by omega)

/-- A call emits candidates only, none twice, whatever the order of the buffer. -/
theorem extract_yields (arity : Arity) (cfg : Config V) (eps : EventPoints V) (fps : List (Fingerprint V))
    (audioBlockIndex : Int) (hn : eps.eventPointIndex ≤ eps.eventPoints.length) :
    Yields cfg ⟨eps.eventPoints, fps⟩ (extractN arity cfg eps fps audioBlockIndex)
      (Candidate cfg arity eps.eventPoints eps.eventPointIndex audioBlockIndex) (fun _ => False) := by
  cases arity with
  | two =>
    refine (extractTwo_yields cfg eps fps audioBlockIndex hn).mono ?_ (fun _ h => h.elim)
    intro c h
    have h' := h.inner
    have hthird := h'.third
    have hbound := h'.bound
    exact ⟨⟨h.anchor, fun m hm => h.nonempty m (Nat.zero_le _) hm⟩, h'.start, h'.near, hthird, by omega⟩
  | three =>
    refine (extractThree_yields cfg eps fps audioBlockIndex hn).mono ?_ (fun _ h => h.elim)
    intro c h
    have h' := h.inner
    exact ⟨⟨h.anchor, fun m hm => h.nonempty m (Nat.zero_le _) hm⟩, h'.start, h'.near, ⟨h'.lt, h'.near'⟩, h'.bound⟩

/-- **A call is sound and accounts for usage.** What it appends are combinations of buffered points that pass the distance
tests, none twice and no more than there is room for; the usages of every point grow by the number of those it is part of. -/
theorem extract_sound (arity : Arity) (cfg : Config V) (eps : EventPoints V) (fps : List (Fingerprint V))
    (audioBlockIndex : Int) (hn : eps.eventPointIndex ≤ eps.eventPoints.length) :
    ∃ L : List Combo, L.Nodup ∧
      (∀ c ∈ L, Candidate cfg arity eps.eventPoints eps.eventPointIndex audioBlockIndex c) ∧
      (extractN arity cfg eps fps audioBlockIndex).fingerprints = fps ++ L.map (fingerprintOf eps.eventPoints) ∧
      (fps.length ≤ cfg.maxFingerprints →
        (extractN arity cfg eps fps audioBlockIndex).fingerprints.length ≤ cfg.maxFingerprints) ∧
      (extractN arity cfg eps fps audioBlockIndex).eventPoints.length = eps.eventPoints.length ∧
      ∀ m, m < eps.eventPoints.length → point (extractN arity cfg eps fps audioBlockIndex).eventPoints m =
        use (hits m L) (point eps.eventPoints m) := by
  obtain ⟨L, he, hnd, hmay, _, hl⟩ := extract_yields arity cfg eps fps audioBlockIndex hn
  exact ⟨L, hnd, hmay, he.fingerprints, hl, he.length, he.points⟩

/-- Three event points that combine under the default configuration. -/
def threeSlots : EventPoints ℚ := ⟨[⟨100, 10, 1, 0⟩, ⟨110, 13, 1, 0⟩, ⟨120, 16, 1, 0⟩], 3⟩

theorem extract_sound_threeSlots :
    ∃ L : List Combo, L.Nodup ∧
      (∀ c ∈ L, Candidate (.default ℚ) .three threeSlots.eventPoints threeSlots.eventPointIndex 100 c) ∧
      (extractN .three (.default ℚ) threeSlots [] 100).fingerprints = [] ++ L.map (fingerprintOf threeSlots.eventPoints) ∧
      (([] : List (Fingerprint ℚ)).length ≤ (Config.default ℚ).maxFingerprints →
        (extractN .three (.default ℚ) threeSlots [] 100).fingerprints.length ≤ (Config.default ℚ).maxFingerprints) ∧
      (extractN .three (.default ℚ) threeSlots [] 100).eventPoints.length = threeSlots.eventPoints.length ∧
      ∀ m, m < threeSlots.eventPoints.length → point (extractN .three (.default ℚ) threeSlots [] 100).eventPoints m =
        use (hits m L) (point threeSlots.eventPoints m) :=
  extract_sound .three (.default ℚ) threeSlots [] 100 (by decide)

end Olaf.FpExtractor
