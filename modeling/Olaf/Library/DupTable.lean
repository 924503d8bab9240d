import Mathlib.Order.MinMax
import Mathlib.Data.List.Perm.Subperm
/-!
# A table of sorted duplicates

A set of `(key, value)` pairs kept in the order of the key and then of the value, with the three moves of a
cursor over it. `ext`: a table is its set of pairs. `mem_put` and `mem_del` say what the operations do to it.
-/

/-- The order of the entries. -/
def DupTable.Before {K V : Type} [LinearOrder K] [LinearOrder V] (e e' : K × V) : Prop :=
  e.1 < e'.1 ∨ e.1 = e'.1 ∧ e.2 < e'.2

/-- A set of pairs, sorted. -/
structure DupTable (K V : Type) [LinearOrder K] [LinearOrder V] where
  entries : List (K × V)
  sorted : entries.Pairwise DupTable.Before

namespace DupTable

variable {K V : Type} [LinearOrder K] [LinearOrder V]

instance (e e' : K × V) : Decidable (Before e e') := inferInstanceAs (Decidable (_ ∨ _))

theorem Before.irrefl (e : K × V) : ¬ Before e e := by
  rintro (h | ⟨_, h⟩) <;> exact lt_irrefl _ h

theorem Before.trans {a b c : K × V} (h : Before a b) (h' : Before b c) : Before a c := by
  rcases h with h | ⟨h1, h2⟩ <;> rcases h' with h' | ⟨h1', h2'⟩
  · exact Or.inl (lt_trans h h')
  · exact Or.inl (h1' ▸ h)
  · exact Or.inl (h1 ▸ h')
  · exact Or.inr ⟨h1.trans h1', lt_trans h2 h2'⟩

theorem Before.key_le {a b : K × V} (h : Before a b) : a.1 ≤ b.1 := h.elim le_of_lt fun h => le_of_eq h.1

theorem Before.total {a b : K × V} (h : ¬ Before a b) (hne : a ≠ b) : Before b a := by
  rcases lt_trichotomy a.1 b.1 with h1 | h1 | h1
  · exact absurd (Or.inl h1) h
  · rcases lt_trichotomy a.2 b.2 with h2 | h2 | h2
    · exact absurd (Or.inr ⟨h1, h2⟩) h
    · exact absurd (Prod.ext h1 h2) hne
    · exact Or.inr ⟨h1.symm, h2⟩
  · exact Or.inl h1

instance : Membership (K × V) (DupTable K V) := ⟨fun t e => e ∈ t.entries⟩

instance (e : K × V) (t : DupTable K V) : Decidable (e ∈ t) := inferInstanceAs (Decidable (e ∈ t.entries))

/-- Two sorted lists with the same members are equal. -/
theorem sorted_ext : ∀ {l l' : List (K × V)}, l.Pairwise Before → l'.Pairwise Before → (∀ e, e ∈ l ↔ e ∈ l') → l = l'
  | [], [], _, _, _ => rfl
  | [], b :: _, _, _, h => by have := (h b).2 List.mem_cons_self; simp at this
  | a :: _, [], _, _, h => by have := (h a).1 List.mem_cons_self; simp at this
  | a :: l, b :: l', hs, hs', h => by
    rw [List.pairwise_cons] at hs hs'
    have hab : a = b := by
      by_contra hne
      have hb : b ∈ l := (List.mem_cons.1 ((h b).2 List.mem_cons_self)).resolve_left fun h => hne h.symm
      have ha : a ∈ l' := (List.mem_cons.1 ((h a).1 List.mem_cons_self)).resolve_left hne
      exact Before.irrefl a ((hs.1 b hb).trans (hs'.1 a ha))
    subst hab
    have htail : ∀ e, e ∈ l ↔ e ∈ l' := by
      intro e
      constructor <;> intro he
      · refine (List.mem_cons.1 ((h e).1 (List.mem_cons_of_mem _ he))).resolve_left fun hea => ?_
        exact Before.irrefl a (hea ▸ hs.1 e he)
      · refine (List.mem_cons.1 ((h e).2 (List.mem_cons_of_mem _ he))).resolve_left fun hea => ?_
        exact Before.irrefl a (hea ▸ hs'.1 e he)
    rw [sorted_ext hs.2 hs'.2 htail]

theorem ext {t t' : DupTable K V} (h : ∀ e, e ∈ t ↔ e ∈ t') : t = t' := by
  cases t with
  | mk l hl =>
    cases t' with
    | mk l' hl' =>
      obtain rfl : l = l' := sorted_ext hl hl' h
      rfl

/-- A table is no larger than a list of its pairs. -/
theorem length_le {t : DupTable K V} {l : List (K × V)} (h : ∀ e ∈ t, e ∈ l) : t.entries.length ≤ l.length := by
  have hnodup : t.entries.Nodup := by
    refine t.sorted.imp fun hab => ?_
    rintro rfl
    exact Before.irrefl _ hab
  exact (List.subperm_of_subset hnodup h).length_le

/-! ## The operations of a set -/

/-- The pair goes to its place; a pair that is there stays alone. -/
def insert (e : K × V) : List (K × V) → List (K × V)
  | [] => [e]
  | a :: l => if Before e a then e :: a :: l else if e = a then a :: l else a :: insert e l

theorem mem_insert {e e' : K × V} : ∀ {l : List (K × V)}, e' ∈ insert e l ↔ e' = e ∨ e' ∈ l
  | [] => by simp [insert]
  | a :: l => by
    rw [insert]
    split
    · simp
    · split
      · rename_i _ h
        simp [h]
      · simp only [List.mem_cons, mem_insert (l := l)]
        exact or_left_comm

theorem sorted_insert {e : K × V} : ∀ {l : List (K × V)}, l.Pairwise Before → (insert e l).Pairwise Before
  | [], _ => by simp [insert]
  | a :: l, h => by
    rw [List.pairwise_cons] at h
    rw [insert]
    split
    · rename_i hea
      refine List.pairwise_cons.2 ⟨fun b hb => ?_, List.pairwise_cons.2 h⟩
      rcases List.mem_cons.1 hb with rfl | hb
      · exact hea
      · exact hea.trans (h.1 b hb)
    · split
      · exact List.pairwise_cons.2 h
      · rename_i hea hne
        refine List.pairwise_cons.2 ⟨fun b hb => ?_, sorted_insert h.2⟩
        rcases mem_insert.1 hb with rfl | hb
        · exact Before.total hea hne
        · exact h.1 b hb

def put (t : DupTable K V) (e : K × V) : DupTable K V := ⟨insert e t.entries, sorted_insert t.sorted⟩

def del (t : DupTable K V) (e : K × V) : DupTable K V := ⟨t.entries.filter (· ≠ e), t.sorted.filter _⟩

@[simp] theorem mem_put {t : DupTable K V} {e e' : K × V} : e' ∈ t.put e ↔ e' = e ∨ e' ∈ t := mem_insert

@[simp] theorem mem_del {t : DupTable K V} {e e' : K × V} : e' ∈ t.del e ↔ e' ∈ t ∧ e' ≠ e := by
  show e' ∈ t.entries.filter _ ↔ _
  rw [List.mem_filter, decide_eq_true_iff]
  rfl

/-! ## The moves of a cursor -/

/-- The first entry whose key is not below `k`. -/
def setRange (t : DupTable K V) (k : K) : Option Nat := t.entries.findIdx? fun e => k ≤ e.1

/-- The next entry with the key of entry `i`. -/
def nextDup (t : DupTable K V) (i : Nat) : Option Nat :=
  if t.entries[i + 1]?.map Prod.fst = t.entries[i]?.map Prod.fst ∧ i + 1 < t.entries.length then some (i + 1) else none

/-- The entry after entry `i`. -/
def next (t : DupTable K V) (i : Nat) : Option Nat := if i + 1 < t.entries.length then some (i + 1) else none

/-- Everything before the entry that `setRange` finds is below the key, that entry is not. -/
theorem setRange_some {t : DupTable K V} {k : K} {i : Nat} (h : t.setRange k = some i) :
    ∃ a, t.entries[i]? = some a ∧ k ≤ a.1 ∧ ∀ e ∈ t.entries.take i, e.1 < k := by
  obtain ⟨hi, hk, hlt⟩ := List.findIdx?_eq_some_iff_getElem.1 h
  refine ⟨_, List.getElem?_eq_getElem hi, of_decide_eq_true hk, fun e he => ?_⟩
  obtain ⟨m, hm, rfl⟩ := List.mem_iff_getElem.1 he
  rw [List.length_take] at hm
  rw [List.getElem_take]
  exact lt_of_not_ge (by simpa using hlt m (by omega))

theorem setRange_none {t : DupTable K V} {k : K} (h : t.setRange k = none) : ∀ e ∈ t.entries, e.1 < k := by
  intro e he
  have := List.findIdx?_eq_none_iff.1 h e he
  exact lt_of_not_ge (by simpa using this)

/-- Behind entry `i` no key is below its key. -/
theorem key_le_of_mem_drop {t : DupTable K V} {i : Nat} {a e : K × V} (ha : t.entries[i]? = some a)
    (he : e ∈ t.entries.drop i) : a.1 ≤ e.1 := by
  obtain ⟨hi, rfl⟩ := List.getElem?_eq_some_iff.1 ha
  have hs := t.sorted.sublist (List.drop_sublist i t.entries)
  rw [List.drop_eq_getElem_cons hi] at hs he
  rcases List.mem_cons.1 he with rfl | he
  · exact le_refl _
  · exact ((List.pairwise_cons.1 hs).1 e he).key_le

/-- From the entry that `setRange` finds on, the keys are in range from below. -/
theorem setRange_filter {t : DupTable K V} {k : K} {i : Nat} (h : t.setRange k = some i) (p : K × V → Bool) :
    t.entries.filter (fun e => decide (k ≤ e.1) && p e) = (t.entries.drop i).filter p := by
  obtain ⟨a, ha, hk, hbefore⟩ := setRange_some h
  have hnone : (t.entries.take i).filter (fun e => decide (k ≤ e.1) && p e) = [] := by
    refine List.filter_eq_nil_iff.2 fun e he hpe => ?_
    rw [Bool.and_eq_true, decide_eq_true_iff] at hpe
    exact absurd hpe.1 (not_le_of_gt (hbefore e he))
  have hall : (t.entries.drop i).filter (fun e => decide (k ≤ e.1) && p e) = (t.entries.drop i).filter p :=
    List.filter_congr fun e he => by
      rw [decide_eq_true (le_trans hk (key_le_of_mem_drop ha he)), Bool.true_and]
  conv_lhs => rw [← List.take_append_drop i t.entries, List.filter_append, hnone, List.nil_append, hall]

end DupTable
