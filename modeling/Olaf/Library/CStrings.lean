import Olaf.Library.Checked
/-!
# Strings in arrays

| here | there |
| --- | --- |
| `CStr`   | what a `char *` stands for: bytes that are not zero |
| `Holds`  | an array has the bytes of a string and the zero behind them |
| `text`   | the bytes of an array up to the first zero, which is what `%s` prints |
| `strcpy` | `strcpy`: byte after byte, up to the first zero of the source and with it |
| `dupeZ`  | a copy in memory of its own, with a zero behind it (`strdup`, `Allocator.dupeZ`) |

`strcpy_returns` is for a target with room, and `strcpy_overflow` for one without: the copy stays inside its target exactly
when the string is shorter than that.
-/

structure CStr where
  bytes : List UInt8
  nonzero : ∀ c ∈ bytes, c ≠ 0

namespace CStr
open Checked

structure Holds (b : Buffer UInt8) (s : CStr) : Prop where
  fits : s.bytes.length < b.size
  byte : ∀ i c, s.bytes[i]? = some c → b.cell i = c
  terminator : b.cell s.bytes.length = 0

def text (b : Buffer UInt8) : List UInt8 := ((List.range b.size).map b.cell).takeWhile (· ≠ 0)

def dupeZ (bytes : List UInt8) : Buffer UInt8 := ⟨bytes.length + 1, fun i => bytes.getD i 0⟩

/-- The rest of a copy, from byte `i` on. -/
def strcpyFrom (src : Buffer UInt8) : (rem i : Nat) → Buffer UInt8 → Option (Buffer UInt8)
  | 0, _, _ => none
  | rem + 1, i, dst => do
    let c ← src.load i
    let dst ← dst.store i c
    if c = 0 then return dst else strcpyFrom src rem (i + 1) dst

def strcpy (dst src : Buffer UInt8) : Option (Buffer UInt8) := strcpyFrom src src.size 0 dst

variable {s : CStr} {src dst : Buffer UInt8}

theorem holds_dupeZ (s : CStr) : Holds (dupeZ s.bytes) s where
  fits := Nat.lt_succ_self _
  byte i c h := by simp [dupeZ, h]
  terminator := by simp [dupeZ]

/-- What a string is printed as. -/
theorem Holds.text (h : Holds src s) : text src = s.bytes := by
  have hbytes : (List.range s.bytes.length).map src.cell = s.bytes := by
    refine List.ext_getElem (by simp) fun i h1 h2 => ?_
    rw [List.getElem_map, List.getElem_range]
    exact h.byte i _ (List.getElem?_eq_getElem h2)
  have hrange : List.range src.size = List.range s.bytes.length ++
      s.bytes.length :: List.range' (s.bytes.length + 1) (src.size - (s.bytes.length + 1)) := by
    have hfits := h.fits
    have happend := @List.range'_append_1 0 s.bytes.length (src.size - s.bytes.length)
    rw [Nat.zero_add, Nat.add_sub_cancel' (by omega)] at happend
    rw [List.range_eq_range', ← happend, List.range_eq_range',
      show src.size - s.bytes.length = src.size - (s.bytes.length + 1) + 1 by omega, List.range'_succ]
  rw [CStr.text, hrange, List.map_append, hbytes, List.map_cons, h.terminator,
    List.takeWhile_append_of_pos fun c hc => decide_eq_true (s.nonzero c hc), List.takeWhile_cons_of_neg (by decide),
    List.append_nil]

/-- The bytes before `i` are copied. -/
structure Copied (s : CStr) (dst : Buffer UInt8) (i : Nat) (dst' : Buffer UInt8) : Prop where
  size : dst'.size = dst.size
  byte : ∀ j c, j < i → s.bytes[j]? = some c → dst'.cell j = c
  rest : ∀ j, i ≤ j → dst'.cell j = dst.cell j

theorem Copied.store {i : Nat} {c : UInt8} {dst' : Buffer UInt8} (h : Copied s dst i dst') (hc : s.bytes[i]? = some c) :
    Copied s dst (i + 1) (dst'.set i c) where
  size := h.size
  byte j d hj hd := by
    by_cases heq : j = i
    · subst heq
      rw [hc] at hd
      rw [Buffer.set_cell_self]
      exact Option.some.inj hd
    · rw [Buffer.set_cell_ne heq]
      exact h.byte j d (by omega) hd
  rest j hj := by
    rw [Buffer.set_cell_ne (by omega)]
    exact h.rest j (by omega)

/-- The copy of a string ends with its zero. -/
theorem strcpyFrom_returns (hs : Holds src s) (hroom : s.bytes.length < dst.size) {rem i : Nat} {dst' : Buffer UInt8}
    (hrem : s.bytes.length < i + rem) (hi : i ≤ s.bytes.length) (h : Copied s dst i dst') :
    Returns (strcpyFrom src rem i dst') fun d => d.size = dst.size ∧ Holds d s ∧
      ∀ j, s.bytes.length < j → d.cell j = dst.cell j := by
  induction rem generalizing i dst' with
  | zero => omega
  | succ rem ih =>
    have hfits := hs.fits
    have hsize := h.size
    rw [strcpyFrom]
    apply Buffer.bind_load (by omega)
    apply Buffer.bind_store (by omega)
    rcases Nat.lt_or_eq_of_le hi with hlt | rfl
    · have hget := List.getElem?_eq_getElem hlt
      rw [hs.byte i _ hget, if_neg (s.nonzero _ (List.getElem_mem hlt))]
      exact ih (by omega) hlt (h.store hget)
    · rw [hs.terminator, if_pos rfl]
      refine Returns.pure ⟨h.size, ⟨?_, fun j c hc => ?_, Buffer.set_cell_self⟩, fun j hj => ?_⟩
      · rw [Buffer.set_size]
        omega
      · have hj := (List.getElem?_eq_some_iff.1 hc).1
        rw [Buffer.set_cell_ne (by omega)]
        exact h.byte j c hj hc
      · rw [Buffer.set_cell_ne (by omega)]
        exact h.rest j (by omega)

/-- **A copy with room for the string and its zero.** -/
theorem strcpy_returns (hs : Holds src s) (hroom : s.bytes.length < dst.size) :
    Returns (strcpy dst src) fun d => d.size = dst.size ∧ Holds d s ∧ ∀ j, s.bytes.length < j → d.cell j = dst.cell j :=
  strcpyFrom_returns hs hroom (by have := hs.fits; omega) (Nat.zero_le _) ⟨rfl, by intros; omega, fun _ _ => rfl⟩

/-- **Without room it goes outside its target.** -/
theorem strcpy_overflow (hs : Holds src s) (hfull : dst.size ≤ s.bytes.length) : strcpy dst src = none := by
  have hgo : ∀ (rem i : Nat) (d : Buffer UInt8), d.size = dst.size → i ≤ d.size → strcpyFrom src rem i d = none := by
    intro rem
    induction rem with
    | zero => intros; rfl
    | succ rem ih =>
      intro i d hd hi
      have hfits := hs.fits
      rw [strcpyFrom, Buffer.load, if_pos (by omega), Option.bind_eq_bind, Option.bind_some]
      rcases Nat.lt_or_eq_of_le hi with hlt | rfl
      · have hget := List.getElem?_eq_getElem (l := s.bytes) (i := i) (by omega)
        have hc := s.nonzero _ (List.getElem_mem (l := s.bytes) (n := i) (by omega))
        rw [Buffer.store, if_pos hlt, Option.bind_eq_bind, Option.bind_some, hs.byte i _ hget, if_neg hc]
        exact ih (i + 1) _ hd hlt
      · rw [Buffer.store, if_neg (by omega)]
        rfl
  exact hgo src.size 0 dst rfl (Nat.zero_le _)

end CStr
