import Olaf.Db
import Olaf.Library.CStrings
/-!
# Meta data in memory (`olaf_resource_meta_data.h`, `olaf_db.c`)

| here | there |
| --- | --- |
| `Record`     | `struct Olaf_Resource_Meta_data` (`:48`), its path as the 512 bytes that it is |
| `setPath`    | `strcpy` to the path of a record |
| `storeMetaData`, `deleteMetaData`, `findMetaData`, `hasMetaData` | the functions of these names (`olaf_db.c:178-235`, `:295`) |
| `Op`, `run`  | the calls that change the table, one after the other |

Here the table has the records as they are in memory. What a local variable holds before it is set is an argument (`r`), and
a copy that leaves its 512 bytes is a fault. `represents_store` and `represents_delete`: as long as no copy does, this is the
table of `Db`, which has the paths as texts.
-/

namespace Olaf.MetaData
open Checked CStr

variable {V : Type}

/-- The size of `path`. -/
def pathSize : Nat := 512

structure Record (V : Type) where
  duration : V
  fingerprints : Int
  path : Nat → UInt8

/-- The path of a record as an array. -/
def pathBuffer (path : Nat → UInt8) : Buffer UInt8 := ⟨pathSize, path⟩

namespace Record

def setPath (r : Record V) (src : Buffer UInt8) : Option (Record V) := do
  let path ← strcpy (pathBuffer r.path) src
  return { r with path := path.cell }

/-- What a record says, whatever is behind the zero of its path. -/
structure Says (r : Record V) (s : CStr) (duration : V) (fingerprints : Int) : Prop where
  path : Holds (pathBuffer r.path) s
  duration : r.duration = duration
  fingerprints : r.fingerprints = fingerprints

variable {r : Record V} {src : Buffer UInt8} {s : CStr}

theorem setPath_returns (hs : Holds src s) (hroom : s.bytes.length < pathSize) : Returns (r.setPath src) fun r' =>
    Holds (pathBuffer r'.path) s ∧ r'.duration = r.duration ∧ r'.fingerprints = r.fingerprints := by
  refine (strcpy_returns hs hroom).bind fun path hpath => ?_
  obtain ⟨hsize, hholds, _⟩ := hpath
  refine Returns.pure ⟨⟨hroom, hholds.byte, hholds.terminator⟩, rfl, rfl⟩

theorem setPath_overflow (hs : Holds src s) (hfull : pathSize ≤ s.bytes.length) : r.setPath src = none := by
  rw [setPath, strcpy_overflow hs hfull]
  rfl

end Record

abbrev Table (V : Type) := UInt32 → Option (Record V)

/-- `olaf_db_store_meta_data`: by way of a local record. -/
def storeMetaData (r : Record V) (t : Table V) (key : UInt32) (value : Record V) : Option (Table V) := do
  let r ← r.setPath (pathBuffer value.path)
  return Function.update t key (some { r with duration := value.duration, fingerprints := value.fingerprints })

/-- `olaf_db_delete_meta_data`: `none` when the program exits. -/
def deleteMetaData (t : Table V) (key : UInt32) : Option (Table V) :=
  if (t key).isNone then none else some (Function.update t key none)

/-- `olaf_db_find_meta_data`: what is not found leaves `value` as it is. -/
def findMetaData (t : Table V) (key : UInt32) (value : Record V) : Option (Record V) :=
  match t key with
  | none => some value
  | some r => do
    let value ← value.setPath (pathBuffer r.path)
    return { value with duration := r.duration, fingerprints := r.fingerprints }

def hasMetaData (t : Table V) (key : UInt32) : Bool := (t key).isSome

inductive Op (V : Type)
  | store (r : Record V) (key : UInt32) (value : Record V)
  | delete (key : UInt32)

def Op.key : Op V → UInt32
  | .store _ key _ => key
  | .delete key => key

def step (t : Table V) : Op V → Option (Table V)
  | .store r key value => storeMetaData r t key value
  | .delete key => deleteMetaData t key

def run (ops : List (Op V)) (t : Table V) : Option (Table V) := ops.foldlM step t

variable {t t' : Table V} {key : UInt32} {value : Record V} {s : CStr} {duration : V} {fingerprints : Int}

/-! ## What a record says is kept -/

theorem store_returns (r : Record V) (t : Table V) (key : UInt32) (h : value.Says s duration fingerprints) :
    Returns (storeMetaData r t key value) fun t' => ∃ r' : Record V,
      t' = Function.update t key (some r') ∧ r'.Says s duration fingerprints := by
  refine (Record.setPath_returns h.path h.path.fits).bind fun r' hr' => ?_
  exact Returns.pure ⟨_, rfl, hr'.1, h.duration, h.fingerprints⟩

theorem find_returns {r : Record V} (hget : t key = some r) (h : r.Says s duration fingerprints) (value : Record V) :
    Returns (findMetaData t key value) fun e => e.Says s duration fingerprints := by
  rw [findMetaData, hget]
  refine (Record.setPath_returns h.path h.path.fits).bind fun value hvalue => ?_
  exact Returns.pure ⟨hvalue.1, h.duration, h.fingerprints⟩

theorem step_other {op : Op V} (hkey : op.key ≠ key) (h : step t op = some t') : t' key = t key := by
  cases op with
  | store r k value =>
    obtain ⟨_, _, hput⟩ := Option.bind_eq_some_iff.1 h
    rw [← Option.some.inj hput]
    exact Function.update_of_ne (Ne.symm hkey) _ _
  | delete k =>
    rw [step, deleteMetaData] at h
    split at h
    · cases h
    · rw [← Option.some.inj h]
      exact Function.update_of_ne (Ne.symm hkey) _ _

/-- What no call names is left alone. -/
theorem run_other {ops : List (Op V)} (hkeys : ∀ op ∈ ops, op.key ≠ key) (h : run ops t = some t') : t' key = t key := by
  induction ops generalizing t with
  | nil => rw [Option.some.inj h]
  | cons op ops ih =>
    rw [run, List.foldlM_cons] at h
    obtain ⟨mid, hstep, hrest⟩ := Option.bind_eq_some_iff.1 h
    rw [ih (fun op' hop => hkeys op' (List.mem_cons_of_mem _ hop)) hrest, step_other (hkeys op List.mem_cons_self) hstep]

/-! ## The table of `Db` -/

/-- A record and the text of its path. -/
structure Record.Is (r : Record ℚ) (m : ResourceMetaData) : Prop where
  path : ∃ s : CStr, Holds (pathBuffer r.path) s ∧ s.bytes = m.path.toUTF8.data.toList
  duration : r.duration = m.duration
  fingerprints : r.fingerprints = m.fingerprints

def Represents (t : Table ℚ) (db : Db) : Prop := ∀ key, Option.Rel Record.Is (t key) (db.resourceMap key)

theorem represents_update {t : Table ℚ} {db : Db} (h : Represents t db) (key : UInt32) {r : Option (Record ℚ)}
    {m : Option ResourceMetaData} (hr : Option.Rel Record.Is r m) :
    Represents (Function.update t key r) { db with resourceMap := Function.update db.resourceMap key m } := by
  intro k
  dsimp only
  by_cases hk : k = key
  · subst hk
    rw [Function.update_self, Function.update_self]
    exact hr
  · rw [Function.update_of_ne hk, Function.update_of_ne hk]
    exact h k

theorem represents_store {t : Table ℚ} {db : Db} (h : Represents t db) (r : Record ℚ) (key : UInt32) {value : Record ℚ}
    {m : ResourceMetaData} (hvalue : value.Is m) :
    Returns (storeMetaData r t key value) fun t' => Represents t' (db.storeMetaData key m) := by
  obtain ⟨s, hholds, hs⟩ := hvalue.path
  refine (store_returns r t key ⟨hholds, hvalue.duration, hvalue.fingerprints⟩).mono ?_
  rintro _ ⟨r', rfl, hr'⟩
  exact represents_update h key (.some ⟨⟨s, hr'.path, hs⟩, hr'.duration, hr'.fingerprints⟩)

/-- Both end the program, or neither. -/
theorem represents_delete {t : Table ℚ} {db : Db} (h : Represents t db) (key : UInt32) :
    Option.Rel Represents (deleteMetaData t key) (db.deleteMetaData key) := by
  have hkey := h key
  rw [deleteMetaData, Db.deleteMetaData]
  generalize hr : t key = r at hkey
  generalize hm : db.resourceMap key = m at hkey
  cases hkey with
  | none => exact .none
  | some _ => exact .some (represents_update h key .none)

end Olaf.MetaData
