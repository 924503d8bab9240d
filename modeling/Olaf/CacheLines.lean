import Olaf.FpDbWriterCache
import Olaf.Library.Checked
import Olaf.Library.Rounds
/-!
# Which line a stored pair is from (`olaf_fp_db_writer_cache.c`, any text)

| here | there |
| --- | --- |
| `Source`       | for a slot of the two arrays: the lines that its hash and its value were read from, and the line that was being read when the index went past it |
| `Traced`       | the cache with the sources of its slots |
| `Traced.setColumn`, `Traced.parseColumns`, `Traced.parseCsvLine` | `olaf_fp_db_writer_cache_parse_csv_line` (`:59-89`), keeping the sources |
| `Traced.onPiece`, `Traced.readLines`, `readTraced` | `olaf_fp_db_writer_cache_read_csv_file` (`:91-114`), logging the calls of `olaf_db_store` |
| `untilZero`    | what `strtok` sees of a line with a zero in it |

Here a file is any text, with zeros and with lines of any length. A line with no zero goes through `strtok` whole, so on a
file without zeros the run is the one of `readCsvFile` (`readTraced_erased`).

A piece is what one `fgets` reads. Every piece moves the index on by one, whatever it has, so what is stored is one pair for
each, and a column that the piece lacks is the one that its slot still has from 10000 pieces before, or from before the first
(`newest`). `wellPaired_iff` says when no pair of the file is put together in that way.
-/

namespace Olaf.FpDbWriterCache
open CText

structure Source where
  hash : Option Nat
  value : Option Nat
  reading : Option Nat

/-- A slot of memory that is not initialised. -/
def Source.unset : Source := ⟨none, none, none⟩

structure Traced where
  cache : Cache
  sources : List Source

/-- The calls of `olaf_db_store`: pairs and where they are from. -/
abbrev Calls := List (List ((Nat × Nat) × Source))

namespace Traced

def new (id : UInt64) : Traced := ⟨FpDbWriterCache.new id, List.replicate fpArraySize Source.unset⟩

def setColumn (line : Nat) (t : Traced) (columnCounter : Nat) (token : List Char) : Traced where
  cache := FpDbWriterCache.setColumn t.cache columnCounter token
  sources := t.sources.modify t.cache.fpIndex fun s =>
    if columnCounter = 0 then { s with hash := some line } else { s with value := some line }

def parseColumns (line : Nat) : (rem columnCounter : Nat) → Option (List Char × List Char) → Traced → Traced × Nat
  | 0, columnCounter, _, t => (t, columnCounter)
  | _ + 1, columnCounter, none, t => (t, columnCounter)
  | rem + 1, columnCounter, some (token, rest), t =>
    parseColumns line rem (columnCounter + 1) (strtok ',' rest) (t.setColumn line columnCounter token)

def parseCsvLine (line : Nat) (t : Traced) (text : List Char) : Traced × Nat :=
  let (t, columnCounter) := parseColumns line 2 0 (strtok ',' text) t
  (⟨{ t.cache with fpIndex := t.cache.fpIndex + 1, fpCounter := t.cache.fpCounter + 1 },
    t.sources.modify t.cache.fpIndex fun s => { s with reading := some line }⟩, columnCounter)

/-- The pairs below the index. -/
def pending (t : Traced) : List ((Nat × Nat) × Source) :=
  ((t.cache.fpHashes.zip t.cache.fpValues).zip t.sources).take t.cache.fpIndex

/-- The body of the loop. -/
def onPiece (s : Calls × Traced) (piece : Nat × List Char) : Calls × Traced :=
  let t := (s.2.parseCsvLine piece.1 piece.2).1
  if t.cache.fpIndex = fpArraySize then (s.1 ++ [t.pending], { t with cache := { t.cache with fpIndex := 0 } }) else (s.1, t)

end Traced

def untilZero (text : List Char) : List Char := text.takeWhile (· ≠ '\x00')

/-- The line that comes after a piece: the next one when the piece has the end of its own. -/
def lineAfter (line : Nat) (text : List Char) : Nat := if '\n' ∈ text then line + 1 else line

def Traced.readLines : (fuel line : Nat) → (file : List Char) → Calls × Traced → Option (Calls × Traced)
  | 0, _, _, _ => none
  | fuel + 1, line, file, s =>
    match fgets maxLineLen file with
    | none => some s
    | some (text, file) => readLines fuel (lineAfter line text) file (onPiece s (line, untilZero text))

def readTraced (id : UInt64) (file : List Char) : Option Calls :=
  (Traced.readLines (file.length + 1) 0 file ([], Traced.new id)).map fun (cs, t) => cs ++ [t.pending]

/-! ## Lines, columns and pieces -/

/-- The lines of a text, with their ends. -/
def lines : List Char → List (List Char)
  | [] => []
  | c :: s => if c = '\n' then [c] :: lines s else (c :: (lines s).headD []) :: (lines s).tail

/-- A decimal number, maybe with a sign and with blanks around it. -/
def isNumeric (column : List Char) : Bool :=
  let digits := (sign (column.dropWhile isSpace)).2
  (digits.takeWhile Char.isDigit ≠ []) && (digits.dropWhile Char.isDigit).all isSpace

def numericColumns (line : List Char) : Nat := (line.splitOn ',').countP isNumeric

/-- The columns that are read of a piece. -/
def columnCount (text : List Char) : Nat :=
  match strtok ',' text with
  | none => 0
  | some (_, rest) => if (strtok ',' rest).isSome then 2 else 1

def piecesFrom : (fuel line : Nat) → (file : List Char) → List (Nat × List Char)
  | 0, _, _ => []
  | fuel + 1, line, file =>
    match fgets maxLineLen file with
    | none => []
    | some (text, file) => (line, untilZero text) :: piecesFrom fuel (lineAfter line text) file

/-- The pieces that `fgets` cuts a file into, each with the number of its line. -/
def pieces (file : List Char) : List (Nat × List Char) := piecesFrom file.length 0 file

/-- The line of the newest piece, from piece `p` back in steps of the array size, that has `k` columns. -/
def newest (ps : List (Nat × List Char)) (k p : Nat) : Option Nat :=
  match ps[p]? with
  | none => none
  | some (line, text) =>
    if k ≤ columnCount text then some line else if p < fpArraySize then none else newest ps k (p - fpArraySize)
termination_by p
decreasing_by
  have : 0 < fpArraySize := by decide
  omega

def Source.Has (q : Source) (line : Nat) : Prop := q.reading = some line ∨ q.hash = some line ∨ q.value = some line

/-- Every stored pair is from one line, and none has to do with a line of fewer than two numeric columns. -/
def WellPaired (id : UInt64) (file : List Char) : Prop :=
  Checked.Returns (readTraced id file) fun cs => ∀ q ∈ cs.flatten.map Prod.snd,
    (∃ line, q.hash = some line ∧ q.value = some line) ∧
      ∀ line text, (lines file)[line]? = some text → q.Has line → 2 ≤ numericColumns text

/-! ## One piece -/

/-- What a piece leaves of the sources of its slot. -/
def Source.write (piece : Nat × List Char) (s : Source) : Source where
  hash := if 1 ≤ columnCount piece.2 then some piece.1 else s.hash
  value := if 2 ≤ columnCount piece.2 then some piece.1 else s.value
  reading := some piece.1

theorem setColumn_shape (c : Cache) (columnCounter : Nat) (token : List Char) :
    (setColumn c columnCounter token).fpIndex = c.fpIndex ∧
      (setColumn c columnCounter token).fpHashes.length = c.fpHashes.length ∧
      (setColumn c columnCounter token).fpValues.length = c.fpValues.length := by
  unfold setColumn
  split
  · exact ⟨rfl, List.length_set, rfl⟩
  · exact ⟨rfl, rfl, List.length_set⟩

/-- The three things a text can be for the parser. -/
theorem strtok_cases (text : List Char) :
    (strtok ',' text = none ∧ columnCount text = 0) ∨
      (∃ token rest, strtok ',' text = some (token, rest) ∧ strtok ',' rest = none ∧ columnCount text = 1) ∨
      ∃ token rest token' rest', strtok ',' text = some (token, rest) ∧ strtok ',' rest = some (token', rest') ∧
        columnCount text = 2 := by
  unfold columnCount
  cases h : strtok ',' text with
  | none => exact Or.inl ⟨rfl, rfl⟩
  | some p =>
    obtain ⟨token, rest⟩ := p
    right
    cases h' : strtok ',' rest with
    | none => exact Or.inl ⟨token, rest, rfl, h', by simp [h']⟩
    | some p' => exact Or.inr ⟨token, rest, p'.1, p'.2, rfl, h', by simp [h']⟩

theorem parse_shape (c : Cache) (text : List Char) :
    (parseCsvLine c text).1.fpIndex = c.fpIndex + 1 ∧ (parseCsvLine c text).1.fpHashes.length = c.fpHashes.length ∧
      (parseCsvLine c text).1.fpValues.length = c.fpValues.length := by
  rcases strtok_cases text with ⟨h, _⟩ | ⟨token, rest, h, h', _⟩ | ⟨token, rest, token', rest', h, h', _⟩
  · simp only [parseCsvLine, h, parseColumns, and_self]
  · simp only [parseCsvLine, h, h', parseColumns, setColumn_shape, and_self]
  · simp only [parseCsvLine, h, h', parseColumns, setColumn_shape, and_self]

namespace Traced

theorem parse_cache (line : Nat) (t : Traced) (text : List Char) :
    (t.parseCsvLine line text).1.cache = (FpDbWriterCache.parseCsvLine t.cache text).1 := by
  have hcolumns : ∀ rem columnCounter next (t : Traced), (parseColumns line rem columnCounter next t).1.cache =
      (FpDbWriterCache.parseColumns rem columnCounter next t.cache).1 := by
    intro rem
    induction rem with
    | zero => exact fun _ _ _ => rfl
    | succ rem ih =>
      intro columnCounter next t
      cases next with
      | none => rfl
      | some p => exact ih _ _ _
  simp only [parseCsvLine, FpDbWriterCache.parseCsvLine, hcolumns]

theorem parse_sources (line : Nat) (t : Traced) (text : List Char) :
    (t.parseCsvLine line text).1.sources = t.sources.modify t.cache.fpIndex (Source.write (line, text)) := by
  rcases strtok_cases text with ⟨h, hk⟩ | ⟨token, rest, h, h', hk⟩ | ⟨token, rest, token', rest', h, h', hk⟩
  · simp only [parseCsvLine, h, parseColumns]
    refine congrArg _ (funext fun s => ?_)
    simp [Source.write, hk]
  · simp only [parseCsvLine, h, h', parseColumns, setColumn, setColumn_shape, List.modify_modify_eq]
    refine congrArg _ (funext fun s => ?_)
    simp [Source.write, hk]
  · simp only [parseCsvLine, h, h', parseColumns, setColumn, setColumn_shape, List.modify_modify_eq]
    refine congrArg _ (funext fun s => ?_)
    simp [Source.write, hk]

/-- The arrays have their size. -/
structure Sized (t : Traced) : Prop where
  hashes : t.cache.fpHashes.length = fpArraySize
  values : t.cache.fpValues.length = fpArraySize
  sources : t.sources.length = fpArraySize

theorem sized_new (id : UInt64) : Sized (new id) := ⟨List.length_replicate, List.length_replicate, List.length_replicate⟩

theorem Sized.parse {t : Traced} (h : Sized t) (line : Nat) (text : List Char) : Sized (t.parseCsvLine line text).1 where
  hashes := by rw [parse_cache, (parse_shape _ _).2.1, h.hashes]
  values := by rw [parse_cache, (parse_shape _ _).2.2, h.values]
  sources := by rw [parse_sources, List.length_modify, h.sources]

theorem Sized.pairs_length {t : Traced} (h : Sized t) : (t.cache.fpHashes.zip t.cache.fpValues).length = fpArraySize := by
  rw [List.length_zip, h.hashes, h.values, Nat.min_self]

theorem pending_pairs {t : Traced} (h : Sized t) : t.pending.map Prod.fst = t.cache.pending := by
  rw [pending, List.map_take, List.map_fst_zip (by rw [h.pairs_length, h.sources]), Cache.pending]

theorem pending_sources {t : Traced} (h : Sized t) : t.pending.map Prod.snd = t.sources.take t.cache.fpIndex := by
  rw [pending, List.map_take, List.map_snd_zip (by rw [h.pairs_length, h.sources])]

end Traced

/-! ## The pieces of a file -/

/-- A piece of a text that is not at its end, and what is left. -/
theorem fgets_cons (c : Char) (s : List Char) : ∃ text rest, fgets maxLineLen (c :: s) = some (text, rest) ∧
    splitLine (maxLineLen - 1) (c :: s) = (text, rest) ∧ text ≠ [] ∧ text ++ rest = c :: s ∧ rest.length ≤ s.length := by
  have hne : (splitLine (maxLineLen - 1) (c :: s)).1 ≠ [] := by
    rw [show maxLineLen - 1 = 2046 + 1 by decide, splitLine]
    split <;> exact List.cons_ne_nil _ _
  have happend := splitLine_append (maxLineLen - 1) (c :: s)
  have hlength := congrArg List.length happend
  have hpos := List.length_pos_iff.2 hne
  rw [List.length_append, List.length_cons] at hlength
  have hrest : (splitLine (maxLineLen - 1) (c :: s)).2.length ≤ s.length := by omega
  exact ⟨_, _, if_neg (List.cons_ne_nil c s), rfl, hne, happend, hrest⟩

theorem lines_ne_nil (c : Char) (s : List Char) : lines (c :: s) ≠ [] := by
  rw [lines]
  split <;> exact List.cons_ne_nil _ _

/-- A piece with the end of its line is followed by the next line. -/
theorem lines_ended (n : Nat) (s : List Char) (h : '\n' ∈ (splitLine n s).1) : (lines s).tail = lines (splitLine n s).2 := by
  induction n generalizing s with
  | zero => cases h
  | succ n ih =>
    cases s with
    | nil => cases h
    | cons c s =>
      rw [splitLine] at h ⊢
      rw [lines]
      by_cases hc : c = '\n'
      · rw [if_pos hc, if_pos hc]
        rfl
      · rw [if_neg hc] at h ⊢
        rw [if_neg hc]
        exact ih s ((List.mem_cons.1 h).resolve_left fun heq => hc heq.symm)

/-- Any other is followed by the rest of its own line, if there is any. -/
theorem lines_split (n : Nat) (s : List Char) (h : '\n' ∉ (splitLine n s).1) (hne : (splitLine n s).1 ≠ []) :
    (lines s).tail = (lines (splitLine n s).2).tail := by
  induction n generalizing s with
  | zero => exact absurd rfl hne
  | succ n ih =>
    cases s with
    | nil => exact absurd rfl hne
    | cons c s =>
      rw [splitLine] at h ⊢
      rw [lines]
      by_cases hc : c = '\n'
      · rw [if_pos hc] at h
        exact absurd (List.mem_singleton.2 hc.symm) h
      · rw [if_neg hc] at h ⊢
        rw [if_neg hc, List.tail_cons]
        by_cases hnil : (splitLine n s).1 = []
        · have := splitLine_append n s
          rw [hnil, List.nil_append] at this
          rw [this]
        · exact ih s (fun h' => h (List.mem_cons_of_mem c h')) hnil

/-- The pieces are of all the lines and of no others. -/
theorem mem_piecesFrom {fuel line : Nat} {file : List Char} (hfuel : file.length ≤ fuel) (k : Nat) :
    (∃ text, (k, text) ∈ piecesFrom fuel line file) ↔ line ≤ k ∧ k < line + (lines file).length := by
  induction fuel generalizing line file with
  | zero =>
    obtain rfl := List.eq_nil_of_length_eq_zero (Nat.le_zero.1 hfuel)
    simp only [piecesFrom, lines, List.length_nil, List.not_mem_nil, exists_const, false_iff]
    omega
  | succ fuel ih =>
    cases file with
    | nil =>
      simp only [piecesFrom, fgets, if_pos, lines, List.length_nil, List.not_mem_nil, exists_const, false_iff]
      omega
    | cons c s =>
      obtain ⟨text, rest, hget, hsplit, hne, _, hlength⟩ := fgets_cons c s
      rw [List.length_cons] at hfuel
      have hmem : (∃ text, (k, text) ∈ piecesFrom (fuel + 1) line (c :: s)) ↔
          k = line ∨ ∃ text', (k, text') ∈ piecesFrom fuel (lineAfter line text) rest := by
        simp only [piecesFrom, hget, List.mem_cons, Prod.mk.injEq, exists_or, exists_and_left, exists_eq, and_true]
      have hlines := List.length_pos_iff.2 (lines_ne_nil c s)
      have htail := List.length_tail (l := lines (c :: s))
      rw [hmem, ih (by omega), lineAfter]
      by_cases hend : '\n' ∈ text
      · have hnext := lines_ended (maxLineLen - 1) (c :: s) (by rw [hsplit]; exact hend)
        rw [hnext, hsplit] at htail
        dsimp only at htail
        rw [if_pos hend]
        omega
      · have hrest := lines_split (maxLineLen - 1) (c :: s) (by rw [hsplit]; exact hend) (by rw [hsplit]; exact hne)
        rw [hrest, List.length_tail, hsplit] at htail
        dsimp only at htail
        rw [if_neg hend]
        omega

theorem mem_pieces {file : List Char} {k : Nat} : (∃ text, (k, text) ∈ pieces file) ↔ k < (lines file).length := by
  rw [pieces, mem_piecesFrom (Nat.le_refl _)]
  omega

namespace Traced

/-- The loop goes through the pieces. -/
theorem readLines_pieces {fuel line : Nat} {file : List Char} (hfuel : file.length ≤ fuel) (s : Calls × Traced) :
    readLines (fuel + 1) line file s = some ((piecesFrom fuel line file).foldl onPiece s) := by
  induction fuel generalizing line file s with
  | zero =>
    obtain rfl := List.eq_nil_of_length_eq_zero (Nat.le_zero.1 hfuel)
    rfl
  | succ fuel ih =>
    cases file with
    | nil => rfl
    | cons c s' =>
      obtain ⟨text, rest, hget, _, _, _, hlength⟩ := fgets_cons c s'
      rw [List.length_cons] at hfuel
      rw [readLines, piecesFrom, hget]
      exact ih (by omega) _

end Traced

/-! ## Files without zeros -/

def Calls.pairs (cs : Calls) : List (List (Nat × Nat)) := cs.map fun ps => ps.map Prod.fst

theorem untilZero_eq {text : List Char} (h : ∀ c ∈ text, c ≠ '\x00') : untilZero text = text :=
  List.takeWhile_eq_self_iff.2 fun c hc => decide_eq_true (h c hc)

theorem Traced.Sized.onPiece {s : Calls × Traced} (h : s.2.Sized) (piece : Nat × List Char) : (onPiece s piece).2.Sized := by
  have hparse := h.parse piece.1 piece.2
  rw [Traced.onPiece]
  split
  · exact ⟨hparse.hashes, hparse.values, hparse.sources⟩
  · exact hparse

/-- Without its sources, the run is that of the cache alone. -/
theorem Traced.readLines_erased {fuel line : Nat} {file : List Char} {s s' : Calls × Traced} (hzero : ∀ c ∈ file, c ≠ '\x00')
    (hs : s.2.Sized) (h : Traced.readLines fuel line file s = some s') : s'.2.Sized ∧
      FpDbWriterCache.readLines calls fuel file (s.1.pairs, s.2.cache) = some (s'.1.pairs, s'.2.cache) := by
  induction fuel generalizing line file s with
  | zero => cases h
  | succ fuel ih =>
    rw [Traced.readLines] at h
    rw [FpDbWriterCache.readLines]
    cases file with
    | nil =>
      obtain rfl := Option.some.inj h
      exact ⟨hs, rfl⟩
    | cons c file =>
      obtain ⟨text, rest, hget, _, _, happend, _⟩ := fgets_cons c file
      rw [hget] at h ⊢
      dsimp only at h ⊢
      rw [← happend] at hzero
      rw [untilZero_eq fun d hd => hzero d (List.mem_append_left _ hd)] at h
      obtain ⟨hsized, hrun⟩ := ih (fun d hd => hzero d (List.mem_append_right _ hd)) (hs.onPiece (line, text)) h
      refine ⟨hsized, ?_⟩
      rw [← hrun, Traced.onPiece]
      simp only [parse_cache]
      by_cases hfull : (FpDbWriterCache.parseCsvLine s.2.cache text).1.fpIndex = fpArraySize
      · rw [if_pos hfull, if_pos hfull, ← parse_cache line, ← pending_pairs (hs.parse line text), Calls.pairs, Calls.pairs,
          List.map_append]
        rfl
      · rw [if_neg hfull, if_neg hfull, ← parse_cache line]

/-- **On a file without zeros the pairs are those that are read of it.** -/
theorem readTraced_erased (id : UInt64) {file : List Char} (hzero : ∀ c ∈ file, c ≠ '\x00') :
    (readTraced id file).map Calls.pairs = (readCsvFile calls [] (new id) file).map Prod.fst := by
  have hrun := @Traced.readLines_pieces _ 0 _ (Nat.le_refl file.length) ([], Traced.new id)
  obtain ⟨hsized, herased⟩ := Traced.readLines_erased hzero (Traced.sized_new id) hrun
  rw [readTraced, hrun, readCsvFile]
  rw [show FpDbWriterCache.readLines calls (file.length + 1) file ([], new id) = _ from herased]
  simp only [Option.map_some, Calls.pairs, List.map_append, List.map_singleton, Traced.pending_pairs hsized]
  rfl

/-! ## The run -/

/-- What the piece of a turn does to the sources of its slot. -/
def turn (ps : List (Nat × List Char)) (n : Nat) : Source → Source :=
  match ps[n]? with
  | none => id
  | some piece => Source.write piece

/-- The sources of the pair of piece `p`. -/
def sourceOf (ps : List (Nat × List Char)) (p : Nat) : Source := Rounds.held fpArraySize Source.unset (turn ps) p

/-- After `n` pieces. -/
structure Run (ps : List (Nat × List Char)) (n : Nat) (s : Calls × Traced) : Prop extends Traced.Sized s.2 where
  index : s.2.cache.fpIndex = n % fpArraySize
  slots : Rounds.Filled fpArraySize Source.unset (turn ps) n s.2.sources
  stored : s.1.flatten.map Prod.snd = (List.range (n - n % fpArraySize)).map (sourceOf ps)

theorem run_start (id : UInt64) (ps : List (Nat × List Char)) : Run ps 0 ([], Traced.new id) where
  toSized := Traced.sized_new id
  index := rfl
  slots := Rounds.filled_start
  stored := rfl

theorem map_range_split {β : Type} (f : Nat → β) {n k : Nat} (h : k ≤ n) :
    (List.range (n - k)).map f ++ (List.range' (n - k) k).map f = (List.range n).map f := by
  have happend := @List.range'_append_1 0 (n - k) k
  rw [Nat.zero_add, Nat.sub_add_cancel h] at happend
  rw [List.range_eq_range', List.range_eq_range', ← List.map_append, happend]

theorem Run.onPiece {ps : List (Nat × List Char)} {n : Nat} {s : Calls × Traced} (h : Run ps n s) {piece : Nat × List Char}
    (hp : ps[n]? = some piece) : Run ps (n + 1) (Traced.onPiece s piece) := by
  have hsize : 0 < fpArraySize := by decide
  have hindex : (s.2.parseCsvLine piece.1 piece.2).1.cache.fpIndex = n % fpArraySize + 1 := by
    rw [Traced.parse_cache, (parse_shape _ _).1, h.index]
  have hslots : Rounds.Filled fpArraySize Source.unset (turn ps) (n + 1) (s.2.parseCsvLine piece.1 piece.2).1.sources := by
    have hturn : turn ps n = Source.write piece := by rw [turn, hp]
    rw [Traced.parse_sources, h.index, ← hturn]
    exact h.slots.succ hsize
  have hsized := h.toSized.parse piece.1 piece.2
  have hlt := Nat.mod_lt n hsize
  rw [Traced.onPiece]
  by_cases hfull : (s.2.parseCsvLine piece.1 piece.2).1.cache.fpIndex = fpArraySize
  · -- the round ends: its pairs are stored
    have hmod : (n + 1) % fpArraySize = 0 ∧ (n + 1 - fpArraySize) % fpArraySize = 0 ∧ fpArraySize ≤ n + 1 ∧
        n - n % fpArraySize = n + 1 - fpArraySize := by
      rw [hindex] at hfull
      unfold fpArraySize at hfull ⊢
      omega
    obtain ⟨hnext, hstart, hle, hdone⟩ := hmod
    have hround := hslots.take hle (Nat.le_refl _) hstart
    rw [if_pos hfull]
    refine ⟨⟨hsized.hashes, hsized.values, hsized.sources⟩, hnext.symm, hslots, ?_⟩
    rw [List.flatten_append, List.map_append, h.stored, List.flatten_singleton, Traced.pending_sources hsized, hfull, hround,
      hdone, hnext, Nat.sub_zero]
    exact map_range_split (sourceOf ps) hle
  · rw [if_neg hfull]
    have hmod : (n + 1) % fpArraySize = n % fpArraySize + 1 := by
      rw [hindex] at hfull
      unfold fpArraySize at hfull hlt ⊢
      omega
    refine ⟨hsized, hindex.trans hmod.symm, hslots, ?_⟩
    rw [hmod, Nat.add_sub_add_right]
    exact h.stored

/-- What a run stores, one pair for each piece. -/
theorem stored_sources (id : UInt64) (file : List Char) : Checked.Returns (readTraced id file) fun cs =>
    cs.flatten.map Prod.snd = (List.range (pieces file).length).map (sourceOf (pieces file)) := by
  have hrun : ∀ n, n ≤ (pieces file).length →
      Run (pieces file) n (((pieces file).take n).foldl Traced.onPiece ([], Traced.new id)) := by
    intro n
    induction n with
    | zero => exact fun _ => run_start id _
    | succ n ih =>
      intro hn
      rw [List.take_succ_eq_append_getElem hn, List.foldl_append]
      exact (ih (by omega)).onPiece (List.getElem?_eq_getElem hn)
  have hend := hrun _ (Nat.le_refl _)
  rw [List.take_length] at hend
  rw [readTraced, Traced.readLines_pieces (Nat.le_refl _)]
  refine ⟨_, rfl, ?_⟩
  have hlast := hend.slots.take (Nat.mod_le (pieces file).length fpArraySize) (Nat.le_of_lt (Nat.mod_lt _ (by decide)))
    (Nat.sub_mod_eq_zero_of_mod_eq (Nat.mod_mod _ _).symm)
  rw [← hend.index, ← Traced.pending_sources hend.toSized, hend.index] at hlast
  show (_ ++ [Traced.pending _]).flatten.map Prod.snd = _
  rw [List.flatten_append, List.map_append, List.flatten_singleton]
  exact (congrArg₂ (· ++ ·) hend.stored hlast).trans (map_range_split (sourceOf (pieces file)) (Nat.mod_le _ _))

theorem newest_piece {ps : List (Nat × List Char)} {k p : Nat} {piece : Nat × List Char} (hp : ps[p]? = some piece) :
    newest ps k p = if k ≤ columnCount piece.2 then some piece.1
      else if p < fpArraySize then none else newest ps k (p - fpArraySize) := by
  rw [newest, hp]

theorem sourceOf_newest {ps : List (Nat × List Char)} {p : Nat} {piece : Nat × List Char} (hp : ps[p]? = some piece) :
    (sourceOf ps p).hash = newest ps 1 p ∧ (sourceOf ps p).value = newest ps 2 p ∧
      (sourceOf ps p).reading = some piece.1 := by
  induction p using Nat.strong_induction_on generalizing piece with
  | _ p ih =>
    have hturn : turn ps p = Source.write piece := by rw [turn, hp]
    rw [newest_piece hp, newest_piece hp]
    by_cases hearly : p < fpArraySize
    · rw [sourceOf, Rounds.held_early hearly, hturn]
      simp only [Source.write, Source.unset, if_pos hearly, and_self]
    · have hlt : p < ps.length := (List.getElem?_eq_some_iff.1 hp).1
      have hsize : 0 < fpArraySize := by decide
      obtain ⟨hhash, hvalue, _⟩ := ih (p - fpArraySize) (by omega) (List.getElem?_eq_getElem (by omega))
      rw [sourceOf] at hhash hvalue
      rw [sourceOf, Rounds.held_late hsize (by omega), hturn]
      simp only [Source.write, if_neg hearly, hhash, hvalue, and_self]

/-! ## Which files are read as pairs of their lines -/

theorem wellPaired_sources {id : UInt64} {file : List Char} : WellPaired id file ↔ ∀ p < (pieces file).length,
    (∃ line, newest (pieces file) 1 p = some line ∧ newest (pieces file) 2 p = some line) ∧
      ∀ line text, (lines file)[line]? = some text → (sourceOf (pieces file) p).Has line → 2 ≤ numericColumns text := by
  obtain ⟨cs, hrun, hcs⟩ := stored_sources id file
  have hstored : WellPaired id file ↔ ∀ q ∈ cs.flatten.map Prod.snd, (∃ line, q.hash = some line ∧ q.value = some line) ∧
      ∀ line text, (lines file)[line]? = some text → q.Has line → 2 ≤ numericColumns text := by
    rw [WellPaired, hrun]
    exact ⟨fun ⟨cs', h, hq⟩ => Option.some.inj h ▸ hq, fun h => ⟨cs, rfl, h⟩⟩
  rw [hstored, hcs]
  simp only [List.forall_mem_map, List.mem_range]
  refine forall₂_congr fun p hp => ?_
  obtain ⟨hhash, hvalue, _⟩ := sourceOf_newest (List.getElem?_eq_getElem hp)
  rw [hhash, hvalue]

/-- A line of fewer than two numeric columns is enough. -/
theorem not_wellPaired_of_line {id : UInt64} {file text : List Char} (h : text ∈ lines file) (hfew : numericColumns text < 2) :
    ¬ WellPaired id file := by
  intro hw
  obtain ⟨k, hk⟩ := List.mem_iff_getElem?.1 h
  obtain ⟨piece, hpiece⟩ := mem_pieces.2 (List.getElem?_eq_some_iff.1 hk).1
  obtain ⟨p, hp⟩ := List.mem_iff_getElem?.1 hpiece
  obtain ⟨_, hlines⟩ := wellPaired_sources.1 hw p (List.getElem?_eq_some_iff.1 hp).1
  have := hlines k text hk (Or.inl (sourceOf_newest hp).2.2)
  omega

/-- **When every stored pair is from one line of two numeric columns**: when all lines have two, and the columns of each pair
are the newest of one line. -/
theorem wellPaired_iff (id : UInt64) (file : List Char) : WellPaired id file ↔
    (∀ text ∈ lines file, 2 ≤ numericColumns text) ∧
      ∀ p < (pieces file).length, ∃ line, newest (pieces file) 1 p = some line ∧ newest (pieces file) 2 p = some line := by
  constructor
  · refine fun h => ⟨fun text htext => ?_, fun p hp => (wellPaired_sources.1 h p hp).1⟩
    by_contra hfew
    exact not_wellPaired_of_line htext (by omega) h
  · rintro ⟨hlines, hpairs⟩
    exact wellPaired_sources.2 fun p hp => ⟨hpairs p hp, fun line text htext _ => hlines text (List.mem_of_getElem? htext)⟩

/-- It is so when every piece has its two columns. -/
theorem newest_self {ps : List (Nat × List Char)} {p : Nat} {piece : Nat × List Char} (hp : ps[p]? = some piece)
    (h : columnCount piece.2 = 2) : newest ps 1 p = some piece.1 ∧ newest ps 2 p = some piece.1 := by
  rw [newest_piece hp, newest_piece hp, if_pos (by omega), if_pos (by omega), and_self]

theorem wellPaired_of_columns (id : UInt64) {file : List Char} (hlines : ∀ text ∈ lines file, 2 ≤ numericColumns text)
    (hpieces : ∀ piece ∈ pieces file, columnCount piece.2 = 2) : WellPaired id file := by
  refine wellPaired_sources.2 fun p hp => ⟨⟨_, newest_self (List.getElem?_eq_getElem hp) (hpieces _ (List.getElem_mem hp))⟩, ?_⟩
  exact fun line text htext _ => hlines text (List.mem_of_getElem? htext)

example (id : UInt64) : WellPaired id ['5', ',', ' ', '9', ',', 'x', '\n'] :=
  wellPaired_of_columns id (by decide) (by decide)

theorem lines_line {line : List Char} (rest : List Char) (h : ∀ c ∈ line, c ≠ '\n') :
    lines (line ++ '\n' :: rest) = (line ++ ['\n']) :: lines rest := by
  induction line with
  | nil => rw [List.nil_append, lines, if_pos rfl]; rfl
  | cons c line ih =>
    rw [List.cons_append, lines, if_neg (h c List.mem_cons_self), ih fun d hd => h d (List.mem_cons_of_mem c hd)]
    rfl

/-- No file that was written by the writer is: its header is no line of numbers, and is stored. -/
theorem written_not_wellPaired (fmt : MagnitudeFormat V) (id : UInt64) (batches : List (List (Fingerprint V))) :
    ¬ WellPaired id (written fmt batches) := by
  have hplain := (header_isLine id).plain
  refine @not_wellPaired_of_line id _ (headerLine ++ ['\n']) ?_ (by decide)
  rw [written_lines fmt id, writtenLines, List.flatMap_cons, List.append_assoc, List.singleton_append, lines_line _ hplain]
  exact List.mem_cons_self

/-- A line with one column: its time is what the memory held. -/
theorem oneColumn_not_wellPaired : ¬ ∀ id file, WellPaired id file := by
  intro h
  refine not_wellPaired_of_line (List.mem_singleton.2 rfl) ?_ (h 7 ['1', '2', '\n'])
  decide

end Olaf.FpDbWriterCache
