import Mathlib.Algebra.Order.Ring.Rat
import Olaf.FpMatcher
import Olaf.Library.CText
/-!
# Printing query results (`olaf_cli_bridge.c`)

| here | there |
| --- | --- |
| `Context`  | `olaf_query_print_context`, one for each thread (`:169`) |
| `Match`    | the arguments of a result callback, and `Olaf_JSON_Match` (`:180`) |
| `excluded` | the test for self-matches at the start of both callbacks (`:227`, `:285`) |
| `printMatch`, `collectMatch` | `olaf_cli_print_match` (`:276`) and `olaf_cli_collect_match` (`:219`) |
| `jsonPrintEscaped` | `json_print_escaped` (`:249`) |
| `queryJson` | what `olaf_query_json` prints (`:401-429`) |

A function that prints is the list of its calls of `printf`, `fputs` and `fputc`, each with the text that it
appends. `fixed3` is what `printf` makes of a number with `%.3f`.
-/

namespace Olaf.QueryPrint
open CText FpMatcher

structure Context where
  qIndex : Nat
  qTotal : Nat
  queryPath : List Char
  qOffset : ℚ
  excludeIdentifier : UInt32

structure Match where
  matchCount : Int
  queryStart : ℚ
  queryStop : ℚ
  path : List Char
  matchIdentifier : UInt32
  referenceStart : ℚ
  referenceStop : ℚ

/-- What the stream processor knows after a run. -/
structure Stats where
  totalFp : Nat
  audioDuration : ℚ
  cpuTimeUsed : ℚ

/-- A self-match; the empty result is none. -/
def excluded (ctx : Context) (m : Match) : Bool :=
  ctx.excludeIdentifier ≠ 0 ∧ m.matchCount > 0 ∧ m.matchIdentifier = ctx.excludeIdentifier

section Calls
variable (fixed3 : ℚ → List Char)

/-- `olaf_cli_print_match`: one call each for the query, the match and the reference. -/
def printMatch (ctx : Context) (m : Match) : List (List Char) :=
  if excluded ctx m then []
  else
    [formatInt (i32 ((ctx.qIndex + 1) % 2 ^ 32)) ++ " ,".toList ++ formatInt (i32 (ctx.qTotal % 2 ^ 32)) ++ " ,".toList ++
        ctx.queryPath ++ ", ".toList ++ fixed3 ctx.qOffset ++ ", ".toList,
      formatInt m.matchCount ++ " ,".toList ++ fixed3 m.queryStart ++ " ,".toList ++ fixed3 m.queryStop ++ ", ".toList,
      m.path ++ ", ".toList ++ Nat.toDigits 10 m.matchIdentifier.toNat ++ ", ".toList ++ fixed3 m.referenceStart ++
        ", ".toList ++ fixed3 m.referenceStop ++ "\n".toList]

/-- `olaf_cli_collect_match`: without self-matches and the empty result. -/
def collectMatch (ctx : Context) (jsonMatches : List Match) (m : Match) : List Match :=
  if excluded ctx m then jsonMatches else if m.matchCount = 0 then jsonMatches else jsonMatches ++ [m]

/-- `%04x`. -/
def hex4 (n : Nat) : List Char := List.replicate (4 - (Nat.toDigits 16 n).length) '0' ++ Nat.toDigits 16 n

def escape (c : Char) : List Char :=
  if c = '\x22' then "\\\x22".toList
  else if c = '\\' then "\\\\".toList
  else if c = '\x08' then "\\b".toList
  else if c = '\x0c' then "\\f".toList
  else if c = '\n' then "\\n".toList
  else if c = '\r' then "\\r".toList
  else if c = '\t' then "\\t".toList
  else if c.toNat < 32 then "\\u".toList ++ hex4 c.toNat
  else [c]

/-- `none` for `NULL`. -/
def jsonPrintEscaped : Option (List Char) → List (List Char)
  | none => ["\x22\x22".toList]
  | some s => ["\x22".toList] ++ s.map escape ++ ["\x22".toList]

/-- A line with a key. -/
def jsonLine (indent key : String) (value : List Char) (sep : String) : List Char :=
  indent.toList ++ "\x22".toList ++ key.toList ++ "\x22: ".toList ++ value ++ sep.toList

/-- The body of the loop over the matches. -/
def jsonMatch (i : Nat) (m : Match) : List (List Char) :=
  [(if i = 0 then [] else ",".toList) ++ "\n    \x7b\n".toList,
    jsonLine "      " "match_count" (formatInt m.matchCount) ",\n",
    jsonLine "      " "query_start" (fixed3 m.queryStart) ",\n",
    jsonLine "      " "query_stop" (fixed3 m.queryStop) ",\n",
    jsonLine "      " "path" [] ""] ++
  jsonPrintEscaped (some m.path) ++
  [",\n".toList,
    jsonLine "      " "match_identifier" (Nat.toDigits 10 m.matchIdentifier.toNat) ",\n",
    jsonLine "      " "reference_start" (fixed3 m.referenceStart) ",\n",
    jsonLine "      " "reference_stop" (fixed3 m.referenceStop) "\n",
    "    \x7d".toList]

def fpPerSecond (s : Stats) : ℚ := if 0 < s.audioDuration then s.totalFp / s.audioDuration else 0

def realtimeFactor (s : Stats) : ℚ := if 0 < s.cpuTimeUsed then s.audioDuration / s.cpuTimeUsed else 0

/-- One object for each query. -/
def queryJson (ctx : Context) (s : Stats) (jsonMatches : List Match) : List (List Char) :=
  ["\x7b\n".toList,
    jsonLine "  " "query_index" (Nat.toDigits 10 ((ctx.qIndex + 1) % 2 ^ 64)) ",\n",
    jsonLine "  " "total_queries" (Nat.toDigits 10 ctx.qTotal) ",\n",
    jsonLine "  " "query_path" [] ""] ++
  jsonPrintEscaped (some ctx.queryPath) ++
  [",\n".toList,
    jsonLine "  " "query_offset" (fixed3 0) ",\n",
    jsonLine "  " "fingerprints_matched" (Nat.toDigits 10 s.totalFp) ",\n",
    jsonLine "  " "query_duration_seconds" (fixed3 s.audioDuration) ",\n",
    jsonLine "  " "fingerprints_per_second" (fixed3 (fpPerSecond s)) ",\n",
    jsonLine "  " "search_time_seconds" (fixed3 s.cpuTimeUsed) ",\n",
    jsonLine "  " "realtime_factor" (fixed3 (realtimeFactor s)) ",\n",
    "  \x22matches\x22: [".toList] ++
  (jsonMatches.mapIdx (jsonMatch fixed3)).flatten ++
  (if jsonMatches = [] then [] else ["\n  ".toList]) ++
  ["]\n\x7d\n".toList]

/-! ## The number of calls -/

/-- A result line is three calls, unless it is left out. -/
theorem printMatch_length (ctx : Context) (m : Match) :
    (printMatch fixed3 ctx m).length = if excluded ctx m then 0 else 3 := by
  unfold printMatch
  split <;> rfl

/-- An object is more than two. -/
theorem queryJson_length (ctx : Context) (s : Stats) (jsonMatches : List Match) : 2 < (queryJson fixed3 ctx s jsonMatches).length := by
  simp only [queryJson, List.length_append, List.length_cons]
  omega

end Calls

end Olaf.QueryPrint
