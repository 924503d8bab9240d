import Mathlib.Data.List.DropRight
/-!
# Tokens of a text

| here | there |
| --- | --- |
| `tokenizeAny` | `std.mem.tokenizeAny`: the stretches without a delimiter, none of them empty |
| `trim`        | `std.mem.trim`: a text without the blanks at its two ends |

Over any alphabet. `tokenizeAny_token`, `tokenizeAny_intercalate`, `trim_cons` and `trim_concat` say what is read from a text
that is put together of fields; `plain_of_mem` and `trim_trimmed` say what no field that is read can be.
-/

namespace Tokens

variable {α : Type} {delim blank : α → Bool}

def tokenizeAny (delim : α → Bool) (s : List α) : List (List α) := (s.splitOnP delim).filter fun token => !token.isEmpty

def trim (blank : α → Bool) (s : List α) : List α := (s.dropWhile blank).rdropWhile blank

/-- No blank is first or last. -/
structure Trimmed (blank : α → Bool) (s : List α) : Prop where
  head : ∀ c ∈ s.head?, blank c = false
  last : ∀ c ∈ s.getLast?, blank c = false

/-! ## Tokens -/

theorem tokenizeAny_token {token : List α} {d : α} (rest : List α) (hne : token ≠ []) (ht : ∀ c ∈ token, delim c = false)
    (hd : delim d = true) : tokenizeAny delim (token ++ d :: rest) = token :: tokenizeAny delim rest := by
  rw [tokenizeAny, List.splitOnP_append_cons_of_forall_mem ht d hd, List.filter_cons_of_pos (by simpa using hne), tokenizeAny]

/-- Fields with a delimiter between them are read as they are, without the empty ones. -/
theorem tokenizeAny_intercalate [BEq α] [LawfulBEq α] {d : α} {fields : List (List α)} (h : ∀ field ∈ fields, d ∉ field) :
    tokenizeAny (· == d) ([d].intercalate fields) = fields.filter fun field => !field.isEmpty := by
  by_cases hnil : fields = []
  · subst hnil
    rfl
  · have hsplit := List.splitOn_intercalate d h hnil
    rw [List.splitOn] at hsplit
    rw [tokenizeAny, hsplit]

/-- No stretch has a delimiter. -/
theorem plain_of_mem_split {s token : List α} (h : token ∈ s.splitOnP delim) : ∀ c ∈ token, delim c = false := by
  induction s generalizing token with
  | nil =>
    obtain rfl := List.mem_singleton.1 h
    simp
  | cons a s ih =>
    rw [List.splitOnP_cons_eq_if_modifyHead] at h
    by_cases ha : delim a = true
    · rw [if_pos ha] at h
      rcases List.mem_cons.1 h with rfl | h
      · simp
      · exact ih h
    · rw [if_neg ha] at h
      obtain ⟨first, more, hsplit⟩ := List.exists_cons_of_ne_nil (List.splitOnP_ne_nil delim s)
      rw [hsplit] at h ih
      rcases List.mem_cons.1 h with rfl | h
      · intro c hc
        rcases List.mem_cons.1 hc with rfl | hc
        · exact eq_false_of_ne_true ha
        · exact ih List.mem_cons_self c hc
      · exact ih (List.mem_cons_of_mem _ h)

theorem plain_of_mem {s token : List α} (h : token ∈ tokenizeAny delim s) : ∀ c ∈ token, delim c = false :=
  plain_of_mem_split (List.mem_of_mem_filter h)

/-! ## Blanks -/

theorem trim_trimmed (blank : α → Bool) (s : List α) : Trimmed blank (trim blank s) := by
  constructor
  · intro c hc
    -- what is first after both cuts was first after the first one
    have hfirst : c ∈ (s.dropWhile blank).head? := by
      obtain ⟨rest, hrest⟩ := List.rdropWhile_prefix blank (s.dropWhile blank)
      rw [← hrest]
      obtain ⟨more, hmore⟩ := List.head?_eq_some_iff.1 hc
      rw [trim] at hmore
      rw [hmore]
      rfl
    have hdrop := List.head?_dropWhile_not blank s
    rw [Option.mem_def.1 hfirst] at hdrop
    exact hdrop
  · intro c hc
    obtain ⟨hne, hlast⟩ := List.mem_getLast?_eq_getLast hc
    rw [hlast]
    exact eq_false_of_ne_true (List.rdropWhile_last_not blank _ hne)

theorem trim_self {s : List α} (h : Trimmed blank s) : trim blank s = s := by
  have hdrop : s.dropWhile blank = s := by
    cases s with
    | nil => rfl
    | cons c s => exact List.dropWhile_cons_of_neg (by rw [h.head c rfl]; decide)
  rw [trim, hdrop, List.rdropWhile_eq_self_iff]
  intro hne
  rw [h.last _ (List.getLast?_eq_some_getLast hne)]
  decide

theorem trim_sublist {s : List α} : (trim blank s).Sublist s :=
  (List.rdropWhile_prefix blank _).sublist.trans (List.dropWhile_sublist blank)

theorem mem_of_mem_trim {s : List α} {c : α} (h : c ∈ trim blank s) : c ∈ s := trim_sublist.subset h

/-- A blank in front is cut off. -/
theorem trim_cons {c : α} (s : List α) (hc : blank c = true) : trim blank (c :: s) = trim blank s := by
  rw [trim, List.dropWhile_cons_of_pos hc, trim]

/-- A blank at the end is cut off. -/
theorem trim_concat {c : α} (s : List α) (hc : blank c = true) : trim blank (s ++ [c]) = trim blank s := by
  rw [trim, trim, List.dropWhile_append]
  split
  · rename_i hnil
    rw [List.isEmpty_iff.1 hnil, List.dropWhile_cons_of_pos hc, List.dropWhile_nil]
  · rw [List.rdropWhile_concat_pos _ _ _ hc]

end Tokens
