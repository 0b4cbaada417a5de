import Clipse.Lib.Runs
import Clipse.Store.Search
import Mathlib.Data.List.Infix

/-!
# Search text is never query syntax

* `flatten_splitWhitespace`: the words of a text are its characters but for the blanks.
* `lex_words`: words that were quoted and joined are read as strings, whatever they contain.
* `escapeQuery_literals`: what FTS5 reads in an escaped query.
-/

namespace Clipse

/-! ## Words -/

theorem flatten_filter_ne_nil {α : Type} [DecidableEq α] (xss : List (List α)) :
    (xss.filter (· ≠ [])).flatten = xss.flatten := by
  induction xss with
  | nil => rfl
  | cons xs xss ih =>
    cases xs with
    | nil => rw [List.filter_cons_of_neg (by simp), ih, List.flatten_cons, List.nil_append]
    | cons x xs => rw [List.filter_cons_of_pos (by simp), List.flatten_cons, List.flatten_cons, ih]

/-- The words of a text are its characters but for the blanks, in their order. -/
theorem flatten_splitWhitespace (text : List Char) :
    (splitWhitespace text).flatten = text.filter (!isWhitespace ·) := by
  rw [splitWhitespace, flatten_filter_ne_nil, List.flatten_splitOnP]

theorem splitWhitespace_eq_nil {text : List Char} :
    splitWhitespace text = [] ↔ ∀ c ∈ text, isWhitespace c = true := by
  constructor
  · intro h
    have hflat := flatten_splitWhitespace text
    rw [h, List.flatten_nil, eq_comm, List.filter_eq_nil_iff] at hflat
    intro c hc
    simpa using hflat c hc
  · intro h
    have hflat := flatten_splitWhitespace text
    rw [List.filter_eq_nil_iff.2 fun c hc => by simp [h c hc], List.flatten_eq_nil_iff] at hflat
    refine List.eq_nil_iff_forall_not_mem.2 fun word hword => ?_
    rw [splitWhitespace, List.mem_filter] at hword
    have hne : word ≠ [] := by simpa using hword.2
    exact hne (hflat word (List.mem_filter.2 hword))

theorem not_mem_of_mem_splitWhitespace {text word : List Char} {c : Char} (hc : c ∉ text)
    (h : word ∈ splitWhitespace text) : c ∉ word := by
  intro hw
  have hmem := List.mem_flatten.2 ⟨word, h, hw⟩
  rw [flatten_splitWhitespace] at hmem
  exact hc (List.mem_of_mem_filter hmem)

/-! ## Reading the words back -/

section
variable [Fts5] (hdoc : Fts5.Documented)
include hdoc

theorem lex_literal {content rest : List Char} (hnul : '\x00' ∉ content)
    (hrest : rest.head? ≠ some '"') :
    Fts5.lex (Quoted.literal '"' content ++ rest) =
      (Fts5.lex rest).map (.literal content :: ·) := by
  rw [Quoted.literal, List.cons_append, List.append_assoc, List.singleton_append]
  exact hdoc.string _ _ _ (Quoted.scan_doubled (by decide) hnul hrest)

/-- **Words that are quoted and joined with spaces are read as strings.** -/
theorem lex_words {words : List (List Char)} (hnul : ∀ word ∈ words, '\x00' ∉ word) :
    Fts5.lex ([' '].intercalate (words.map (Quoted.literal '"'))) =
      .ok (words.map .literal) := by
  induction words with
  | nil => exact hdoc.nil
  | cons word words ih =>
    rw [List.forall_mem_cons] at hnul
    cases words with
    | nil =>
      have h : Fts5.lex (Quoted.literal '"' word ++ []) = (Fts5.lex []).map (.literal word :: ·) :=
        lex_literal hdoc hnul.1 nofun
      rw [List.append_nil, hdoc.nil] at h
      rw [List.map_singleton, List.intercalate_singleton, h]
      rfl
    | cons next words =>
      rw [List.map_cons, List.map_cons, List.intercalate_cons_cons, ← List.map_cons,
        List.append_assoc, List.singleton_append, lex_literal hdoc hnul.1 (by simp), hdoc.space,
        ih hnul.2]
      rfl

/-- **Search text is never query syntax**: only a text of blanks has no expression, and FTS5 reads any
other one as the words of the text, each a string literal. No character of the text stands outside a
literal but the blanks between its words. -/
theorem escapeQuery_literals {input : List Char} (hnul : '\x00' ∉ input) :
    (escapeQuery input = none ↔ ∀ c ∈ input, isWhitespace c = true) ∧
      (∀ expr, escapeQuery input = some expr →
        Fts5.lex expr = .ok ((splitWhitespace input).map .literal)) ∧
      (splitWhitespace input).flatten = input.filter (!isWhitespace ·) := by
  refine ⟨?_, fun expr h => ?_, flatten_splitWhitespace input⟩
  · rw [← splitWhitespace_eq_nil]
    simp [escapeQuery]
  · simp only [escapeQuery, Option.ite_none_left_eq_some, Option.some.injEq] at h
    obtain ⟨-, rfl⟩ := h
    exact lex_words hdoc fun word hword => not_mem_of_mem_splitWhitespace hnul hword

end

/-! ## The lexer of the worked example -/

/-- ASCII letters, digits and underscores, everything beyond ASCII, and the substitute character. -/
def isBareword (c : Char) : Bool := c.isAlphanum || c = '_' || 0x80 ≤ c.toNat || c.toNat = 0x1a

theorem length_dropWhile_lt (p : Char → Bool) (c : Char) (rest : List Char) :
    (rest.dropWhile p).length < (c :: rest).length :=
  Nat.lt_succ_of_le (List.dropWhile_suffix p).length_le

/-- How FTS5 reads an expression. -/
def fts5Lex : List Char → Except String (List Fts5Token)
  | [] => .ok []
  | c :: rest =>
    if c = '\x00' then .ok []
    else if c ∈ [' ', '\t', '\n', '\r'] then fts5Lex rest
    else if c = '"' then
      match h : Quoted.scan '"' '\x00' rest with
      | none => .error "unterminated string"
      | some (content, rest') =>
        have := Nat.lt_succ_of_lt (Quoted.length_scan h)
        (fts5Lex rest').map (.literal content :: ·)
    else if c ∈ "()\x7b\x7d:,+*-^".toList then (fts5Lex rest).map (.punctuation c :: ·)
    else if isBareword c then
      have := length_dropWhile_lt isBareword c rest
      (fts5Lex (rest.dropWhile isBareword)).map (.bareword (c :: rest.takeWhile isBareword) :: ·)
    else .error ("fts5: syntax error near \"" ++ String.ofList (c :: rest) ++ "\"")
termination_by text => text.length
decreasing_by
  all_goals simp only [List.length_cons] at *
  all_goals omega

/-- FTS5 with this lexer, for expressions that are strings. -/
@[reducible] def Fts5.examples : Fts5 where
  lex := fts5Lex
  parse tokens := .ok fun body => tokens.all fun
    | .literal content => content <:+: body.toList
    | _ => false

section
attribute [local instance] Fts5.examples

theorem documented_examples : Fts5.Documented where
  nil := by
    change fts5Lex [] = .ok []
    rw [fts5Lex]
  space rest := by
    change fts5Lex (' ' :: rest) = fts5Lex rest
    rw [fts5Lex, if_neg (by decide), if_pos (by decide)]
  string rest content rest' h := by
    change fts5Lex ('"' :: rest) = (fts5Lex rest').map _
    rw [fts5Lex, if_neg (by decide), if_neg (by decide), if_pos rfl]
    split
    · next hnone =>
      rw [hnone] at h
      cases h
    · next hsome =>
      rw [hsome] at h
      cases h
      rfl

/-- A text with a quote at the end of a word, an operator and a wildcard. -/
theorem escapeQuery_literals_operators :
    (escapeQuery "6\" AND\t*".toList = none ↔ ∀ c ∈ "6\" AND\t*".toList, isWhitespace c = true) ∧
      (∀ expr, escapeQuery "6\" AND\t*".toList = some expr →
        Fts5.lex expr = .ok ((splitWhitespace "6\" AND\t*".toList).map .literal)) ∧
      (splitWhitespace "6\" AND\t*".toList).flatten = "6\" AND\t*".toList.filter (!isWhitespace ·) :=
  escapeQuery_literals documented_examples (by decide)

end

example : escapeQuery "6\" AND\t*".toList = some "\"6\"\"\" \"AND\" \"*\"".toList := by decide

end Clipse
