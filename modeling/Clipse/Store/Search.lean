import Clipse.Lib.Quoted
import Clipse.Store.Basic

/-!
# Full-text search (`clipse-store/src/fts.rs`, `Store::search`)

What the user types becomes a `MATCH` expression of string literals. FTS5 belongs to SQLite, so it is
the parameter `Fts5`: it reads an expression into tokens, and these into a test of the indexed text.
`Fts5.Documented` is what its manual says about strings and blanks.
-/

namespace Clipse

inductive Fts5Token where
  /-- A string in double quotes, with what it stands for. -/
  | literal (content : List Char)
  | bareword (word : List Char)
  | punctuation (c : Char)
deriving DecidableEq

/-- FTS5: the tokens of an expression, and which indexed texts they match. What it refuses is an error
of the query, with a message. -/
class Fts5 where
  lex : List Char → Except String (List Fts5Token)
  parse : List Fts5Token → Except String (String → Bool)

/-- Blanks between tokens are skipped, and a string ends with a quote that is not doubled. An
expression ends with its last character or with a NUL. -/
structure Fts5.Documented [Fts5] : Prop where
  nil : Fts5.lex [] = .ok []
  space : ∀ rest, Fts5.lex (' ' :: rest) = Fts5.lex rest
  string : ∀ rest content rest', Quoted.scan '"' '\x00' rest = some (content, rest') →
    Fts5.lex ('"' :: rest) = (Fts5.lex rest').map (.literal content :: ·)

/-- `str::split_whitespace`. -/
def splitWhitespace (text : List Char) : List (List Char) :=
  (text.splitOnP isWhitespace).filter (· ≠ [])

/-- `fts::escape_query`. -/
def escapeQuery (input : List Char) : Option (List Char) :=
  let terms := splitWhitespace input
  if terms = [] then none
  else some ([' '].intercalate (terms.map (Quoted.literal '"')))

/-- `Store::search`. -/
def Store.search [Fts5] (s : Store) (text : List Char) (q : HistoryQuery) :
    Except String (List Clip) :=
  match escapeQuery text with
  | none => .ok []
  | some matchExpr => do
    let tokens ← Fts5.lex matchExpr
    let isMatch ← Fts5.parse tokens
    let ids := (s.clipFts.filter (isMatch ·.body)).map (·.clipId)
    let rows := s.clip.rows.filter fun r =>
      !r.deleted && q.kind.all (r.kind = ·) && (!q.pinnedOnly || r.pinned) && r.id ∈ ids
    return (q.page (rows.insertionSort fun a b => b.hlc.column ≤ a.hlc.column)).map ClipRow.toClip

end Clipse
