import Clipse.Clipboard.Sensitive
import Clipse.Lib.PatternText

/-!
# What the patterns mean (`clipse-clipboard/src/sensitive/secrets.rs`)

The documentation of the `regex` crate on the notation that the detectors use: `is_match` looks for
a match anywhere, and `find_iter` gives the matches from left to right, none of which begins before
the end of the one before it; of those that begin at one place it takes the one written first, and
repetitions are as long as they can be. `\b` is the edge of a word of Unicode.
-/

namespace Clipse

/-- `\w`: a table of Unicode, which of the characters of ASCII has the letters, the digits and the
underscore. -/
class WordTable where
  isWord : Char → Bool
  ascii : ∀ c : Char, c.toNat < 128 → isWord c = (c.isAlphanum || c == '_')

/-- The characters as the `regex` crate sees them. -/
def regexAlphabet [WordTable] : Alphabet CharClass Char := .chars WordTable.isWord

/-- The `regex` crate does with the patterns of this notation what it documents. -/
class DocumentedRegex [Regex] [WordTable] : Prop where
  isMatch_iff : ∀ {re : String} {p : Pattern CharClass}, Pattern.read re = some p →
    ∀ text, Regex.isMatch re text = true ↔ regexAlphabet.Occurs p text
  findIter_eq : ∀ {re : String} {p : Pattern CharClass}, Pattern.read re = some p →
    ∀ text, Regex.findIter re text = regexAlphabet.findAll p 0 false [] text

/-- A crate that does so: it reads the pattern and looks for it. -/
@[reducible] def Regex.documented [WordTable] : Regex where
  isMatch re text := (Pattern.read re).any fun p => regexAlphabet.found p [] text
  findIter re text := (Pattern.read re).elim [] fun p => regexAlphabet.findAll p 0 false [] text

theorem Regex.documented_spec [WordTable] : @DocumentedRegex Regex.documented _ := by
  refine @DocumentedRegex.mk Regex.documented _ ?_ ?_
  · intro re p h text
    show (Pattern.read re).any (fun p => regexAlphabet.found p [] text) = true ↔ _
    rw [h]
    exact Alphabet.found_iff_occurs
  · intro re p h text
    show (Pattern.read re).elim [] (fun p => regexAlphabet.findAll p 0 false [] text) = _
    rw [h]
    rfl

/-- The table as far as ASCII goes. -/
@[reducible] def WordTable.ofAscii : WordTable where
  isWord c := c.isAlphanum || c == '_'
  ascii _ _ := rfl

end Clipse
