import Clipse.Lib.Case

/-!
# The fuzzy matcher (`apps/clipse-app/src/lib/fuzzy.ts`)

Strings are UTF-16 code units. A query is found in a text if its lower-case copy is a subsequence of
the text's.
-/

namespace Clipse

open Case

/-- A match: where the text has the units of the query, and how good that is. -/
structure FuzzyMatch where
  score : Int
  indices : List Nat
deriving DecidableEq, Repr

/-- `WORD_BOUNDARY`, `/[^a-z0-9]/i`, on one unit -/
def wordBoundary (u : UInt16) : Bool :=
  !((0x61 ≤ u && u ≤ 0x7A) || (0x41 ≤ u && u ≤ 0x5A) || (0x30 ≤ u && u ≤ 0x39))

/-- The variables of the loop; `rest` is the query from `qi` on. -/
structure FuzzyLoop where
  rest : List UInt16
  indices : List Nat
  score : Int
  previousMatch : Int
  run : Int

/-- What the loop does at a unit that is the next one of the query. `before` is the unit in front of
it, if it is not the first. -/
def FuzzyLoop.found (m : FuzzyLoop) (rest : List UInt16) (ti : Nat) (before : Option UInt16) :
    FuzzyLoop :=
  let consecutive : Bool := m.previousMatch = ti - 1
  let run := if consecutive then m.run + 1 else 1
  let charScore : Int := 10
  let charScore := if consecutive then charScore + run * 6 else charScore
  let charScore := if before.all wordBoundary then charScore + 12 else charScore
  { rest, indices := m.indices ++ [ti], score := m.score + charScore, previousMatch := ti, run }

/-- The loop over the units of the text, from the one numbered `ti` on. -/
def fuzzyLoop : List UInt16 → Nat → Option UInt16 → FuzzyLoop → FuzzyLoop
  | [], _, _, m => m
  | u :: t, ti, before, m =>
    match m.rest with
    | [] => m
    | v :: rest =>
      if u ≠ v then fuzzyLoop t (ti + 1) (some u) m
      else fuzzyLoop t (ti + 1) (some u) (m.found rest ti before)

def fuzzyMatch [Case.Unicode] (query text : List UInt16) : Option FuzzyMatch :=
  if query.length = 0 then some { score := 0, indices := [] }
  else if text.length = 0 then none
  else
    let q := toLowerCase query
    let t := toLowerCase text
    let m := fuzzyLoop t 0 none
      { rest := q, indices := [], score := 0, previousMatch := -2, run := 0 }
    if m.rest ≠ [] then none
    else
      -- there are indices, as the query has a unit
      let first := m.indices.headD 0
      let last := m.indices.getLastD 0
      let span : Int := last - first + 1
      let slack := span - query.length
      some { score := m.score - slack * 2 - first * 1, indices := m.indices }

end Clipse
