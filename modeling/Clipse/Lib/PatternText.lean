import Clipse.Lib.Pattern

/-!
# How patterns are written

Patterns in the usual notation: literal characters, escaped or not, classes of ranges, `\b`, groups
that capture nothing, alternatives, and `*`, `{n}` and `{n,}` after a single character. What else
the notation knows is not read.

* `matches_iff_mem_words`: a pattern without repetition and edges matches finitely many words.
* `matches_iff_of_leads`: so does one that asks for an edge before them.
-/

/-- A class: ranges of characters. -/
abbrev CharClass := List (Char × Char)

def CharClass.holds (c : CharClass) (a : Char) : Bool := c.any fun r => r.1 ≤ a && a ≤ r.2

/-- The characters, with those of which words are made. -/
def Alphabet.chars (word : Char → Bool) : Alphabet CharClass Char := ⟨CharClass.holds, word⟩

namespace Pattern

/-! ## The notation -/

inductive Token where
  | open_
  | close
  | bar
  | edge
  /-- A class, or a character; and how often. -/
  | one (c : CharClass) (count : Option (Nat × Option Nat))
deriving DecidableEq

/-- Is a character more than itself in a class? -/
def special (a : Char) : Bool := a ∈ ['\\', '[', '^', '&', '~']

/-- The ranges of a class, up to its bracket. -/
def readRanges : List Char → Option (CharClass × List Char)
  | [] => none
  | ']' :: rest => some ([], rest)
  | a :: rest =>
    if special a then none
    else
      match rest with
      | '-' :: ']' :: rest => if a = '-' then none else some ([(a, a), ('-', '-')], rest)
      | '-' :: b :: rest =>
        -- two hyphens take a set away, and a range does not go down
        if a = '-' ∨ b = '-' ∨ special b ∨ b < a then none
        else (readRanges rest).map fun t => ((a, b) :: t.1, t.2)
      | rest => (readRanges rest).map fun t => ((a, a) :: t.1, t.2)

/-- A class, after its opening bracket: a closing one there would be a character. -/
def readClass : List Char → Option (CharClass × List Char)
  | ']' :: _ => none
  | text => readRanges text

/-- `n}` or `n,}`. -/
def readBounds (text : List Char) : Option ((Nat × Option Nat) × List Char) :=
  let digits := text.takeWhile Char.isDigit
  let n := Nat.ofDigitChars 10 digits 0
  if digits = [] then none
  else
    match text.dropWhile Char.isDigit with
    | '}' :: rest => some ((n, some n), rest)
    | ',' :: '}' :: rest => some ((n, none), rest)
    | _ => none

/-- How often a class is to be repeated, if it is. -/
def readCount : List Char → Option (Option (Nat × Option Nat) × List Char)
  | '*' :: rest => some (some (0, none), rest)
  | '{' :: rest => (readBounds rest).map fun t => (some t.1, t.2)
  | rest => some (none, rest)

/-- The tokens of a text; each takes at least one character. -/
def tokens : Nat → List Char → Option (List Token)
  | 0, _ => none
  | _ + 1, [] => some []
  | n + 1, '(' :: '?' :: ':' :: rest => (tokens n rest).map (.open_ :: ·)
  | n + 1, ')' :: rest => (tokens n rest).map (.close :: ·)
  | n + 1, '|' :: rest => (tokens n rest).map (.bar :: ·)
  | n + 1, '\\' :: 'b' :: rest => (tokens n rest).map (.edge :: ·)
  | n + 1, '\\' :: a :: rest =>
    if a.isAlphanum then none
    else (readCount rest).bind fun t => (tokens n t.2).map (.one [(a, a)] t.1 :: ·)
  | n + 1, '[' :: rest =>
    (readClass rest).bind fun c => (readCount c.2).bind fun t =>
      (tokens n t.2).map (.one c.1 t.1 :: ·)
  | n + 1, a :: rest =>
    if a ∈ ['\\', '(', '*', '+', '?', '{', '}', ']', '.', '^', '$'] then none
    else (readCount rest).bind fun t => (tokens n t.2).map (.one [(a, a)] t.1 :: ·)

/-- The alternatives before the last one, if any, and the last. -/
def join (alts : Option (Pattern CharClass)) (p : Pattern CharClass) : Pattern CharClass :=
  match alts with
  | none => p
  | some alts => .alt alts p

/-- The pattern of some tokens: the alternatives of the group that is open and what there is of the
last one, and the same of the groups around it. -/
def build : List Token → Option (Pattern CharClass) → Pattern CharClass →
    List (Option (Pattern CharClass) × Pattern CharClass) → Option (Pattern CharClass)
  | [], alts, p, [] => some (join alts p)
  | [], _, _, _ :: _ => none
  | .open_ :: ts, alts, p, groups => build ts none .empty ((alts, p) :: groups)
  | .close :: ts, alts, p, (alts', p') :: groups => build ts alts' (.seq p' (join alts p)) groups
  | .close :: _, _, _, [] => none
  | .bar :: ts, alts, p, groups => build ts (some (join alts p)) .empty groups
  | .edge :: ts, alts, p, groups => build ts alts (.seq p .edge) groups
  | .one c none :: ts, alts, p, groups => build ts alts (.seq p (.one c)) groups
  | .one c (some (least, most)) :: ts, alts, p, groups =>
    build ts alts (.seq p (.many c least most)) groups

/-- The pattern that a text stands for. -/
def read (text : String) : Option (Pattern CharClass) :=
  (tokens (text.toList.length + 1) text.toList).bind fun ts => build ts none .empty []

/-! ## Literals -/

/-- The pattern, and then some text. -/
def lit (p : Pattern CharClass) (text : List Char) : Pattern CharClass :=
  text.foldl (fun p a => .seq p (.one [(a, a)])) p

variable {word : Char → Bool} {p : Pattern CharClass} {before m after : List Char} {a b : Char}

theorem CharClass.holds_single : CharClass.holds [(a, a)] b = true ↔ b = a := by
  simp only [CharClass.holds, List.any_cons, List.any_nil, Bool.or_false, Bool.and_eq_true,
    decide_eq_true_eq]
  exact ⟨fun h => Char.le_antisymm h.2 h.1, fun h => by simp [h]⟩

theorem matches_lit {text : List Char} : (Alphabet.chars word).Matches (lit p text) before m after ↔
    ∃ m₁, m = m₁ ++ text ∧ (Alphabet.chars word).Matches p before m₁ (text ++ after) := by
  induction text generalizing p m with
  | nil => simp [lit]
  | cons a text ih =>
    show (Alphabet.chars word).Matches (lit (.seq p (.one [(a, a)])) text) before m after ↔ _
    rw [ih]
    constructor
    · rintro ⟨_, rfl, m₁, _, rfl, hp, b, hb, rfl⟩
      obtain rfl := CharClass.holds_single.1 hb
      exact ⟨m₁, List.append_assoc _ _ _, hp⟩
    · rintro ⟨m₁, rfl, hp⟩
      exact ⟨m₁ ++ [a], by rw [List.append_assoc, List.singleton_append], m₁, [a], rfl, hp, a,
        CharClass.holds_single.2 rfl, rfl⟩

/-! ## Words -/

/-- The words of a pattern that repeats nothing and asks for no edge. -/
def words : Pattern CharClass → Option (List (List Char))
  | .empty => some [[]]
  | .one c => if c.all (fun r => r.1 = r.2) then some (c.map fun r => [r.1]) else none
  | .seq p q => (words p).bind fun xs => (words q).map fun ys =>
      xs.flatMap fun x => ys.map (x ++ ·)
  | .alt p q => (words p).bind fun xs => (words q).map fun ys => xs ++ ys
  | .edge | .many _ _ _ => none

/-- The words of a pattern that asks for an edge before them. -/
def leads : Pattern CharClass → Option (List (List Char))
  | .seq .empty .edge => some [[]]
  | .seq p q => (leads p).bind fun xs => (words q).map fun ys =>
      xs.flatMap fun x => ys.map (x ++ ·)
  | _ => none

/-- A pattern without repetition and edges matches its words. -/
theorem matches_iff_mem_words {ws : List (List Char)} (h : words p = some ws) :
    (Alphabet.chars word).Matches p before m after ↔ m ∈ ws := by
  induction p generalizing before m after ws with
  | empty =>
    obtain rfl := Option.some.inj h
    exact List.mem_singleton.symm
  | one c =>
    rw [words] at h
    split at h
    · next hall =>
      obtain rfl := Option.some.inj h
      have hsame : ∀ r ∈ c, r.1 = r.2 := by simpa using hall
      simp only [Alphabet.Matches, Alphabet.chars, CharClass.holds, List.any_eq_true, List.mem_map,
        Bool.and_eq_true, decide_eq_true_eq]
      constructor
      · rintro ⟨a, ⟨r, hr, hle, hge⟩, rfl⟩
        exact ⟨r, hr, by rw [Char.le_antisymm hle (hsame r hr ▸ hge)]⟩
      · rintro ⟨r, hr, rfl⟩
        exact ⟨r.1, ⟨r, hr, Char.le_refl _, hsame r hr ▸ Char.le_refl _⟩, rfl⟩
    · cases h
  | seq p q ihp ihq =>
    rw [words] at h
    obtain ⟨xs, hxs, h⟩ := Option.bind_eq_some_iff.1 h
    obtain ⟨ys, hys, rfl⟩ := Option.map_eq_some_iff.1 h
    simp only [Alphabet.Matches, ihp hxs, ihq hys, List.mem_flatMap, List.mem_map]
    constructor
    · rintro ⟨x, y, rfl, hx, hy⟩
      exact ⟨x, hx, y, hy, rfl⟩
    · rintro ⟨x, hx, y, hy, rfl⟩
      exact ⟨x, y, rfl, hx, hy⟩
  | alt p q ihp ihq =>
    rw [words] at h
    obtain ⟨xs, hxs, h⟩ := Option.bind_eq_some_iff.1 h
    obtain ⟨ys, hys, rfl⟩ := Option.map_eq_some_iff.1 h
    rw [List.mem_append, ← ihp hxs, ← ihq hys]
    rfl
  | edge | many => cases h

/-- With an edge before them, it matches them where there is one. -/
theorem matches_iff_of_leads {ws : List (List Char)} (h : leads p = some ws) :
    (Alphabet.chars word).Matches p before m after ↔
      (Alphabet.chars word).edge before (m ++ after) = true ∧ m ∈ ws := by
  induction p generalizing before m after ws with
  | seq p q ihp =>
    unfold leads at h
    split at h
    · next heq =>
      obtain ⟨rfl, rfl⟩ := Pattern.seq.inj heq
      obtain rfl := Option.some.inj h
      simp only [Alphabet.Matches, List.mem_singleton]
      constructor
      · rintro ⟨_, _, rfl, rfl, rfl, hedge⟩
        exact ⟨by simpa using hedge, rfl⟩
      · rintro ⟨hedge, rfl⟩
        exact ⟨[], [], rfl, rfl, rfl, by simpa using hedge⟩
    · next heq =>
      obtain ⟨rfl, rfl⟩ := Pattern.seq.inj heq
      obtain ⟨xs, hxs, h⟩ := Option.bind_eq_some_iff.1 h
      obtain ⟨ys, hys, rfl⟩ := Option.map_eq_some_iff.1 h
      simp only [Alphabet.Matches, ihp hxs, matches_iff_mem_words hys, List.mem_flatMap,
        List.mem_map]
      constructor
      · rintro ⟨x, y, rfl, ⟨hedge, hx⟩, hy⟩
        exact ⟨by rwa [List.append_assoc], x, hx, y, hy, rfl⟩
      · rintro ⟨hedge, x, hx, y, hy, rfl⟩
        exact ⟨x, y, rfl, ⟨by rwa [List.append_assoc] at hedge, hx⟩, hy⟩
    · next h' => cases h
  | empty | one | edge | alt | many => cases h

end Pattern
