import Mathlib.Data.List.Basic

/-!
# Patterns in texts

Regular expressions in which only classes of characters are repeated, with the edges of words, and
the matcher that looks for them from left to right: of the matches that begin at one place it takes
the one written first, and the longest repetition.

* `Matches`: what a pattern says of a stretch of a text and of what stands around it.
* `mem_ways`: the matcher tries all matches, and nothing else; `found_iff_occurs`: it finds one if
  there is one.
* `findAll_of_ways`, `findAll_of_none`: the matches in a text, one after the other.
* `head?_ways_seq`, `head?_ways_many`: the match that it takes.
-/

/-- Patterns over the classes `σ`. -/
inductive Pattern (σ : Type*) where
  | empty
  | one (c : σ)
  /-- The edge of a word. -/
  | edge
  | seq (p q : Pattern σ)
  | alt (p q : Pattern σ)
  /-- At least so many of a class, and at most so many. -/
  | many (c : σ) (least : Nat) (most : Option Nat)
deriving DecidableEq

/-- What is in a class, and what words are made of. -/
structure Alphabet (σ α : Type*) where
  holds : σ → α → Bool
  word : α → Bool

namespace Alphabet

variable {σ α : Type*} (A : Alphabet σ α)

/-- A word ends or begins between the two parts of a text. -/
def edge (before after : List α) : Bool := before.getLast?.any A.word != after.head?.any A.word

/-- The pattern matches the middle one of three parts of a text. -/
def Matches : Pattern σ → List α → List α → List α → Prop
  | .empty, _, m, _ => m = []
  | .one c, _, m, _ => ∃ a, A.holds c a = true ∧ m = [a]
  | .edge, before, m, after => m = [] ∧ A.edge before after = true
  | .seq p q, before, m, after => ∃ m₁ m₂, m = m₁ ++ m₂ ∧
      Matches p before m₁ (m₂ ++ after) ∧ Matches q (before ++ m₁) m₂ after
  | .alt p q, before, m, after => Matches p before m after ∨ Matches q before m after
  | .many c least most, _, m, _ =>
      (∀ a ∈ m, A.holds c a = true) ∧ least ≤ m.length ∧ ∀ n ∈ most, m.length ≤ n

/-- The pattern matches somewhere in the text. -/
def Occurs (p : Pattern σ) (text : List α) : Prop :=
  ∃ before m after, text = before ++ m ++ after ∧ A.Matches p before m after

/-! ## The matcher -/

/-- What a repetition may take of a text and what it leaves, the longest first. -/
def runs (c : σ) : Option Nat → List α → List (List α × List α)
  | _, [] => [([], [])]
  | most, a :: rest =>
    if most ≠ some 0 ∧ A.holds c a = true then
      (runs c (most.map (· - 1)) rest).map (fun t => (a :: t.1, t.2)) ++ [([], a :: rest)]
    else [([], a :: rest)]

/-- What a pattern may take of a text and what it leaves, in the order in which it is tried. -/
def ways : Pattern σ → List α → List α → List (List α × List α)
  | .empty, _, rest => [([], rest)]
  | .one c, _, a :: rest => if A.holds c a then [([a], rest)] else []
  | .one _, _, [] => []
  | .edge, before, rest => if A.edge before rest then [([], rest)] else []
  | .seq p q, before, rest =>
    (ways p before rest).flatMap fun t =>
      (ways q (before ++ t.1) t.2).map fun u => (t.1 ++ u.1, u.2)
  | .alt p q, before, rest => ways p before rest ++ ways q before rest
  | .many c least most, _, rest => (A.runs c most rest).filter (least ≤ ·.1.length)

/-- There is a match in what is left of a text. -/
def found (p : Pattern σ) : List α → List α → Bool
  | before, [] => A.ways p before [] ≠ []
  | before, a :: rest => A.ways p before (a :: rest) ≠ [] || found p (before ++ [a]) rest

/-- The matches in what is left of a text after some characters, which the last match has taken;
`ended` if it ends with them. An empty match where another one ends does not count. -/
def findAll (p : Pattern σ) : Nat → Bool → List α → List α → List (List α)
  | 0, ended, before, [] => if A.ways p before [] = [] ∨ ended = true then [] else [[]]
  | _ + 1, _, _, [] => []
  | skip + 1, ended, before, a :: rest => findAll p skip ended (before ++ [a]) rest
  | 0, ended, before, a :: rest =>
    match A.ways p before (a :: rest) with
    | [] => findAll p 0 false (before ++ [a]) rest
    | ([], _) :: _ =>
      if ended then findAll p 0 false (before ++ [a]) rest
      else [] :: findAll p 0 false (before ++ [a]) rest
    | (b :: m, _) :: _ => (b :: m) :: findAll p m.length true (before ++ [a]) rest

variable {A} {c d : σ} {p q : Pattern σ} {a : α} {before rest m after : List α}

/-! ## What it tries -/

theorem mem_runs {most : Option Nat} : (m, after) ∈ A.runs c most rest ↔
    rest = m ++ after ∧ (∀ a ∈ m, A.holds c a = true) ∧ ∀ n ∈ most, m.length ≤ n := by
  induction rest generalizing most m with
  | nil =>
    simp only [runs, List.mem_singleton, Prod.mk.injEq, List.nil_eq_append_iff]
    constructor
    · rintro ⟨rfl, rfl⟩
      simp
    · exact fun h => h.1
  | cons a rest ih =>
    rw [runs]
    cases m with
    | nil =>
      refine Iff.trans (b := after = a :: rest) ?_
        ⟨fun h => ⟨h.symm, by simp, by simp⟩, fun h => h.1.symm⟩
      split
      · simp
      · simp
    | cons b m =>
      by_cases h : most ≠ some 0 ∧ A.holds c a = true
      · have hmost : (∀ n ∈ most.map (· - 1), m.length ≤ n) ↔ ∀ n ∈ most, m.length + 1 ≤ n := by
          cases most with
          | none => simp
          | some n =>
            have hpos : n ≠ 0 := fun h0 => h.1 (by rw [h0])
            simp only [Option.map_some, Option.mem_some_iff, forall_eq']
            omega
        rw [if_pos h, List.mem_append, List.mem_map]
        simp only [Prod.exists, Prod.mk.injEq, List.cons.injEq, List.mem_singleton, reduceCtorEq,
          false_and, or_false, List.cons_append, List.forall_mem_cons, List.length_cons, ← hmost]
        constructor
        · rintro ⟨m', after', hmem, ⟨rfl, rfl⟩, rfl⟩
          obtain ⟨hrest, hall, hlen⟩ := ih.1 hmem
          exact ⟨⟨rfl, hrest⟩, ⟨h.2, hall⟩, hlen⟩
        · rintro ⟨⟨rfl, hrest⟩, ⟨-, hall⟩, hlen⟩
          exact ⟨m, after, ih.2 ⟨hrest, hall, hlen⟩, ⟨rfl, rfl⟩, rfl⟩
      · rw [if_neg h]
        simp only [List.mem_singleton, Prod.mk.injEq, reduceCtorEq, false_and, false_iff]
        rintro ⟨heq, hall, hlen⟩
        obtain ⟨rfl, -⟩ := List.cons.inj heq
        refine h ⟨?_, hall a List.mem_cons_self⟩
        rintro rfl
        exact absurd (hlen 0 rfl) (by simp)

/-- **The matcher tries all matches**, and nothing else. -/
theorem mem_ways : (m, after) ∈ A.ways p before rest ↔
    rest = m ++ after ∧ A.Matches p before m after := by
  induction p generalizing before rest m after with
  | empty =>
    simp only [ways, Matches, List.mem_singleton, Prod.mk.injEq]
    constructor
    · rintro ⟨rfl, rfl⟩
      exact ⟨rfl, rfl⟩
    · rintro ⟨rfl, rfl⟩
      exact ⟨rfl, rfl⟩
  | one c =>
    cases rest with
    | nil =>
      refine iff_of_false List.not_mem_nil ?_
      rintro ⟨heq, a, -, rfl⟩
      cases heq
    | cons a rest =>
      rw [ways]
      split
      · next h =>
        simp only [Matches, List.mem_singleton, Prod.mk.injEq]
        constructor
        · rintro ⟨rfl, rfl⟩
          exact ⟨rfl, a, h, rfl⟩
        · rintro ⟨heq, b, -, rfl⟩
          obtain ⟨rfl, rfl⟩ := List.cons.inj heq
          exact ⟨rfl, rfl⟩
      · next h =>
        refine iff_of_false List.not_mem_nil ?_
        rintro ⟨heq, b, hb, rfl⟩
        obtain ⟨rfl, -⟩ := List.cons.inj heq
        exact h hb
  | edge =>
    rw [ways]
    split
    · next h =>
      simp only [Matches, List.mem_singleton, Prod.mk.injEq]
      constructor
      · rintro ⟨rfl, rfl⟩
        exact ⟨rfl, rfl, h⟩
      · rintro ⟨heq, rfl, -⟩
        exact ⟨rfl, heq.symm⟩
    · next h =>
      refine iff_of_false List.not_mem_nil ?_
      rintro ⟨heq, rfl, hedge⟩
      rw [List.nil_append] at heq
      exact h (heq ▸ hedge)
  | seq p q ihp ihq =>
    simp only [ways, Matches, List.mem_flatMap, List.mem_map, Prod.exists, Prod.mk.injEq]
    constructor
    · rintro ⟨m₁, rest₁, hp, m₂, after₂, hq, rfl, rfl⟩
      obtain ⟨rfl, hm₁⟩ := ihp.1 hp
      obtain ⟨rfl, hm₂⟩ := ihq.1 hq
      exact ⟨(List.append_assoc _ _ _).symm, m₁, m₂, rfl, hm₁, hm₂⟩
    · rintro ⟨rfl, m₁, m₂, rfl, hm₁, hm₂⟩
      exact ⟨m₁, m₂ ++ after, ihp.2 ⟨List.append_assoc _ _ _, hm₁⟩, m₂, after,
        ihq.2 ⟨rfl, hm₂⟩, rfl, rfl⟩
  | alt p q ihp ihq =>
    rw [ways, List.mem_append, ihp, ihq, ← and_or_left]
    rfl
  | many c least most =>
    rw [ways, List.mem_filter, mem_runs]
    simp only [Matches, decide_eq_true_eq]
    tauto

theorem ways_ne_nil_iff : A.ways p before rest ≠ [] ↔
    ∃ m after, rest = m ++ after ∧ A.Matches p before m after := by
  constructor
  · intro h
    obtain ⟨⟨m, after⟩, hmem⟩ := List.exists_mem_of_ne_nil _ h
    exact ⟨m, after, mem_ways.1 hmem⟩
  · rintro ⟨m, after, h⟩
    exact List.ne_nil_of_mem (mem_ways.2 h)

theorem found_iff_of_left : A.found p before rest = true ↔
    ∃ left m after, rest = left ++ m ++ after ∧ A.Matches p (before ++ left) m after := by
  induction rest generalizing before with
  | nil =>
    rw [found, decide_eq_true_eq, ways_ne_nil_iff]
    constructor
    · rintro ⟨m, after, heq, hm⟩
      exact ⟨[], m, after, heq, by rwa [List.append_nil]⟩
    · rintro ⟨left, m, after, heq, hm⟩
      obtain ⟨hleft, rfl⟩ := List.append_eq_nil_iff.1 heq.symm
      obtain ⟨rfl, rfl⟩ := List.append_eq_nil_iff.1 hleft
      rw [List.append_nil] at hm
      exact ⟨[], [], rfl, hm⟩
  | cons a rest ih =>
    rw [found, Bool.or_eq_true, decide_eq_true_eq, ways_ne_nil_iff, ih]
    constructor
    · rintro (⟨m, after, heq, hm⟩ | ⟨left, m, after, rfl, hm⟩)
      · exact ⟨[], m, after, heq, by rwa [List.append_nil]⟩
      · exact ⟨a :: left, m, after, rfl, by rwa [List.append_assoc] at hm⟩
    · rintro ⟨left, m, after, heq, hm⟩
      cases left with
      | nil =>
        rw [List.append_nil] at hm
        exact .inl ⟨m, after, heq, hm⟩
      | cons b left =>
        obtain ⟨rfl, rfl⟩ := List.cons.inj heq
        exact .inr ⟨left, m, after, rfl, by rwa [List.append_assoc]⟩

/-- **The matcher finds a match** if there is one. -/
theorem found_iff_occurs : A.found p [] rest = true ↔ A.Occurs p rest := found_iff_of_left

/-! ## One match after the other -/

/-- The characters that a match has taken are passed over. -/
theorem findAll_skip {ended : Bool} : A.findAll p m.length ended before (m ++ rest) =
    A.findAll p 0 ended (before ++ m) rest := by
  induction m generalizing before with
  | nil => rw [List.append_nil]; rfl
  | cons a m ih =>
    rw [List.length_cons, List.cons_append, findAll, ih, List.append_assoc, List.singleton_append]

/-- A match that is tried first is the next one. -/
theorem findAll_of_ways {ended : Bool} {ts : List (List α × List α)}
    (h : A.ways p before rest = (m, after) :: ts) (hm : m ≠ []) :
    A.findAll p 0 ended before rest = m :: A.findAll p 0 true (before ++ m) after := by
  have hrest : rest = m ++ after := (mem_ways.1 (h ▸ List.mem_cons_self)).1
  cases m with
  | nil => exact absurd rfl hm
  | cons b m =>
    subst hrest
    rw [List.cons_append] at h ⊢
    rw [findAll, h]
    dsimp only
    rw [findAll_skip, List.append_assoc, List.singleton_append]

/-- Where nothing matches the search goes on. -/
theorem findAll_of_none {ended : Bool} (h : A.ways p before (a :: rest) = []) :
    A.findAll p 0 ended before (a :: rest) = A.findAll p 0 false (before ++ [a]) rest := by
  rw [findAll, h]

theorem findAll_nil {ended : Bool} (h : A.ways p before [] = []) :
    A.findAll p 0 ended before [] = [] := by
  rw [findAll, if_pos (.inl h)]

/-! ## What it tries first -/

theorem head?_ways_one (h : A.holds c a = true) :
    (A.ways (.one c) before (a :: rest)).head? = some ([a], rest) := by
  rw [ways, if_pos h]
  rfl

theorem head?_ways_seq {m₁ m₂ rest₁ : List α} (hp : (A.ways p before rest).head? = some (m₁, rest₁))
    (hq : (A.ways q (before ++ m₁) rest₁).head? = some (m₂, after)) :
    (A.ways (.seq p q) before rest).head? = some (m₁ ++ m₂, after) := by
  obtain ⟨ts, hts⟩ := List.head?_eq_some_iff.1 hp
  obtain ⟨us, hus⟩ := List.head?_eq_some_iff.1 hq
  rw [ways, hts, List.flatMap_cons, hus]
  rfl

theorem head?_runs (hm : ∀ a ∈ m, A.holds c a = true)
    (hafter : ∀ a ∈ after.head?, A.holds c a = false) :
    (A.runs c none (m ++ after)).head? = some (m, after) := by
  induction m with
  | nil =>
    cases after with
    | nil => rfl
    | cons a after =>
      have ha : ¬ A.holds c a = true := by simp [hafter a rfl]
      rw [List.nil_append, runs, if_neg fun h => ha h.2]
      rfl
  | cons a m ih =>
    obtain ⟨ha, hm⟩ := List.forall_mem_cons.1 hm
    rw [List.cons_append, runs, if_pos ⟨by simp, ha⟩, List.head?_append, List.head?_map,
      Option.map_none, ih hm]
    rfl

/-- The longest repetition comes first. -/
theorem head?_ways_many {least : Nat} (hm : ∀ a ∈ m, A.holds c a = true) (hleast : least ≤ m.length)
    (hafter : ∀ a ∈ after.head?, A.holds c a = false) :
    (A.ways (.many c least none) before (m ++ after)).head? = some (m, after) := by
  obtain ⟨ts, hts⟩ := List.head?_eq_some_iff.1 (head?_runs hm hafter)
  rw [ways, hts, List.filter_cons_of_pos (by simpa using hleast)]
  rfl

end Alphabet
