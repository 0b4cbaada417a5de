import Clipse.Clipboard.Patterns
import Mathlib.Data.List.Basic

/-!
# Web tokens in texts (`clipse-clipboard/src/sensitive/secrets.rs`)

The matches of the token pattern follow one another from left to right and take the text as they go,
so which headers `looks_like_jwt` decodes depends on what stands before them: of the segments between
the dots of a stretch of text, three in a row that are long enough are taken at a time.

* `findAll_jwt`: the headers of the matches are those that `tokenHeaders` lists.
* `header_mem_of_alone`: the header of a token that does not follow a symbol or a dot is one.
-/

namespace Clipse

/-- `[A-Za-z0-9_-]`. -/
def tokenSymbols : CharClass := [('A', 'Z'), ('a', 'z'), ('0', '9'), ('_', '_'), ('-', '-')]

/-- The stretches of symbols and dots in a text, each cut at its dots. -/
def dottedRuns (text : List Char) : List (List (List Char)) :=
  (text.splitOnP fun c => !(tokenSymbols.holds c || c == '.')).map (·.splitOn '.')

/-- The first of each three segments that are taken for a token. -/
def tokenHeaders : List (List Char) → List (List Char)
  | header :: payload :: signature :: segments =>
    if 10 ≤ header.length ∧ 10 ≤ payload.length ∧ 10 ≤ signature.length then
      header :: tokenHeaders segments
    else tokenHeaders (payload :: signature :: segments)
  | _ => []

/-! ## Segments -/

theorem tokenHeaders_nil_cons (segments : List (List Char)) :
    tokenHeaders ([] :: segments) = tokenHeaders segments := by
  rcases segments with - | ⟨p, - | ⟨s, segments⟩⟩
  · rfl
  · rfl
  · rw [tokenHeaders, if_neg (by simp)]

/-- All symbols of the class. -/
def IsSegment (s : List Char) : Prop := ∀ c ∈ s, tokenSymbols.holds c = true

theorem IsSegment.not_mem_dot {s : List Char} (hs : IsSegment s) : '.' ∉ s :=
  fun h => absurd (hs '.' h) (by decide)

variable {s rest : List Char} {b : Char}

theorem dottedRuns_segment (hs : IsSegment s) : dottedRuns s = [[s]] := by
  rw [dottedRuns, List.splitOnP_eq_singleton (fun c hc => by simp [hs c hc]), List.map_singleton,
    List.splitOn_eq_singleton hs.not_mem_dot]

theorem dottedRuns_break (hs : IsSegment s) (hb : tokenSymbols.holds b = false) (hdot : b ≠ '.') :
    dottedRuns (s ++ b :: rest) = [s] :: dottedRuns rest := by
  rw [dottedRuns, List.splitOnP_append_cons_of_forall_mem (fun c hc => by simp [hs c hc]) b
    (by simp [hb, hdot]), List.map_cons, List.splitOn_eq_singleton hs.not_mem_dot]
  rfl

/-- Nothing that belongs to a stretch ends one. -/
theorem splitOnP_append_of_forall {p : Char → Bool} (hs : ∀ c ∈ s, p c = false) :
    (s ++ rest).splitOnP p = (rest.splitOnP p).modifyHead (s ++ ·) := by
  induction s with
  | nil =>
    rw [List.nil_append]
    cases rest.splitOnP p <;> rfl
  | cons c s ih =>
    obtain ⟨hc, hs⟩ := List.forall_mem_cons.1 hs
    rw [List.cons_append, List.splitOnP_cons_eq_if_modifyHead, if_neg (by simp [hc]), ih hs,
      List.modifyHead_modifyHead]
    rfl

theorem dottedRuns_dot (hs : IsSegment s) :
    dottedRuns (s ++ '.' :: rest) = (dottedRuns rest).modifyHead (s :: ·) := by
  have hstretch : ∀ c ∈ s ++ ['.'], (!(tokenSymbols.holds c || c == '.')) = false := by
    intro c hc
    rcases List.mem_append.1 hc with hc | hc
    · simp [hs c hc]
    · simp [List.mem_singleton.1 hc]
  rw [dottedRuns, dottedRuns, List.append_cons, splitOnP_append_of_forall hstretch]
  cases List.splitOnP (fun c => !(tokenSymbols.holds c || c == '.')) rest with
  | nil => rfl
  | cons run runs =>
    rw [List.modifyHead_cons, List.map_cons, List.map_cons, List.modifyHead_cons,
      List.append_assoc, List.singleton_append,
      List.splitOn_append_cons_self_of_not_mem hs.not_mem_dot]

/-! ## Matches -/

/-- The pattern of a token. -/
def jwtPattern : Pattern CharClass :=
  .seq (.seq (.seq (.seq (.seq .empty (.many tokenSymbols 10 none)) (.one [('.', '.')]))
    (.many tokenSymbols 10 none)) (.one [('.', '.')])) (.many tokenSymbols 10 none)

theorem read_jwtRe : Pattern.read jwtRe = some jwtPattern := by decide +kernel

/-- A dot, a segment, a dot and a segment, both long enough. -/
def Follows (rest : List Char) : Prop :=
  ∃ payload signature after, rest = '.' :: (payload ++ '.' :: (signature ++ after)) ∧
    IsSegment payload ∧ IsSegment signature ∧ 10 ≤ payload.length ∧ 10 ≤ signature.length

/-- Where the text goes on with no symbol, its first segment is known. -/
theorem segment_unique {s' rest' : List Char} (hs : IsSegment s) (hs' : IsSegment s')
    (hrest : ∀ c ∈ rest.head?, tokenSymbols.holds c = false)
    (hrest' : ∀ c ∈ rest'.head?, tokenSymbols.holds c = false) (h : s ++ rest = s' ++ rest') :
    s = s' ∧ rest = rest' := by
  have htake : ∀ {s rest : List Char}, IsSegment s →
      (∀ c ∈ rest.head?, tokenSymbols.holds c = false) →
      (s ++ rest).takeWhile tokenSymbols.holds = s := by
    intro s rest hs hrest
    rw [List.takeWhile_append_of_pos hs]
    cases rest with
    | nil => simp
    | cons c rest => rw [List.takeWhile_cons_of_neg (by simp [hrest c rfl]), List.append_nil]
  have heq : s = s' := by rw [← htake hs hrest, h, htake hs' hrest']
  exact ⟨heq, List.append_cancel_left (heq ▸ h)⟩

theorem not_follows_nil : ¬ Follows [] := by
  rintro ⟨p, s, after, heq, -⟩
  cases heq

variable {before m after header payload signature : List Char}

section
variable [WordTable]

theorem matches_jwt : regexAlphabet.Matches jwtPattern before m after ↔
    ∃ header payload signature, m = header ++ '.' :: (payload ++ '.' :: signature) ∧
      IsSegment header ∧ IsSegment payload ∧ IsSegment signature ∧
      10 ≤ header.length ∧ 10 ≤ payload.length ∧ 10 ≤ signature.length := by
  simp only [jwtPattern, regexAlphabet, Alphabet.Matches, Alphabet.chars]
  constructor
  · rintro ⟨_, s, rfl, ⟨_, _, rfl, ⟨_, p, rfl, ⟨_, _, rfl, ⟨_, h, rfl, rfl, hh, hhl, -⟩, a, ha, rfl⟩,
      hp, hpl, -⟩, b, hb, rfl⟩, hs, hsl, -⟩
    obtain rfl := Pattern.CharClass.holds_single.1 ha
    obtain rfl := Pattern.CharClass.holds_single.1 hb
    exact ⟨h, p, s, by simp, hh, hp, hs, hhl, hpl, hsl⟩
  · rintro ⟨h, p, s, rfl, hh, hp, hs, hhl, hpl, hsl⟩
    have hdot : CharClass.holds [('.', '.')] '.' = true := Pattern.CharClass.holds_single.2 rfl
    exact ⟨h ++ '.' :: p ++ ['.'], s, by simp, ⟨h ++ '.' :: p, ['.'], rfl, ⟨h ++ ['.'], p, by simp,
      ⟨h, ['.'], rfl, ⟨[], h, rfl, rfl, hh, hhl, by simp⟩, '.', hdot, rfl⟩, hp, hpl, by simp⟩,
      '.', hdot, rfl⟩, hs, hsl, by simp⟩

/-- A match can begin with a segment only if it is long enough and two more follow it. -/
theorem ways_jwt_eq_nil (before : List Char) (hs : IsSegment s)
    (hrest : ∀ c ∈ rest.head?, tokenSymbols.holds c = false) (hno : ¬ (10 ≤ s.length ∧ Follows rest)) :
    regexAlphabet.ways jwtPattern before (s ++ rest) = [] := by
  by_contra hways
  obtain ⟨m, after, heq, hm⟩ := Alphabet.ways_ne_nil_iff.1 hways
  obtain ⟨h, p, g, rfl, hh, hp, hg, hhl, hpl, hgl⟩ := matches_jwt.1 hm
  rw [List.append_assoc] at heq
  obtain ⟨rfl, rfl⟩ := segment_unique hs hh hrest
    (fun c hc => by rw [← Option.some.inj hc]; decide) heq
  exact hno ⟨hhl, p, g, after, by simp, hp, hg, hpl, hgl⟩

/-- Three segments that are long enough are taken, the last one whole. -/
theorem head?_ways_jwt (before : List Char) (hh : IsSegment header) (hp : IsSegment payload)
    (hs : IsSegment signature) (hhl : 10 ≤ header.length) (hpl : 10 ≤ payload.length)
    (hsl : 10 ≤ signature.length)
    (hafter : ∀ c ∈ after.head?, tokenSymbols.holds c = false) :
    (regexAlphabet.ways jwtPattern before
      (header ++ '.' :: (payload ++ '.' :: (signature ++ after)))).head? =
        some (header ++ '.' :: (payload ++ '.' :: signature), after) := by
  have hdot : ∀ rest : List Char, ∀ c ∈ ('.' :: rest).head?, tokenSymbols.holds c = false := by
    intro rest c hc
    rw [← Option.some.inj hc]
    decide
  have hone : ∀ before rest : List Char,
      (regexAlphabet.ways (.one [('.', '.')]) before ('.' :: rest)).head? = some (['.'], rest) :=
    fun _ _ => Alphabet.head?_ways_one (show CharClass.holds [('.', '.')] '.' = true by decide)
  have hmany : ∀ {s rest : List Char} (before : List Char), IsSegment s → 10 ≤ s.length →
      (∀ c ∈ rest.head?, tokenSymbols.holds c = false) →
      (regexAlphabet.ways (.many tokenSymbols 10 none) before (s ++ rest)).head? = some (s, rest) :=
    fun _ hs hlen hrest => Alphabet.head?_ways_many hs hlen hrest
  have hempty : ∀ rest : List Char,
      (regexAlphabet.ways .empty before rest).head? = some ([], rest) := fun _ => rfl
  have hway := Alphabet.head?_ways_seq
    (Alphabet.head?_ways_seq (Alphabet.head?_ways_seq (Alphabet.head?_ways_seq
      (Alphabet.head?_ways_seq (hempty _) (hmany _ hh hhl (hdot _))) (hone _ _))
      (hmany _ hp hpl (hdot _))) (hone _ _)) (hmany _ hs hsl hafter)
  simpa [jwtPattern] using hway

/-! ## The scan -/

/-- Where no token begins, the search goes on behind the segment. -/
theorem findAll_segment (ended : Bool) (before : List Char) (hs : IsSegment s)
    (hrest : ∀ c ∈ rest.head?, tokenSymbols.holds c = false)
    (hno : ¬ (10 ≤ s.length ∧ Follows rest)) :
    ∃ ended', regexAlphabet.findAll jwtPattern 0 ended before (s ++ rest) =
      regexAlphabet.findAll jwtPattern 0 ended' (before ++ s) rest := by
  induction s generalizing before ended with
  | nil => exact ⟨ended, by rw [List.append_nil]; rfl⟩
  | cons c s ih =>
    have hnone := ways_jwt_eq_nil before hs hrest hno
    rw [List.cons_append] at hnone ⊢
    rw [Alphabet.findAll_of_none hnone]
    have hshort : ¬ (10 ≤ s.length ∧ Follows rest) :=
      fun h => hno ⟨le_trans h.1 (Nat.le_succ _), h.2⟩
    obtain ⟨ended', heq⟩ := ih false (before ++ [c])
      (fun a ha => hs a (List.mem_cons_of_mem c ha)) hshort
    exact ⟨ended', by rw [heq, List.append_assoc, List.singleton_append]⟩

/-- And behind the character that ends it. -/
theorem findAll_segment_cons (ended : Bool) (before : List Char) (hs : IsSegment s)
    (hb : tokenSymbols.holds b = false) (hno : ¬ (10 ≤ s.length ∧ Follows (b :: rest))) :
    ∃ ended' before', regexAlphabet.findAll jwtPattern 0 ended before (s ++ b :: rest) =
      regexAlphabet.findAll jwtPattern 0 ended' before' rest := by
  have hrest : ∀ c ∈ (b :: rest).head?, tokenSymbols.holds c = false :=
    fun c hc => Option.some.inj hc ▸ hb
  obtain ⟨ended', heq⟩ := findAll_segment ended before hs hrest hno
  have hnone : regexAlphabet.ways jwtPattern (before ++ s) (b :: rest) = [] :=
    ways_jwt_eq_nil (s := []) _ (fun c hc => absurd hc List.not_mem_nil) hrest
      (fun h => absurd h.1 (by decide))
  exact ⟨_, _, heq.trans (Alphabet.findAll_of_none hnone)⟩

end

/-! ## All headers -/

/-- The headers of the tokens in a text. -/
def headersIn (text : List Char) : List (List Char) := (dottedRuns text).flatMap tokenHeaders

/-- What begins with a segment has it first; what follows is listed as it is by itself. -/
theorem dottedRuns_append (hs : IsSegment s)
    (hrest : ∀ c ∈ rest.head?, tokenSymbols.holds c = false) :
    ∃ segments runs, dottedRuns (s ++ rest) = (s :: segments) :: runs ∧
      headersIn rest = tokenHeaders segments ++ runs.flatMap tokenHeaders := by
  have hnil : IsSegment [] := fun c hc => absurd hc List.not_mem_nil
  cases rest with
  | nil => exact ⟨[], [], by rw [List.append_nil, dottedRuns_segment hs], rfl⟩
  | cons b rest =>
    by_cases hdot : b = '.'
    · subst hdot
      obtain ⟨segments, runs, hruns⟩ : ∃ segments runs, dottedRuns rest = segments :: runs :=
        List.exists_cons_of_ne_nil fun h =>
          List.splitOnP_ne_nil _ rest (List.map_eq_nil_iff.1 h)
      refine ⟨segments, runs, by rw [dottedRuns_dot hs, hruns]; rfl, ?_⟩
      have hempty : dottedRuns ('.' :: rest) = ([] :: segments) :: runs := by
        rw [← List.nil_append ('.' :: rest), dottedRuns_dot hnil, hruns]
        rfl
      rw [headersIn, hempty, List.flatMap_cons, tokenHeaders_nil_cons]
    · have hb : tokenSymbols.holds b = false := hrest b rfl
      refine ⟨[], dottedRuns rest, dottedRuns_break hs hb hdot, ?_⟩
      have hempty : dottedRuns (b :: rest) = [[]] :: dottedRuns rest :=
        dottedRuns_break hnil hb hdot
      rw [headersIn, hempty, List.flatMap_cons]
      rfl

/-- A text begins with a segment, and then it ends, goes on behind a dot, or breaks off. -/
theorem exists_segment (text : List Char) : ∃ s rest, text = s ++ rest ∧ IsSegment s ∧
    ∀ c ∈ rest.head?, tokenSymbols.holds c = false := by
  induction text with
  | nil => exact ⟨[], [], rfl, by simp [IsSegment], by simp⟩
  | cons c text ih =>
    by_cases hc : tokenSymbols.holds c = true
    · obtain ⟨s, rest, rfl, hs, hrest⟩ := ih
      exact ⟨c :: s, rest, rfl, List.forall_mem_cons.2 ⟨hc, hs⟩, hrest⟩
    · refine ⟨[], c :: text, rfl, by simp [IsSegment], ?_⟩
      intro b hb
      rw [← Option.some.inj hb]
      simpa using hc

theorem headersIn_segment (hs : IsSegment s) : headersIn s = [] := by
  rw [headersIn, dottedRuns_segment hs]
  rfl

theorem headersIn_break (hs : IsSegment s) (hb : tokenSymbols.holds b = false) (hdot : b ≠ '.') :
    headersIn (s ++ b :: rest) = headersIn rest := by
  rw [headersIn, dottedRuns_break hs hb hdot, List.flatMap_cons]
  rfl

/-- Three segments that are long enough are a token. -/
theorem headersIn_token (hh : IsSegment header) (hp : IsSegment payload) (hs : IsSegment signature)
    (hhl : 10 ≤ header.length) (hpl : 10 ≤ payload.length) (hsl : 10 ≤ signature.length)
    (hafter : ∀ c ∈ after.head?, tokenSymbols.holds c = false) :
    headersIn (header ++ '.' :: (payload ++ '.' :: (signature ++ after))) =
      header :: headersIn after := by
  obtain ⟨segments, runs, hruns, hrest⟩ := dottedRuns_append hs hafter
  rw [headersIn, dottedRuns_dot hh, dottedRuns_dot hp, hruns, List.modifyHead_cons,
    List.modifyHead_cons, List.flatMap_cons, tokenHeaders, if_pos ⟨hhl, hpl, hsl⟩, hrest,
    List.cons_append]

/-- A segment that is followed by no two is no header. -/
theorem headersIn_dot (hs : IsSegment s) (hno : ¬ (10 ≤ s.length ∧ Follows ('.' :: rest))) :
    headersIn (s ++ '.' :: rest) = headersIn rest := by
  obtain ⟨p, rest', rfl, hp, hrest'⟩ := exists_segment rest
  obtain ⟨segments, runs, hruns, -⟩ := dottedRuns_append hp hrest'
  rw [headersIn, headersIn, dottedRuns_dot hs, hruns, List.modifyHead_cons, List.flatMap_cons,
    List.flatMap_cons]
  congr 1
  cases segments with
  | nil => rfl
  | cons g segments =>
    rw [tokenHeaders, if_neg]
    rintro ⟨hsl, hpl, hgl⟩
    cases rest' with
    | nil =>
      rw [List.append_nil, dottedRuns_segment hp] at hruns
      cases hruns
    | cons b rest' =>
      by_cases hdot : b = '.'
      · subst hdot
        obtain ⟨g', rest', rfl, hg', hrest'⟩ := exists_segment rest'
        obtain ⟨segments', runs', hruns', -⟩ := dottedRuns_append hg' hrest'
        rw [dottedRuns_dot hp, hruns'] at hruns
        obtain ⟨⟨rfl, -⟩, -⟩ : (g' = g ∧ segments' = segments) ∧ runs' = runs := by
          simpa using hruns
        exact hno ⟨hsl, p, g', rest', rfl, hp, hg', hpl, hgl⟩
      · rw [dottedRuns_break hp (hrest' b rfl) hdot] at hruns
        cases hruns

/-- What stands before a break is read by itself. -/
theorem headersIn_append_cons (hb : tokenSymbols.holds b = false) (hdot : b ≠ '.') :
    headersIn (before ++ b :: rest) = headersIn before ++ headersIn rest := by
  rw [headersIn, dottedRuns, List.splitOnP_append_cons _ _ (by simp [hb, hdot]), List.map_append,
    List.flatMap_append]
  rfl

/-- **A token that does not follow a symbol or a dot** is read as one, whatever comes after it. -/
theorem header_mem_of_alone (hh : IsSegment header) (hp : IsSegment payload)
    (hs : IsSegment signature) (hhl : 10 ≤ header.length) (hpl : 10 ≤ payload.length)
    (hsl : 10 ≤ signature.length)
    (hbefore : ∀ c ∈ before.getLast?, tokenSymbols.holds c = false ∧ c ≠ '.') :
    header ∈ headersIn
      (before ++ (header ++ '.' :: (payload ++ '.' :: signature)) ++ after) := by
  obtain ⟨more, after, rfl, hmore, hafter⟩ := exists_segment after
  have hsig : IsSegment (signature ++ more) := fun c hc =>
    (List.mem_append.1 hc).elim (hs c) (hmore c)
  have hsigl : 10 ≤ (signature ++ more).length := by rw [List.length_append]; omega
  have htoken : header ∈ headersIn
      (header ++ '.' :: (payload ++ '.' :: ((signature ++ more) ++ after))) := by
    rw [headersIn_token hh hp hsig hhl hpl hsigl hafter]
    exact List.mem_cons_self
  have htext : before ++ (header ++ '.' :: (payload ++ '.' :: signature)) ++ (more ++ after) =
      before ++ (header ++ '.' :: (payload ++ '.' :: ((signature ++ more) ++ after))) := by
    simp
  rw [htext]
  rcases List.eq_nil_or_concat before with rfl | ⟨before, b, rfl⟩
  · exact htoken
  · rw [List.concat_eq_append] at hbefore ⊢
    obtain ⟨hb, hdot⟩ := hbefore b List.getLast?_concat
    rw [List.append_assoc, List.singleton_append, headersIn_append_cons hb hdot]
    exact List.mem_append_right _ htoken

variable [WordTable]

/-- **The headers of the matches** are those of the tokens in the text. -/
theorem findAll_jwt (ended : Bool) (before text : List Char) :
    (regexAlphabet.findAll jwtPattern 0 ended before text).map (·.takeWhile (· ≠ '.')) =
      headersIn text := by
  induction hn : text.length using Nat.strong_induction_on generalizing ended before text with
  | _ n ih =>
    subst hn
    obtain ⟨s, rest, rfl, hs, hrest⟩ := exists_segment text
    cases rest with
    | nil =>
      obtain ⟨ended', heq⟩ := findAll_segment ended before hs hrest
        (fun h => not_follows_nil h.2)
      have hnone : regexAlphabet.ways jwtPattern (before ++ s) [] = [] :=
        ways_jwt_eq_nil (s := []) _ (fun c hc => absurd hc List.not_mem_nil) hrest
          (fun h => absurd h.1 (by decide))
      rw [heq, Alphabet.findAll_nil hnone, List.append_nil, headersIn_segment hs]
      rfl
    | cons b rest =>
      have hb : tokenSymbols.holds b = false := hrest b rfl
      have hshorter : rest.length < (s ++ b :: rest).length := by simp; omega
      by_cases hmatch : 10 ≤ s.length ∧ Follows (b :: rest)
      · obtain ⟨hsl, p, g, after, heq, hp, hg, hpl, hgl⟩ := hmatch
        -- The last segment is taken as far as it goes.
        obtain ⟨g', after, rfl, hg', hafter⟩ := exists_segment after
        have hsig : IsSegment (g ++ g') := fun c hc =>
          (List.mem_append.1 hc).elim (hg c) (hg' c)
        have hsigl : 10 ≤ (g ++ g').length := by rw [List.length_append]; omega
        rw [← List.append_assoc g] at heq
        obtain ⟨ts, hts⟩ := List.head?_eq_some_iff.1
          (head?_ways_jwt before hs hp hsig hsl hpl hsigl hafter)
        have hlen : after.length < (s ++ b :: rest).length := by
          rw [heq]
          simp
          omega
        rw [heq, Alphabet.findAll_of_ways hts (by simp), List.map_cons,
          ih _ hlen _ _ _ rfl, headersIn_token hs hp hsig hsl hpl hsigl hafter]
        congr 1
        rw [List.takeWhile_append_of_pos (fun c hc => by
          simpa using ne_of_mem_of_not_mem hc hs.not_mem_dot)]
        simp
      · obtain ⟨ended', before', heq⟩ :=
          findAll_segment_cons ended before hs hb hmatch
        rw [heq, ih _ hshorter _ _ _ rfl]
        by_cases hdot : b = '.'
        · subst hdot
          exact (headersIn_dot hs hmatch).symm
        · exact (headersIn_break hs hb hdot).symm

end Clipse
