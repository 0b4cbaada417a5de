import Clipse.App.Fuzzy
import Clipse.Lib.Subsequence

/-!
# What the fuzzy matcher finds

The matcher takes the leftmost places in the lower-case copy of the text (`fuzzyMatch_eq`), so it
finds a query just if its copy is a subsequence of it. The places are right in the text itself if
and only if the query has no capital I with a dot, and what the text's copy holds of the query
stands in it where the text has it (`fuzzyMatch_exact_iff`).
-/

namespace Clipse

open Case Subsequence

variable [Case.Unicode]

/-- The lower-case copy of a text, without the units that are not at the place where the text has
them. -/
def inPlace (text : List UInt16) : List (Option UInt16) :=
  (toLowerCase text).mapIdx fun p u => if (places text)[p]? = some [u] then some u else none

/-- A query is found just if its lower-case copy is a subsequence of the text's, and then at
increasing places of the text, one for each unit of the query, which it equals there up to case. -/
def FuzzyExact (query text : List UInt16) : Prop :=
  (fuzzyMatch query text = none ↔ ¬ (toLowerCase query).Sublist (toLowerCase text)) ∧
    ∀ m, fuzzyMatch query text = some m →
      m.indices.Pairwise (· < ·) ∧ (∀ i ∈ m.indices, i < text.length) ∧
        m.indices.length = query.length ∧
        ∀ (k i : Nat), m.indices[k]? = some i → (places text)[i]? = (places query)[k]?

/-- The query, if the text has it at all, has no capital I with a dot, and whatever start of it a
start of the text's lower-case copy holds, it holds where the text has it. -/
def FoundInPlace (query text : List UInt16) : Prop :=
  (toLowerCase query).Sublist (toLowerCase text) →
    UInt16.ofNat dottedI ∉ query ∧ InPlainSight (toLowerCase query) (toLowerCase text) (inPlace text)

omit [Case.Unicode] in
theorem fuzzyLoop_eq (t : List UInt16) (ti : Nat) (before : Option UInt16) (m : FuzzyLoop) :
    (fuzzyLoop t ti before m).indices = m.indices ++ (leftmost m.rest t ti).1 ∧
      (fuzzyLoop t ti before m).rest = (leftmost m.rest t ti).2 := by
  induction t generalizing ti before m with
  | nil => simp [fuzzyLoop]
  | cons u t ih =>
    rw [fuzzyLoop]
    split
    · next h => simp [h]
    · next v rest h =>
      rw [h]
      split
      · next huv =>
        rw [leftmost_cons_ne huv, ← h]
        exact ih (ti + 1) (some u) m
      · next huv =>
        obtain rfl := not_not.mp huv
        obtain ⟨hi, hr⟩ := ih (ti + 1) (some u) (m.found rest ti before)
        rw [leftmost_cons_eq, hi, hr]
        simp [FuzzyLoop.found]

theorem toLowerCase_eq_nil (hu : Case.Unicode.Documented) {text : List UInt16} :
    toLowerCase text = [] ↔ text = [] := by
  have := length_toLowerCase hu text
  rw [← List.length_eq_zero_iff, ← List.length_eq_zero_iff]
  refine ⟨by omega, fun h => ?_⟩
  rw [List.length_eq_zero_iff] at h
  rw [h]
  rfl

/-- The matcher finds the leftmost places in the lower-case copy of the text. -/
theorem fuzzyMatch_eq (hu : Case.Unicode.Documented) (query text : List UInt16) :
    (fuzzyMatch query text).map (·.indices) =
      if (leftmost (toLowerCase query) (toLowerCase text) 0).2 = [] then
        some (leftmost (toLowerCase query) (toLowerCase text) 0).1
      else none := by
  unfold fuzzyMatch
  split
  · next h =>
    rw [List.length_eq_zero_iff.mp h]
    simp [toLowerCase, codePoints, lowerings]
  · next hq =>
    split
    · next ht =>
      rw [List.length_eq_zero_iff.mp ht, if_neg]
      · rfl
      · rw [leftmost_rest_eq_nil, (toLowerCase_eq_nil hu).mpr rfl, List.sublist_nil,
          toLowerCase_eq_nil hu]
        exact fun h => hq (List.length_eq_zero_iff.mpr h)
    · obtain ⟨hi, hr⟩ := fuzzyLoop_eq (toLowerCase text) 0 none
        { rest := toLowerCase query, indices := [], score := 0, previousMatch := -2, run := 0 }
      simp only [ne_eq, hr, hi, ite_not, List.nil_append]
      split <;> rfl

theorem fuzzyMatch_eq_none (hu : Case.Unicode.Documented) (query text : List UInt16) :
    fuzzyMatch query text = none ↔ ¬ (toLowerCase query).Sublist (toLowerCase text) := by
  rw [← Option.map_eq_none_iff (f := (·.indices)), fuzzyMatch_eq hu, ← leftmost_rest_eq_nil _ _ 0]
  split <;> simp_all

theorem indices_of_fuzzyMatch (hu : Case.Unicode.Documented) {query text : List UInt16} {m : FuzzyMatch}
    (h : fuzzyMatch query text = some m) :
    (toLowerCase query).Sublist (toLowerCase text) ∧
      m.indices = (leftmost (toLowerCase query) (toLowerCase text) 0).1 := by
  have he := fuzzyMatch_eq hu query text
  rw [h] at he
  split at he
  · next hr => exact ⟨(leftmost_rest_eq_nil _ _ _).mp hr, Option.some.inj he⟩
  · cases he

theorem getElem?_inPlace {text : List UInt16} {p : Nat} {u : UInt16}
    (h : (toLowerCase text)[p]? = some u) :
    (inPlace text)[p]? = some (some u) ↔ (places text)[p]? = some [u] := by
  rw [inPlace, List.getElem?_mapIdx, h]
  simp

theorem blotted_inPlace (text : List UInt16) : Blotted (inPlace text) (toLowerCase text) := by
  refine List.forall₂_iff_get.mpr ⟨List.length_mapIdx, fun p hp _ => ?_⟩
  simp only [inPlace, List.get_eq_getElem, List.getElem_mapIdx]
  split
  · exact .inl rfl
  · exact .inr rfl

/-- For a query that is found and has no capital I with a dot, the places are the right ones if and
only if they are in plain sight. -/
theorem leftmost_right_iff (hu : Case.Unicode.Documented) {query text : List UInt16}
    (hs : (toLowerCase query).Sublist (toLowerCase text)) (hd : UInt16.ofNat dottedI ∉ query) :
    ((∀ i ∈ (leftmost (toLowerCase query) (toLowerCase text) 0).1, i < text.length) ∧
        (leftmost (toLowerCase query) (toLowerCase text) 0).1.length = query.length ∧
        ∀ (k i : Nat), (leftmost (toLowerCase query) (toLowerCase text) 0).1[k]? = some i →
          (places text)[i]? = (places query)[k]?) ↔
      InPlainSight (toLowerCase query) (toLowerCase text) (inPlace text) := by
  have hplace : ∀ {k i : Nat} {u : UInt16}, (toLowerCase query)[k]? = some u →
      (toLowerCase text)[i]? = some u →
      ((places text)[i]? = (places query)[k]? ↔ (inPlace text)[i]? = some (toLowerCase query)[k]?) := by
    intro k i u hk hi
    rw [places_eq_map hu hd, List.getElem?_map, hk, getElem?_inPlace hi]
    rfl
  rw [← forall_leftmost_iff (blotted_inPlace text) 0]
  constructor
  · rintro ⟨-, -, h⟩ k p hk
    obtain ⟨j, u, hj, htj, hqk⟩ := getElem?_leftmost hk
    obtain rfl : p = j := by omega
    exact ⟨p, hj, (hplace hqk htj).mp (h k p hk)⟩
  · intro h
    have hright : ∀ (k i : Nat),
        (leftmost (toLowerCase query) (toLowerCase text) 0).1[k]? = some i →
          (places text)[i]? = (places query)[k]? ∧ k < query.length := by
      intro k i hk
      obtain ⟨j, u, hj, htj, hqk⟩ := getElem?_leftmost hk
      obtain ⟨j', hj', hsight⟩ := h k i hk
      obtain rfl : i = j := by omega
      obtain rfl : i = j' := by omega
      refine ⟨(hplace hqk htj).mpr hsight, ?_⟩
      rw [← length_places query, places_eq_map hu hd, List.length_map]
      exact (List.getElem?_eq_some_iff.mp hqk).1
    refine ⟨fun i hi => ?_, ?_, fun k i hk => (hright k i hk).1⟩
    · obtain ⟨k, hk⟩ := List.getElem?_of_mem hi
      obtain ⟨heq, hlt⟩ := hright k i hk
      rw [← length_places query] at hlt
      rw [List.getElem?_eq_getElem hlt] at heq
      exact length_places text ▸ (List.getElem?_eq_some_iff.mp heq).1
    · have hlen := length_leftmost (toLowerCase query) (toLowerCase text) 0
      rw [(leftmost_rest_eq_nil _ _ _).mpr hs, List.length_nil] at hlen
      rw [← length_places query, places_eq_map hu hd, List.length_map]
      exact hlen

/-- The matcher is exact if and only if what it finds of the query stands in place. -/
theorem fuzzyMatch_exact_iff (hu : Case.Unicode.Documented) (query text : List UInt16) :
    FuzzyExact query text ↔ FoundInPlace query text := by
  unfold FuzzyExact FoundInPlace
  rw [and_iff_right (fuzzyMatch_eq_none hu query text)]
  by_cases hs : (toLowerCase query).Sublist (toLowerCase text)
  · obtain ⟨m, hm⟩ := Option.ne_none_iff_exists'.mp
      (fun h => (fuzzyMatch_eq_none hu query text).mp h hs)
    have hi := (indices_of_fuzzyMatch hu hm).2
    simp only [hm, Option.some.injEq, forall_eq', hi, hs, true_imp_iff]
    rw [and_iff_right (pairwise_leftmost _ _ _)]
    by_cases hd : UInt16.ofNat dottedI ∈ query
    · -- the query's copy is longer than the query
      refine ⟨fun h => absurd h.2.1 ?_, fun h => absurd hd h.1⟩
      have hlen := length_leftmost (toLowerCase query) (toLowerCase text) 0
      rw [(leftmost_rest_eq_nil _ _ _).mpr hs, List.length_nil] at hlen
      have := length_lt_toLowerCase hu hd
      omega
    · rw [leftmost_right_iff hu hs hd, and_iff_right hd]
  · refine ⟨fun _ h => absurd h hs, fun _ m hm => absurd (indices_of_fuzzyMatch hu hm).1 hs⟩

/-- A text without the character, and so every text without it for a query without it. -/
theorem foundInPlace_of_not_mem (hu : Case.Unicode.Documented) {query text : List UInt16}
    (hq : UInt16.ofNat dottedI ∉ query) (ht : UInt16.ofNat dottedI ∉ text) :
    FoundInPlace query text := by
  refine fun _ => ⟨hq, ?_⟩
  have : inPlace text = (toLowerCase text).map some := by
    refine List.ext_getElem? fun p => ?_
    cases hp : (toLowerCase text)[p]? with
    | none => rw [inPlace, List.getElem?_mapIdx, List.getElem?_map, hp]; rfl
    | some u =>
      rw [List.getElem?_map, hp]
      exact (getElem?_inPlace hp).mpr (by rw [places_eq_map hu ht, List.getElem?_map, hp]; rfl)
  rw [this]
  exact inPlainSight_map_some _ _

omit [Case.Unicode] in
/-- "cse" in "Clipse" -/
theorem fuzzyMatch_exact_iff_clipse :
    @FuzzyExact Case.Unicode.latin [0x63, 0x73, 0x65] [0x43, 0x6C, 0x69, 0x70, 0x73, 0x65] :=
  letI := Case.Unicode.latin
  (fuzzyMatch_exact_iff Case.Unicode.documented_latin _ _).mpr
    (foundInPlace_of_not_mem Case.Unicode.documented_latin (by decide) (by decide))

omit [Case.Unicode] in
/-- "x" in "İx" is found at the place numbered 2, behind the end of the text. -/
theorem not_fuzzyMatch_exact : ¬ @FuzzyExact Case.Unicode.latin [0x78] [0x130, 0x78] := by
  intro h
  have hm : @fuzzyMatch Case.Unicode.latin [0x78] [0x130, 0x78] = some { score := 20, indices := [2] } := by
    decide
  exact absurd ((h.2 _ hm).2.1 2 (by simp)) (by decide)

end Clipse
