import Mathlib.Data.List.Infix

/-!
# Lines of a text

A line ends with a line feed, or with a carriage return and a line feed; the last one may end with
the text. `unlines` puts line feeds between lines.

* `Plain`: the lines of the text are its pieces between line feeds, and none is empty.
* `unlines_filter_lines_iff`: the plain texts are those that the non-empty lines give back.
-/

namespace Lines

/-- What is before a line feed, without a carriage return at its end. -/
def stripCr (piece : List Char) : List Char :=
  if piece.getLast? = some '\r' then piece.dropLast else piece

/-- The lines, given the pieces between line feeds. -/
def ofPieces : List (List Char) → List (List Char)
  | [] => []
  | [piece] => if piece = [] then [] else [piece]
  | piece :: next :: pieces => stripCr piece :: ofPieces (next :: pieces)

def pieces (text : List Char) : List (List Char) := text.splitOn '\n'

def lines (text : List Char) : List (List Char) := ofPieces (pieces text)

def unlines (ps : List (List Char)) : List Char := ['\n'].intercalate ps

/-- Its lines are its pieces, none of them empty. -/
structure Plain (text : List Char) : Prop where
  nonempty : [] ∉ pieces text
  noReturn : ∀ piece ∈ (pieces text).dropLast, piece.getLast? ≠ some '\r'

/-! ## Pieces -/

theorem not_mem_of_mem_pieces {text piece : List Char} (h : piece ∈ pieces text) :
    '\n' ∉ piece := by
  unfold pieces at h
  induction text generalizing piece with
  | nil => simp_all
  | cons c text ih =>
    rw [List.splitOn_cons_eq_if_modifyHead] at h
    split at h
    · rcases List.mem_cons.1 h with rfl | h
      · exact List.not_mem_nil
      · exact ih h
    · next hc =>
      obtain ⟨p, ps, hps⟩ := List.exists_cons_of_ne_nil (List.splitOn_ne_nil '\n' text)
      rw [hps, List.modifyHead_cons, List.mem_cons] at h
      rcases h with rfl | h
      · rw [List.mem_cons, not_or]
        have hne : c ≠ '\n' := by simpa using hc
        exact ⟨hne.symm, ih (hps ▸ List.mem_cons_self)⟩
      · exact ih (hps ▸ List.mem_cons_of_mem _ h)

theorem subset_of_mem_pieces {text piece : List Char} (h : piece ∈ pieces text) :
    piece ⊆ text := by
  unfold pieces at h
  induction text generalizing piece with
  | nil => simp_all
  | cons c text ih =>
    rw [List.splitOn_cons_eq_if_modifyHead] at h
    split at h
    · rcases List.mem_cons.1 h with rfl | h
      · exact List.nil_subset _
      · exact List.Subset.trans (ih h) (List.subset_cons_self _ _)
    · obtain ⟨p, ps, hps⟩ := List.exists_cons_of_ne_nil (List.splitOn_ne_nil '\n' text)
      rw [hps, List.modifyHead_cons, List.mem_cons] at h
      rcases h with rfl | h
      · exact List.cons_subset_cons _ (ih (hps ▸ List.mem_cons_self))
      · exact List.Subset.trans (ih (hps ▸ List.mem_cons_of_mem _ h)) (List.subset_cons_self _ _)

@[simp] theorem unlines_pieces (text : List Char) : unlines (pieces text) = text :=
  List.intercalate_splitOn '\n'

theorem pieces_unlines {ps : List (List Char)} (h : ∀ p ∈ ps, '\n' ∉ p) (hne : ps ≠ []) :
    pieces (unlines ps) = ps := List.splitOn_intercalate '\n' h hne

theorem mem_of_mem_unlines {ps : List (List Char)} {c : Char} (h : c ∈ unlines ps) :
    c = '\n' ∨ ∃ p ∈ ps, c ∈ p := by
  unfold unlines at h
  induction ps with
  | nil => simp at h
  | cons p ps ih =>
    cases ps with
    | nil => exact .inr ⟨p, by simp, by simpa using h⟩
    | cons q ps =>
      rw [List.intercalate_cons_cons, List.mem_append, List.mem_append, List.mem_singleton] at h
      rcases h with (h | h) | h
      · exact .inr ⟨p, by simp, h⟩
      · exact .inl h
      · exact (ih h).imp id fun ⟨r, hr, hc⟩ => ⟨r, List.mem_cons_of_mem _ hr, hc⟩

/-! ## Lines -/

theorem stripCr_sublist (piece : List Char) : stripCr piece <+: piece := by
  unfold stripCr
  split
  · exact List.dropLast_prefix piece
  · exact List.prefix_rfl

theorem stripCr_eq_self_iff {piece : List Char} :
    stripCr piece = piece ↔ piece.getLast? ≠ some '\r' := by
  unfold stripCr
  split
  · next h =>
    have hpos : 0 < piece.length := by
      apply List.length_pos_iff.2
      rintro rfl
      simp at h
    have hlen : piece.dropLast.length ≠ piece.length := by
      rw [List.length_dropLast]
      omega
    exact iff_of_false (fun he => hlen (congrArg _ he)) (not_not_intro h)
  · next h => exact iff_of_true rfl h

theorem length_ofPieces_le (ps : List (List Char)) : (ofPieces ps).length ≤ ps.length := by
  fun_induction ofPieces ps with
  | case1 => simp
  | case2 => simp
  | case3 => simp
  | case4 p q ps ih => simpa using ih

/-- A line is the start of a piece. -/
theorem exists_of_mem_ofPieces {ps : List (List Char)} {l : List Char} (h : l ∈ ofPieces ps) :
    ∃ p ∈ ps, l <+: p := by
  fun_induction ofPieces ps with
  | case1 => simp at h
  | case2 => simp at h
  | case3 p hp => exact ⟨p, by simp, by simp_all⟩
  | case4 p q ps ih =>
    rcases List.mem_cons.1 h with rfl | h
    · exact ⟨p, by simp, stripCr_sublist p⟩
    · obtain ⟨p', hp', hpre⟩ := ih h
      exact ⟨p', List.mem_cons_of_mem _ hp', hpre⟩

theorem not_mem_of_mem_lines {text l : List Char} (h : l ∈ lines text) : '\n' ∉ l := by
  obtain ⟨p, hp, hpre⟩ := exists_of_mem_ofPieces h
  exact fun hn => not_mem_of_mem_pieces hp (hpre.subset hn)

theorem subset_of_mem_lines {text l : List Char} (h : l ∈ lines text) : l ⊆ text := by
  obtain ⟨p, hp, hpre⟩ := exists_of_mem_ofPieces h
  exact List.Subset.trans hpre.subset (subset_of_mem_pieces hp)

theorem ofPieces_eq_self {ps : List (List Char)} (hn : [] ∉ ps)
    (hr : ∀ p ∈ ps.dropLast, p.getLast? ≠ some '\r') : ofPieces ps = ps := by
  fun_induction ofPieces ps with
  | case1 => rfl
  | case2 => simp at hn
  | case3 => rfl
  | case4 p q ps ih =>
    rw [List.dropLast_cons_cons] at hr
    rw [stripCr_eq_self_iff.2 (hr p (by simp)),
      ih (fun h => hn (List.mem_cons_of_mem _ h)) fun p' hp' => hr p' (List.mem_cons_of_mem _ hp')]

theorem noReturn_of_ofPieces {ps : List (List Char)} (h : ofPieces ps = ps) :
    ∀ p ∈ ps.dropLast, p.getLast? ≠ some '\r' := by
  fun_induction ofPieces ps with
  | case1 => simp
  | case2 => simp
  | case3 => simp
  | case4 p q ps ih =>
    rw [List.cons.injEq] at h
    intro p' hp'
    rw [List.dropLast_cons_cons, List.mem_cons] at hp'
    rcases hp' with rfl | hp'
    · exact stripCr_eq_self_iff.1 h.1
    · exact ih h.2 p' hp'

/-- The lines of a plain text are its pieces. -/
theorem Plain.lines_eq {text : List Char} (h : Plain text) : lines text = pieces text :=
  ofPieces_eq_self h.nonempty h.noReturn

theorem plain_unlines {ps : List (List Char)} (hne : ps ≠ [])
    (h : ∀ p ∈ ps, p ≠ [] ∧ '\n' ∉ p ∧ '\r' ∉ p) : Plain (unlines ps) := by
  have hpieces : pieces (unlines ps) = ps := pieces_unlines (fun p hp => (h p hp).2.1) hne
  constructor
  · rw [hpieces]
    exact fun hnil => (h [] hnil).1 rfl
  · intro p hp hlast
    rw [hpieces] at hp
    exact (h p (List.mem_of_mem_dropLast hp)).2.2 (List.mem_of_getLast? hlast)

theorem unlines_filter_lines_iff {text : List Char} (hne : text ≠ []) :
    unlines ((lines text).filter (· ≠ [])) = text ↔ Plain text := by
  constructor
  · intro h
    have hq : pieces text = (lines text).filter (· ≠ []) := by
      conv_lhs => rw [← h]
      apply pieces_unlines
      · intro p hp
        exact not_mem_of_mem_lines (List.mem_of_mem_filter hp)
      · intro hnil
        rw [hnil] at h
        exact hne h.symm
    -- no line can be missing, for there is one for each piece
    have hall : (lines text).filter (· ≠ []) = lines text := by
      rw [List.filter_eq_self, ← List.length_filter_eq_length_iff]
      apply le_antisymm (List.length_filter_le _ _)
      rw [← hq]
      exact length_ofPieces_le _
    refine ⟨fun hmem => ?_, noReturn_of_ofPieces (hq.trans hall).symm⟩
    rw [hq, List.mem_filter] at hmem
    simp at hmem
  · intro h
    have hall : (pieces text).filter (· ≠ []) = pieces text := by
      rw [List.filter_eq_self]
      intro p hp
      rw [decide_eq_true_iff]
      rintro rfl
      exact h.nonempty hp
    rw [h.lines_eq, hall, unlines_pieces]

end Lines
