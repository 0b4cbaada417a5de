import Clipse.Clipboard.Proof.Windows

/-!
# Round trips of the wrapped formats

A fragment of HTML is found again in its wrapper, unless it is empty (`html_round_trip_iff`); a list
of paths is read back from its drop list, with any number of zero bytes behind it
(`hdrop_round_trip`).
-/

namespace Clipse
namespace Windows

/-! ## HTML -/

/-- The offsets of a small fragment have nine digits: it stands where they say. -/
theorem drift_eq_zero {size : Nat} (h : size ≤ 64 * 1024 * 1024) : drift size = 0 := by
  have hend : endFragment size = 137 + size := by rw [endFragment, startFragment_eq]
  have hhtml : (padded (endHtml size)).length ≤ 9 := by
    apply length_padded_le (Nat.le_refl 9)
    rw [endHtml, hend, length_cfSuffix]
    omega
  have hfragment : (padded (endFragment size)).length ≤ 9 := by
    apply length_padded_le (Nat.le_refl 9)
    rw [hend]
    omega
  unfold drift
  omega

/-- **HTML that is written and read back.** -/
theorem html_round_trip_iff (fragment : Bytes) (h : fragment.length ≤ 64 * 1024 * 1024) :
    parseCfHtml (buildCfHtml fragment) = fragment ↔ fragment ≠ [] := by
  have hend : endFragment fragment.length < 2 ^ 64 := by
    rw [endFragment, startFragment_eq]
    omega
  have hexact : Exact .html fragment ↔ fragment ≠ [] := by
    refine ⟨fun he => he.1, fun hne => ⟨hne, hend, ?_⟩⟩
    rw [drift_eq_zero h, Nat.sub_zero, ← length_cfPrefix, List.drop_length, List.nil_append]
  rw [← hexact, ← @left_html_iff 0, read_html, left, Option.some_inj]

theorem html_round_trip_iff_bold :
    parseCfHtml (buildCfHtml (Utf.encode8 "<b>StartFragment:0</b>".toList)) =
      Utf.encode8 "<b>StartFragment:0</b>".toList ↔
    Utf.encode8 "<b>StartFragment:0</b>".toList ≠ [] :=
  html_round_trip_iff (Utf.encode8 "<b>StartFragment:0</b>".toList) (by decide)

/-- An empty fragment is read back with the wrapper around it. -/
theorem html_empty_not_round_trip :
    ([] : Bytes).length ≤ 64 * 1024 * 1024 ∧ parseCfHtml (buildCfHtml []) ≠ [] := by
  refine ⟨Nat.zero_le _, ?_⟩
  rw [read_html, if_pos (.inl rfl)]
  decide

/-! ## Lists of files -/

/-- Zeros behind the one that ends the list are not read. -/
theorem splitDoubleNull_zeros (units segment : List UInt16) (n : Nat) :
    splitDoubleNull segment (units ++ 0 :: List.replicate n 0) =
      splitDoubleNull segment (units ++ [0]) := by
  induction units generalizing segment with
  | nil =>
    simp only [List.nil_append, splitDoubleNull, if_true]
    split
    · rfl
    · cases n with
      | zero => rfl
      | succ n => rw [List.replicate_succ, splitDoubleNull, if_pos rfl, if_pos rfl]
  | cons u units ih =>
    simp only [List.cons_append, splitDoubleNull]
    split
    · split
      · rfl
      · rw [ih]
    · exact ih _

theorem readHdrop_zeros (bytes : Bytes) (n : Nat) :
    readHdrop (buildHdrop bytes ++ List.replicate n 0) = readHdrop (buildHdrop bytes) := by
  rw [buildHdrop, List.append_assoc, readHdrop_append, readHdrop_append,
    Utf.unitsOf_bytesOf_append, Utf.unitsOf_zeros, Utf.unitsOf_bytesOf, List.append_assoc,
    List.singleton_append, splitDoubleNull_zeros]

/-- **Lists of files that are written and read back.** -/
theorem hdrop_round_trip (paths : List (List Char)) (hne : paths ≠ [])
    (h : ∀ p ∈ paths, p ≠ [] ∧ nul ∉ p ∧ '\r' ∉ p ∧ '\n' ∉ p) (n : Nat) :
    readHdrop (buildHdrop (Utf.encode8 (Lines.unlines paths)) ++ List.replicate n 0) =
      some (Utf.encode8 (Lines.unlines paths)) := by
  have hplain : Lines.Plain (Lines.unlines paths) :=
    Lines.plain_unlines hne fun p hp => ⟨(h p hp).1, (h p hp).2.2.2, (h p hp).2.2.1⟩
  have hnul : nul ∉ Lines.unlines paths := by
    intro hn
    rcases Lines.mem_of_mem_unlines hn with hn | ⟨p, hp, hn⟩
    · exact absurd hn (by decide)
    · exact (h p hp).2.1 hn
  obtain ⟨hfiles, hback⟩ := files_iff.2 ⟨_, rfl, hnul, hplain⟩
  rw [readHdrop_zeros, read_hdrop, if_neg hfiles, hback]

theorem hdrop_round_trip_two :
    readHdrop (buildHdrop (Utf.encode8 (Lines.unlines ["C:\\a".toList, "D:\\😀".toList])) ++
        List.replicate 3 0) =
      some (Utf.encode8 (Lines.unlines ["C:\\a".toList, "D:\\😀".toList])) :=
  hdrop_round_trip ["C:\\a".toList, "D:\\😀".toList] (by decide) (by decide) 3

end Windows
end Clipse
