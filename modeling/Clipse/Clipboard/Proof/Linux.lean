import Clipse.Clipboard.Linux
import Clipse.Clipboard.Proof.Echo

/-!
# What is kept on Linux

Both display servers get one payload of a list, and read back what its target or MIME type gives.

* `X11.reads`, `Wayland.reads`: what is kept of a list.
* `X11.whole_iff`, `Wayland.whole_iff`: which lists are kept whole.
-/

namespace Clipse

variable {payloads : List (ClipFormat × Bytes)}

/-! ## The chosen payload -/

theorem chosen_eq_none : chosen payloads = none ↔ payloads = [] := by
  cases payloads <;> simp [chosen]

@[simp] theorem chosen_singleton (p : ClipFormat × Bytes) : chosen [p] = some p := by
  unfold chosen
  by_cases h : p.1 = .text <;> simp [h]

/-! ## Trimming -/

@[simp] theorem trim_trim (l : List Char) : trim (trim l) = trim l := by
  have hfirst : (trim l).dropWhile isWhitespace = trim l := by
    obtain ⟨r, hr⟩ := List.rdropWhile_prefix isWhitespace (l.dropWhile isWhitespace)
    have hhead := List.head?_dropWhile_not isWhitespace l
    rw [← hr] at hhead
    unfold trim
    cases hk : (l.dropWhile isWhitespace).rdropWhile isWhitespace with
    | nil => rfl
    | cons c k =>
      rw [hk] at hhead
      exact List.dropWhile_cons_of_neg (by simpa using hhead)
  rw [trim, hfirst, trim, List.rdropWhile_idempotent]

theorem trim_subset (l : List Char) : trim l ⊆ l :=
  fun _ hc => (List.dropWhile_sublist _).subset ((List.rdropWhile_prefix _ _).subset hc)

/-- A trimmed line does not end with a carriage return. -/
theorem getLast?_ne_of_trim {l : List Char} (h : trim l = l) : l.getLast? ≠ some '\r' := by
  intro hlast
  have hr : l.rdropWhile isWhitespace = l := by
    rw [← h, trim, List.rdropWhile_idempotent]
  have hne : l ≠ [] := by
    rintro rfl
    simp at hlast
  apply List.rdropWhile_eq_self_iff.1 hr hne
  rw [List.getLast?_eq_some_getLast hne, Option.some_inj] at hlast
  rw [hlast]
  decide

namespace X11

/-- The format under which the target for a format is read. -/
def readAs : ClipFormat → ClipFormat
  | .html => .html
  | .rtf => .rtf
  | .png => .png
  | .fileList => .fileList
  | .text | .jpeg | .svg | .other _ => .text

/-- A payload as it is read back. -/
def back (p : ClipFormat × Bytes) : ClipFormat × Bytes :=
  (readAs p.1, if p.1 = .fileList then uriListToPaths p.2 else p.2)

/-- What is kept of a list: the chosen payload, unless it is empty. -/
def kept (payloads : List (ClipFormat × Bytes)) : List (ClipFormat × Bytes) :=
  match chosen payloads with
  | none => []
  | some p => if p.2 = [] then [] else [back p]

/-- **What X11 reads back.** -/
theorem reads (payloads : List (ClipFormat × Bytes)) :
    backend.Reads payloads False { payloads := kept payloads, app := none } where
  untouched h := by
    have hc : chosen payloads = none := by simpa [backend, write] using h
    simp [kept, hc]
  concealed _ h := h.elim
  plain {contents} hw _ := by
    obtain ⟨⟨format, bytes⟩, hc, rfl⟩ := Option.map_eq_some_iff.1 hw
    change poll _ = _
    by_cases hb : bytes = []
    · cases format <;> simp [poll, load, store, target, kept, hc, hb, RawPoll.of]
    · cases format <;> simp [poll, load, store, target, kept, hc, hb, RawPoll.of, back, readAs]

/-- Bytes that are read back as they are: a list of files has trimmed lines, none of them empty or
a comment. -/
def Exact : ClipFormat → Bytes → Prop
  | .text, _ | .html, _ | .rtf, _ | .png, _ => True
  | .fileList, bytes => ∃ text, bytes = Utf.encode8 text ∧
      ∀ l ∈ Lines.pieces text, l ≠ [] ∧ trim l = l ∧ l.head? ≠ some '#'
  | .jpeg, _ | .svg, _ | .other _, _ => False

/-- The list is one payload, not empty, that is read back as it is. -/
def Whole (payloads : List (ClipFormat × Bytes)) : Prop :=
  ∃ p, payloads = [p] ∧ p.2 ≠ [] ∧ Exact p.1 p.2

/-- The lists of files that are read back as they are. -/
theorem uriListToPaths_iff {bytes : Bytes} (hne : bytes ≠ []) :
    uriListToPaths bytes = bytes ↔ Exact .fileList bytes := by
  constructor
  · intro h
    let ls := ((Lines.lines (Utf.decode8 bytes)).map trim).filter
      fun l => l ≠ [] && l.head? ≠ some '#'
    have hmem : ∀ l ∈ ls, '\n' ∉ l ∧ l ≠ [] ∧ trim l = l ∧ l.head? ≠ some '#' := by
      intro l hl
      obtain ⟨hmap, hgood⟩ := List.mem_filter.1 hl
      obtain ⟨line, hline, rfl⟩ := List.mem_map.1 hmap
      simp only [Bool.and_eq_true, decide_eq_true_eq] at hgood
      exact ⟨fun hn => Lines.not_mem_of_mem_lines hline (trim_subset line hn), hgood.1,
        trim_trim line, hgood.2⟩
    have hnil : ls ≠ [] := by
      intro hnil
      apply hne
      rw [← h]
      change Utf.encode8 (Lines.unlines ls) = []
      rw [hnil]
      rfl
    refine ⟨Lines.unlines ls, h.symm, fun l hl => ?_⟩
    rw [Lines.pieces_unlines (fun l hl => (hmem l hl).1) hnil] at hl
    exact (hmem l hl).2
  · rintro ⟨text, rfl, hl⟩
    have hplain : Lines.Plain text :=
      ⟨fun hn => (hl _ hn).1 rfl, fun l hm => getLast?_ne_of_trim (hl l (List.mem_of_mem_dropLast hm)).2.1⟩
    have hmap : (Lines.pieces text).map trim = Lines.pieces text := by
      conv_rhs => rw [← List.map_id (Lines.pieces text)]
      exact List.map_congr_left fun l hm => (hl l hm).2.1
    have hfilter : (Lines.pieces text).filter (fun l => l ≠ [] && l.head? ≠ some '#') =
        Lines.pieces text := by
      apply List.filter_eq_self.2
      intro l hm
      simp [hl l hm]
    rw [uriListToPaths, Utf.decode8_encode8, hplain.lines_eq, hmap]
    simp only [hfilter, Lines.unlines_pieces]

theorem back_eq_iff {p : ClipFormat × Bytes} (hne : p.2 ≠ []) : back p = p ↔ Exact p.1 p.2 := by
  obtain ⟨format, bytes⟩ := p
  cases format <;> simp [back, readAs, Exact, uriListToPaths_iff hne]

/-- **Which lists are kept whole.** -/
theorem whole_iff (hne : payloads ≠ []) : payloads.Perm (kept payloads) ↔ Whole payloads := by
  unfold kept Whole
  constructor
  · intro h
    cases hc : chosen payloads with
    | none => exact absurd (chosen_eq_none.1 hc) hne
    | some p =>
      simp only [hc] at h
      split at h
      · exact absurd (List.perm_nil.1 h) hne
      next hp =>
      obtain rfl := List.perm_singleton.1 h
      rw [chosen_singleton, Option.some_inj] at hc
      refine ⟨p, by rw [hc], hp, (back_eq_iff hp).1 hc⟩
  · rintro ⟨p, rfl, hp, he⟩
    simp [hp, (back_eq_iff hp).2 he]

theorem kept_sublist (payloads : List (ClipFormat × Bytes)) :
    ((kept payloads).map (·.1)).Sublist readable := by
  unfold kept
  split
  · exact List.nil_sublist _
  · next p _ =>
    split
    · exact List.nil_sublist _
    · obtain ⟨format, bytes⟩ := p
      rw [List.map_singleton, List.singleton_sublist]
      cases format <;> simp [back, readAs, readable]

end X11

namespace Wayland

/-- The types under which a copy of a format is read. -/
def offered (lib : CopyLibrary) (format : ClipFormat) : List (String × ClipFormat) :=
  readTypes.filter fun t => lib.offers (mime format) t.1

/-- What is kept of a list: the chosen payload, unless it is empty, once for each type under which
it is read. -/
def kept (lib : CopyLibrary) (payloads : List (ClipFormat × Bytes)) : List (ClipFormat × Bytes) :=
  match chosen payloads with
  | none => []
  | some p => if p.2 = [] then [] else (offered lib p.1).map fun t => (t.2, p.2)

/-- The chosen payload reads as the hint of a password manager. -/
def Hidden (lib : CopyLibrary) (payloads : List (ClipFormat × Bytes)) : Prop :=
  ∃ p, chosen payloads = some p ∧ p.2 ≠ [] ∧ lib.offers (mime p.1) passwordHintMime ∧
    isSecretHint p.2

theorem readMime_copy (lib : CopyLibrary) (mime asked : String) (bytes : Bytes) :
    readMime (copy lib mime bytes) asked =
      if bytes ≠ [] ∧ lib.offers mime asked then some bytes else none := by
  unfold readMime copy
  by_cases ho : lib.offers mime asked <;> by_cases hb : bytes = [] <;> simp [ho, hb]

/-- **What Wayland reads back.** -/
theorem reads [Blake3] (lib : CopyLibrary) (payloads : List (ClipFormat × Bytes)) :
    (backend lib).Reads payloads (Hidden lib payloads)
      { payloads := kept lib payloads, app := none } where
  untouched h := by
    have hc : chosen payloads = none := by simpa [backend, write] using h
    simp [kept, hc]
  concealed {contents} hw hh := by
    obtain ⟨p, hc, rfl⟩ := Option.map_eq_some_iff.1 hw
    obtain ⟨q, hq, hb, ho, hs⟩ := hh
    obtain rfl := Option.some_inj.1 (hc.symm.trans hq)
    change readClipboard _ = _
    simp [readClipboard, readMime_copy, hb, ho, hs]
  plain {contents} hw hh := by
    obtain ⟨p, hc, rfl⟩ := Option.map_eq_some_iff.1 hw
    have hhint : ((readMime (copy lib (mime p.1) p.2) passwordHintMime).any isSecretHint) = false := by
      rw [readMime_copy]
      split
      · next h =>
        by_contra hs
        exact hh ⟨p, hc, h.1, h.2, by simpa using hs⟩
      · rfl
    change readClipboard _ = _
    rw [readClipboard, hhint, if_neg (by simp)]
    simp only [kept, hc]
    congr 1
    by_cases hb : p.2 = []
    · simp [readMime_copy, hb]
    · simp only [readMime_copy, hb, ne_eq, not_false_eq_true, true_and, if_false, offered]
      induction readTypes with
      | nil => rfl
      | cons t ts ih =>
        rw [List.filterMap_cons, List.filter_cons, ih]
        by_cases ho : lib.offers (mime p.1) t.1 <;> simp [ho]

/-- All payloads have the bytes of the chosen one, and their formats are those under which it is
read. -/
def Whole (lib : CopyLibrary) (payloads : List (ClipFormat × Bytes)) : Prop :=
  ∃ p, chosen payloads = some p ∧ p.2 ≠ [] ∧ (∀ q ∈ payloads, q.2 = p.2) ∧
    (payloads.map (·.1)).Perm ((offered lib p.1).map (·.2))

/-- **Which lists are kept whole.** -/
theorem whole_iff {lib : CopyLibrary} (hne : payloads ≠ []) :
    payloads.Perm (kept lib payloads) ↔ Whole lib payloads := by
  unfold kept Whole
  constructor
  · intro h
    cases hc : chosen payloads with
    | none => exact absurd (chosen_eq_none.1 hc) hne
    | some p =>
      simp only [hc] at h
      split at h
      · exact absurd (List.perm_nil.1 h) hne
      next hp =>
      refine ⟨p, rfl, hp, fun q hq => ?_, ?_⟩
      · obtain ⟨t, -, rfl⟩ := List.mem_map.1 (h.mem_iff.1 hq)
        rfl
      · have hmap := h.map Prod.fst
        rwa [List.map_map] at hmap
  · rintro ⟨p, hc, hp, hbytes, hformats⟩
    have hself : payloads = (payloads.map (·.1)).map (·, p.2) := by
      rw [List.map_map]
      conv_lhs => rw [← List.map_id payloads]
      exact List.map_congr_left fun q hq => Prod.ext rfl (hbytes q hq)
    have hmap := hformats.map fun format => (format, p.2)
    rw [← hself, List.map_map] at hmap
    simp only [hc, hp, if_false]
    exact hmap

theorem kept_sublist (lib : CopyLibrary) (payloads : List (ClipFormat × Bytes)) :
    ((kept lib payloads).map (·.1)).Sublist readable := by
  unfold kept
  split
  · exact List.nil_sublist _
  · split
    · exact List.nil_sublist _
    · rw [List.map_map]
      exact (List.filter_sublist (l := readTypes)).map _

end Wayland
end Clipse
