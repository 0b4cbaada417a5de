import Clipse.Clipboard.Windows
import Clipse.Clipboard.Proof.Echo

/-!
# What is kept on Windows

Of the payloads in one format the last is kept, changed by the way through the format's block.

* `reads`: what is kept of a list. It rests on one lemma for each format: `read_text`,
  `read_html`, `read_hdrop`.
* `whole_iff`: which lists are kept whole.
-/

namespace Clipse
namespace Windows

/-! ## HTML -/

theorem isDigit_of_mem_padded {n : Nat} {c : Char} (h : c ∈ padded n) : c.isDigit := by
  rw [padded, List.leftpad, List.mem_append] at h
  rcases h with h | h
  · rw [List.eq_of_mem_replicate h]
    rfl
  · exact Nat.isDigit_of_mem_toDigits (by omega) (by omega) h

theorem length_padded (n : Nat) : (padded n).length = max 9 (Nat.toDigits 10 n).length :=
  List.length_leftpad

theorem padded_ne_nil (n : Nat) : padded n ≠ [] := by
  intro h
  have := length_padded n
  rw [h, List.length_nil] at this
  omega

/-- An offset is read back if it fits. -/
theorem parseUsize_padded (n : Nat) :
    parseUsize (padded n) = if n < 2 ^ 64 then some n else none := by
  have hn : Nat.ofDigitChars 10 (padded n) 0 = n := by
    rw [padded, List.leftpad, Nat.ofDigitChars_append, Nat.ofDigitChars_replicate_zero, Nat.mul_zero,
      Nat.ofDigitChars_ten_toDigits]
  rw [parseUsize, if_neg (padded_ne_nil n), hn]

/-- What has no first letter of the key is passed over. -/
theorem after_append {k : Char} {key skipped : List Char} (h : k ∉ skipped) (text : List Char) :
    after (k :: key) (skipped ++ text) = after (k :: key) text := by
  induction skipped with
  | nil => rfl
  | cons c skipped ih =>
    rw [List.mem_cons, not_or] at h
    have hne : (k == c) = false := by simpa using h.1
    rw [List.cons_append, after, List.isPrefixOf, hne, Bool.false_and, if_neg (by simp), ih h.2]

theorem takeWhile_padded (n : Nat) (text : List Char) :
    (padded n ++ ("\r\n".toList ++ text)).takeWhile Char.isDigit = padded n := by
  have hcr : "\r\n".toList ++ text = '\r' :: ('\n' :: text) := rfl
  rw [List.takeWhile_append_of_pos fun c hc => isDigit_of_mem_padded hc, hcr,
    List.takeWhile_cons_of_neg (by decide), List.append_nil]

theorem not_mem_padded {n : Nat} {c : Char} (h : c.isDigit = false) : c ∉ padded n := by
  intro hc
  rw [isDigit_of_mem_padded hc] at h
  exact Bool.noConfusion h

section
variable (a b c d : Nat) (text : List Char)

theorem headerOf_append : headerOf a b c d ++ text =
    "Version:0.9\r\nStartHTML:".toList ++ (padded a ++ ("\r\nEndHTML:".toList ++ (padded b ++
      ("\r\nStartFragment:".toList ++ (padded c ++ ("\r\nEndFragment:".toList ++ (padded d ++
        ("\r\n".toList ++ text)))))))) := by
  unfold headerOf
  repeat rw [List.append_assoc]

theorem findOffset_startFragment :
    findOffset (headerOf a b c d ++ text) "StartFragment:".toList = parseUsize (padded c) := by
  -- the labels before it are passed over, also the one that starts like it
  have hlike : ∀ r, after "StartFragment:".toList ("Version:0.9\r\nStartHTML:".toList ++ r) =
      after "StartFragment:".toList r := fun _ => rfl
  have hend : ∀ r, after "StartFragment:".toList ("\r\nEndHTML:".toList ++ r) =
      after "StartFragment:".toList r := fun _ => rfl
  have hpadded : ∀ n r, after "StartFragment:".toList (padded n ++ r) =
      after "StartFragment:".toList r := fun n => after_append (not_mem_padded rfl)
  have hhit : ∀ r, after "StartFragment:".toList ("\r\nStartFragment:".toList ++ r) = some r :=
    fun _ => rfl
  have hnext : "\r\nEndFragment:".toList = "\r\n".toList ++ "EndFragment:".toList := by decide
  rw [findOffset, headerOf_append, hlike, hpadded, hend, hpadded, hhit, Option.bind_some, hnext,
    List.append_assoc, takeWhile_padded]

theorem findOffset_endFragment :
    findOffset (headerOf a b c d ++ text) "EndFragment:".toList = parseUsize (padded d) := by
  have hversion : ∀ r, after "EndFragment:".toList ("Version:0.9\r\nStartHTML:".toList ++ r) =
      after "EndFragment:".toList r := fun _ => rfl
  have hlike : ∀ r, after "EndFragment:".toList ("\r\nEndHTML:".toList ++ r) =
      after "EndFragment:".toList r := fun _ => rfl
  have hstart : ∀ r, after "EndFragment:".toList ("\r\nStartFragment:".toList ++ r) =
      after "EndFragment:".toList r := fun _ => rfl
  have hpadded : ∀ n r, after "EndFragment:".toList (padded n ++ r) =
      after "EndFragment:".toList r := fun n => after_append (not_mem_padded rfl)
  have hhit : ∀ r, after "EndFragment:".toList ("\r\nEndFragment:".toList ++ r) = some r :=
    fun _ => rfl
  rw [findOffset, headerOf_append, hversion, hpadded, hlike, hpadded, hstart, hpadded, hhit,
    Option.bind_some, takeWhile_padded]

end

theorem ascii_padded {n : Nat} {c : Char} (h : c ∈ padded n) : c.val ≤ 127 := by
  have hd := isDigit_of_mem_padded h
  simp only [Char.isDigit, Bool.and_eq_true, decide_eq_true_eq] at hd
  exact UInt32.le_trans hd.2 (by decide)

theorem length_headerOf (a b c d : Nat) : (Utf.encode8 (headerOf a b c d)).length =
    65 + (padded a).length + (padded b).length + (padded c).length + (padded d).length := by
  have hall : ∀ l ∈ ["Version:0.9\r\nStartHTML:".toList, "\r\nEndHTML:".toList,
      "\r\nStartFragment:".toList, "\r\nEndFragment:".toList, "\r\n".toList],
      l.all (·.val ≤ 127) = true := by decide
  have hlit : ∀ l ∈ ["Version:0.9\r\nStartHTML:".toList, "\r\nEndHTML:".toList,
      "\r\nStartFragment:".toList, "\r\nEndFragment:".toList, "\r\n".toList],
      ∀ c ∈ l, c.val ≤ 127 := by
    intro l hl c hc
    exact of_decide_eq_true (List.all_eq_true.1 (hall l hl) c hc)
  have hlen : ["Version:0.9\r\nStartHTML:".toList, "\r\nEndHTML:".toList,
      "\r\nStartFragment:".toList, "\r\nEndFragment:".toList, "\r\n".toList].map List.length =
      [23, 10, 16, 14, 2] := rfl
  have happ := headerOf_append a b c d []
  rw [List.append_nil] at happ
  rw [happ]
  clear hall
  generalize "Version:0.9\r\nStartHTML:".toList = l₁ at *
  generalize "\r\nEndHTML:".toList = l₂ at *
  generalize "\r\nStartFragment:".toList = l₃ at *
  generalize "\r\nEndFragment:".toList = l₄ at *
  generalize "\r\n".toList = l₅ at *
  simp only [List.mem_cons, List.not_mem_nil, or_false, forall_eq_or_imp, forall_eq] at hlit
  simp only [List.map_cons, List.map_nil, List.cons.injEq, and_true] at hlen
  rw [Utf.length_encode8_of_ascii]
  · simp only [List.length_append, List.length_nil]
    omega
  · intro ch hch
    simp only [List.mem_append, List.not_mem_nil, or_false] at hch
    rcases hch with h | h | h | h | h | h | h | h | h
    · exact hlit.1 ch h
    · exact ascii_padded h
    · exact hlit.2.1 ch h
    · exact ascii_padded h
    · exact hlit.2.2.1 ch h
    · exact ascii_padded h
    · exact hlit.2.2.2.1 ch h
    · exact ascii_padded h
    · exact hlit.2.2.2.2 ch h

theorem startHtml_eq : startHtml = 101 := by
  rw [startHtml, length_headerOf]
  rfl

theorem length_cfPrefix : (Utf.encode8 cfPrefix).length = 36 := by decide +kernel

theorem length_cfSuffix : (Utf.encode8 cfSuffix).length = 38 := by decide +kernel

theorem startFragment_eq : startFragment = 137 := by
  rw [startFragment, startHtml_eq, length_cfPrefix]

/-- The digits that the offsets of a fragment have beyond nine each: by so much the fragment stands
behind its offsets. -/
def drift (size : Nat) : Nat :=
  ((padded (endHtml size)).length - 9) + ((padded (endFragment size)).length - 9)

theorem length_padded_le {n k : Nat} (hk : 9 ≤ k) (h : n < 10 ^ k) : (padded n).length ≤ k := by
  have := (Nat.length_toDigits_le_iff (by omega : 1 < 10) (by omega : 0 < k)).2 h
  rw [length_padded]
  omega

theorem drift_le {size : Nat} (h : endFragment size < 2 ^ 64) : drift size ≤ 22 := by
  have hhtml : (padded (endHtml size)).length ≤ 20 := by
    apply length_padded_le (by omega)
    rw [endHtml, length_cfSuffix]
    omega
  have hfragment : (padded (endFragment size)).length ≤ 20 := by
    apply length_padded_le (by omega)
    omega
  unfold drift
  omega

/-- The fragment, as its offsets find it. -/
def slice (fragment : Bytes) : Bytes :=
  ((Utf.encode8 cfPrefix).drop (36 - drift fragment.length) ++ fragment).take fragment.length

/-- What is read back of HTML. -/
theorem read_html (fragment : Bytes) : parseCfHtml (buildCfHtml fragment) =
    if fragment = [] ∨ 2 ^ 64 ≤ endFragment fragment.length then buildCfHtml fragment
    else slice fragment := by
  set size := fragment.length with hsize
  have htext : Utf.decode8 (buildCfHtml fragment) =
      headerOf startHtml (endHtml size) startFragment (endFragment size) ++
        (cfPrefix ++ Utf.decode8 (fragment ++ Utf.encode8 cfSuffix)) := by
    rw [buildCfHtml, List.append_assoc, List.append_assoc, ← hsize, Utf.decode8_encode8_append,
      Utf.decode8_encode8_append]
  have hstart : parseUsize (padded startFragment) = some 137 := by
    rw [parseUsize_padded, startFragment_eq]
    rfl
  rw [parseCfHtml, htext, findOffset_startFragment, findOffset_endFragment, hstart,
    parseUsize_padded]
  by_cases hbig : endFragment size < 2 ^ 64
  swap
  · rw [if_neg hbig, if_pos (.inr (by omega))]
  have hend : endFragment size = 137 + size := by rw [endFragment, startFragment_eq]
  by_cases hempty : fragment = []
  · have hz : size = 0 := by rw [hsize, hempty, List.length_nil]
    have hstop : endFragment size = 137 := by omega
    rw [if_pos hbig, if_pos (.inl hempty)]
    simp [hstop]
  have hpos : 0 < size := List.length_pos_iff.2 hempty
  have hdrift := drift_le hbig
  -- the header is longer than announced by the drift
  have hheader : (Utf.encode8 (headerOf startHtml (endHtml size) startFragment
      (endFragment size))).length = 101 + drift size := by
    have hhtml : (padded (endHtml size)).length = 9 + ((padded (endHtml size)).length - 9) := by
      have := length_padded (endHtml size)
      omega
    have hfragment : (padded (endFragment size)).length =
        9 + ((padded (endFragment size)).length - 9) := by
      have := length_padded (endFragment size)
      omega
    rw [length_headerOf, startHtml_eq, startFragment_eq, drift, hhtml, hfragment]
    have h9 : (padded 101).length = 9 ∧ (padded 137).length = 9 := by decide
    omega
  have hlen : 137 + size ≤ (buildCfHtml fragment).length := by
    rw [buildCfHtml, List.length_append, List.length_append, List.length_append, ← hsize, hheader,
      length_cfPrefix]
    omega
  rw [if_pos hbig, if_neg (not_or.2 ⟨hempty, Nat.not_le.2 hbig⟩)]
  simp only [hend]
  rw [if_pos (by simp; omega), List.drop_take, Nat.add_sub_cancel_left]
  have hdrop : (buildCfHtml fragment).drop 137 =
      (Utf.encode8 cfPrefix).drop (36 - drift size) ++ (fragment ++ Utf.encode8 cfSuffix) := by
    have hsplit : 137 = 101 + drift size + (36 - drift size) := by omega
    rw [buildCfHtml, List.append_assoc, List.append_assoc, ← hsize, hsplit, ← List.drop_drop,
      ← hheader, List.drop_left, List.drop_append_of_le_length]
    rw [length_cfPrefix]
    omega
  rw [hdrop, ← List.append_assoc, List.take_append_of_le_length]
  · rfl
  · rw [List.length_append]
    omega

/-! ## Text -/

abbrev nul : Char := Char.ofNat 0

/-- What is read back of a text: up to its first NUL. -/
theorem read_text (text : List Char) :
    readUnicodeText (Utf.bytesOf (Utf.encode16 text ++ [0])) =
      Utf.encode8 (text.takeWhile (· ≠ nul)) := by
  rw [readUnicodeText, Utf.unitsOf_bytesOf, Utf.takeWhile_encode16, Utf.decode16_encode16]

/-! ## Lists of files -/

/-- The segments of a text that a NUL ends, up to an empty one. -/
def cutAtNuls (segment : List Char) : List Char → List (List Char)
  | [] => []
  | c :: text =>
    if c = nul then if segment = [] then [] else segment :: cutAtNuls [] text
    else cutAtNuls (segment ++ [c]) text

/-- The files of a list, as they stand in the block. -/
def files (text : List Char) : List (List Char) :=
  cutAtNuls [] ((((Lines.lines text).filter (· ≠ [])).flatMap (· ++ [nul])) ++ [nul])

theorem splitDoubleNull_append {units : List UInt16} (h : 0 ∉ units)
    (segment rest : List UInt16) :
    splitDoubleNull segment (units ++ rest) = splitDoubleNull (segment ++ units) rest := by
  induction units generalizing segment with
  | nil => rw [List.append_nil, List.nil_append]
  | cons u units ih =>
    rw [List.mem_cons, not_or] at h
    rw [List.cons_append, splitDoubleNull, if_neg (Ne.symm h.1), ih h.2, List.append_assoc,
      List.singleton_append]

theorem splitDoubleNull_encode16 (segment text : List Char) :
    splitDoubleNull (Utf.encode16 segment) (Utf.encode16 text) = cutAtNuls segment text := by
  induction text generalizing segment with
  | nil => rfl
  | cons c text ih =>
    rw [Utf.encode16_cons, cutAtNuls]
    by_cases hc : c = nul
    · subst hc
      change splitDoubleNull _ (0 :: Utf.encode16 text) = _
      rw [splitDoubleNull, if_pos rfl, if_pos rfl]
      simp only [Utf.encode16_eq_nil, Utf.decode16_encode16]
      have hnil := ih []
      rw [show Utf.encode16 [] = [] from rfl] at hnil
      rw [hnil]
    · have hz : 0 ∉ Utf.encodeChar16 c := fun h => hc (Utf.zero_mem_encodeChar16.1 h)
      have happ : Utf.encode16 segment ++ Utf.encodeChar16 c = Utf.encode16 (segment ++ [c]) := by
        rw [Utf.encode16_append, Utf.encode16_cons, show Utf.encode16 [] = [] from rfl,
          List.append_nil]
      rw [if_neg hc, splitDoubleNull_append hz, happ, ih]

theorem readHdrop_append (list : Bytes) : readHdrop (dropFilesHeader ++ list) =
    if splitDoubleNull [] (Utf.unitsOf list) = [] then none
    else some (Utf.encode8 (Lines.unlines (splitDoubleNull [] (Utf.unitsOf list)))) := by
  have hlen : dropFilesHeader.length = 20 := rfl
  have hoffset : u32Of ((dropFilesHeader ++ list).take 4) = 20 := by
    rw [List.take_append_of_le_length (by omega)]
    rfl
  have hwide : u32Of (((dropFilesHeader ++ list).drop 16).take 4) = 1 := by
    rw [List.drop_append_of_le_length (by omega), List.take_append_of_le_length (by decide)]
    rfl
  have hdrop : (dropFilesHeader ++ list).drop 20 = list := by rw [← hlen, List.drop_left]
  have hlong : ¬ (dropFilesHeader ++ list).length < 20 := by
    rw [List.length_append]
    omega
  rw [readHdrop, headerLen, if_neg hlong, hoffset, if_neg hlong]
  simp only [hwide, hdrop, ne_eq, one_ne_zero, not_false_eq_true, if_true]

/-- What is read back of a list of files. -/
theorem read_hdrop (bytes : Bytes) : readHdrop (buildHdrop bytes) =
    if files (Utf.decode8 bytes) = [] then none
    else some (Utf.encode8 (Lines.unlines (files (Utf.decode8 bytes)))) := by
  set lines := (Lines.lines (Utf.decode8 bytes)).filter (· ≠ []) with hlines
  have hunits : (lines.flatMap fun l => Utf.encode16 l ++ [0]) ++ [0] =
      Utf.encode16 (lines.flatMap (· ++ [nul]) ++ [nul]) := by
    have hnul : Utf.encode16 [nul] = [0] := rfl
    rw [Utf.encode16_append, hnul]
    congr 1
    induction lines with
    | nil => rfl
    | cons l ls ih =>
      rw [List.flatMap_cons, List.flatMap_cons, Utf.encode16_append, Utf.encode16_append, hnul, ih]
  have hpaths : splitDoubleNull [] ((lines.flatMap fun l => Utf.encode16 l ++ [0]) ++ [0]) =
      files (Utf.decode8 bytes) := by
    rw [hunits]
    exact splitDoubleNull_encode16 [] _
  rw [buildHdrop, ← hlines, readHdrop_append, Utf.unitsOf_bytesOf, hpaths]

theorem cutAtNuls_append {l : List Char} (h : nul ∉ l) (segment rest : List Char) :
    cutAtNuls segment (l ++ rest) = cutAtNuls (segment ++ l) rest := by
  induction l generalizing segment with
  | nil => rw [List.append_nil, List.nil_append]
  | cons c l ih =>
    rw [List.mem_cons, not_or] at h
    rw [List.cons_append, cutAtNuls, if_neg (Ne.symm h.1), ih h.2, List.append_assoc,
      List.singleton_append]

/-- Lines without a NUL are the segments. -/
theorem cutAtNuls_lines {ls : List (List Char)} (h : ∀ l ∈ ls, l ≠ [] ∧ nul ∉ l) :
    cutAtNuls [] (ls.flatMap (· ++ [nul]) ++ [nul]) = ls := by
  induction ls with
  | nil => rfl
  | cons l ls ih =>
    obtain ⟨hl, hn⟩ := h l List.mem_cons_self
    rw [List.flatMap_cons, List.append_assoc, List.append_assoc, cutAtNuls_append hn,
      List.nil_append, List.singleton_append, cutAtNuls, if_pos rfl, if_neg hl,
      ih fun l' hl' => h l' (List.mem_cons_of_mem _ hl')]

theorem nul_not_mem_of_cutAtNuls {segment text l : List Char} (hs : nul ∉ segment)
    (h : l ∈ cutAtNuls segment text) : nul ∉ l := by
  induction text generalizing segment with
  | nil => simp [cutAtNuls] at h
  | cons c text ih =>
    rw [cutAtNuls] at h
    split at h
    · split at h
      · simp at h
      · rcases List.mem_cons.1 h with rfl | h
        · exact hs
        · exact ih List.not_mem_nil h
    · next hc =>
      apply ih _ h
      rw [List.mem_append, List.mem_singleton, not_or]
      exact ⟨hs, Ne.symm hc⟩

/-- The files of a list without a NUL are its lines. -/
theorem files_eq {text : List Char} (h : nul ∉ text) :
    files text = (Lines.lines text).filter (· ≠ []) := by
  apply cutAtNuls_lines
  intro l hl
  obtain ⟨hl, hne⟩ := List.mem_filter.1 hl
  exact ⟨by simpa using hne, fun hn => h (Lines.subset_of_mem_lines hl hn)⟩

/-- The lists of files that are read back as they are. -/
theorem files_iff {bytes : Bytes} :
    (files (Utf.decode8 bytes) ≠ [] ∧
      Utf.encode8 (Lines.unlines (files (Utf.decode8 bytes))) = bytes) ↔
    ∃ text, bytes = Utf.encode8 text ∧ nul ∉ text ∧ Lines.Plain text := by
  constructor
  · rintro ⟨hne, h⟩
    set text := Lines.unlines (files (Utf.decode8 bytes)) with htext
    have hdecode : Utf.decode8 bytes = text := by rw [← h, Utf.decode8_encode8]
    rw [hdecode] at hne htext
    have hnul : nul ∉ text := by
      intro hn
      rw [htext] at hn
      rcases Lines.mem_of_mem_unlines hn with hn | ⟨l, hl, hn⟩
      · exact absurd hn (by decide)
      · exact nul_not_mem_of_cutAtNuls List.not_mem_nil hl hn
    refine ⟨text, h.symm, hnul, (Lines.unlines_filter_lines_iff ?_).1 ?_⟩
    · intro hnil
      rw [hnil] at hne
      exact hne rfl
    · rw [← files_eq hnul]
      exact htext.symm
  · rintro ⟨text, rfl, hnul, hplain⟩
    have hne : text ≠ [] := by
      rintro rfl
      exact hplain.nonempty List.mem_cons_self
    have hback := (Lines.unlines_filter_lines_iff hne).2 hplain
    rw [Utf.decode8_encode8, files_eq hnul, hback]
    refine ⟨fun hnil => hne ?_, rfl⟩
    rw [← hback, hnil]
    rfl

/-! ## What is kept of one payload -/

/-- What is left of a payload when it is read back. -/
def left (stale : UInt8) : ClipFormat → Bytes → Option Bytes
  | .text, bytes => some (Utf.encode8 ((Utf.decode8 bytes).takeWhile (· ≠ nul)))
  | .html, bytes =>
    some (if bytes = [] ∨ 2 ^ 64 ≤ endFragment bytes.length then buildCfHtml bytes else slice bytes)
  | .rtf, bytes => some (stripTrailingNuls bytes)
  | .png, bytes => some (if bytes = [] then [stale] else bytes)
  | .fileList, bytes =>
    if files (Utf.decode8 bytes) = [] then none
    else some (Utf.encode8 (Lines.unlines (files (Utf.decode8 bytes))))
  | .jpeg, _ | .svg, _ | .other _, _ => none

/-- Bytes that are read back as they are.

* A text is UTF-8 without NUL.
* HTML is not empty, and its offsets have nine digits (or it happens to repeat the wrapper).
* RTF does not end with a zero byte.
* A picture is not empty.
* A list of files is UTF-8 without NUL, in non-empty lines that line feeds separate. -/
def Exact : ClipFormat → Bytes → Prop
  | .text, bytes => ∃ text, bytes = Utf.encode8 text ∧ nul ∉ text
  | .html, bytes => bytes ≠ [] ∧ endFragment bytes.length < 2 ^ 64 ∧
      bytes <+: (Utf.encode8 cfPrefix).drop (36 - drift bytes.length) ++ bytes
  | .rtf, bytes => bytes.getLast? ≠ some 0
  | .png, bytes => bytes ≠ []
  | .fileList, bytes => ∃ text, bytes = Utf.encode8 text ∧ nul ∉ text ∧ Lines.Plain text
  | .jpeg, _ | .svg, _ | .other _, _ => False

theorem left_text_iff {stale : UInt8} {bytes : Bytes} :
    left stale .text bytes = some bytes ↔ Exact .text bytes := by
  simp only [left, Option.some_inj, Exact]
  constructor
  · intro h
    refine ⟨_, h.symm, fun hn => ?_⟩
    have := List.mem_takeWhile_imp hn
    simp at this
  · rintro ⟨text, rfl, hn⟩
    rw [Utf.decode8_encode8, List.takeWhile_eq_self_iff.2]
    intro c hc
    rw [decide_eq_true_iff]
    rintro rfl
    exact hn hc

theorem left_html_iff {stale : UInt8} {bytes : Bytes} :
    left stale .html bytes = some bytes ↔ Exact .html bytes := by
  have hlong : bytes.length < (buildCfHtml bytes).length := by
    have := length_cfPrefix
    simp only [buildCfHtml, List.length_append]
    omega
  have hne : buildCfHtml bytes ≠ bytes := by
    intro he
    rw [he] at hlong
    exact lt_irrefl _ hlong
  simp only [left, Option.some_inj, Exact]
  by_cases hb : bytes = []
  · rw [if_pos (.inl hb)]
    exact iff_of_false hne fun h => h.1 hb
  by_cases hbig : 2 ^ 64 ≤ endFragment bytes.length
  · rw [if_pos (.inr hbig)]
    exact iff_of_false hne fun h => Nat.not_lt.2 hbig h.2.1
  · rw [if_neg (not_or.2 ⟨hb, hbig⟩), slice, List.prefix_iff_eq_take]
    simp only [ne_eq, hb, not_false_eq_true, Nat.lt_of_not_le hbig, true_and]
    exact eq_comm

theorem stripTrailingNuls_iff {bytes : Bytes} :
    stripTrailingNuls bytes = bytes ↔ bytes.getLast? ≠ some 0 := by
  rw [stripTrailingNuls, List.rdropWhile_eq_self_iff]
  constructor
  · intro h hlast
    have hne : bytes ≠ [] := by
      rintro rfl
      simp at hlast
    rw [List.getLast?_eq_some_getLast hne, Option.some_inj] at hlast
    exact h hne (by simpa using hlast)
  · intro h hne hlast
    rw [List.getLast?_eq_some_getLast hne] at h
    exact h (by simpa using hlast)

/-- **What a payload must be** to be read back as it is. -/
theorem left_eq_iff {stale : UInt8} {format : ClipFormat} {bytes : Bytes} :
    left stale format bytes = some bytes ↔ Exact format bytes := by
  cases format with
  | text => exact left_text_iff
  | html => exact left_html_iff
  | rtf => exact (Option.some_inj).trans stripTrailingNuls_iff
  | png => by_cases hb : bytes = [] <;> simp [left, Exact, hb]
  | fileList =>
    rw [Exact, ← files_iff]
    simp only [left]
    split <;> simp_all
  | jpeg | svg | other _ => simp [left, Exact]

/-! ## What is kept of a list -/

/-- The block for each format. -/
def blockOf : ClipFormat → Option Format
  | .text => some .unicodeText
  | .html => some .html
  | .rtf => some .rtf
  | .png => some .png
  | .fileList => some .hdrop
  | .jpeg | .svg | .other _ => none

/-- The bytes that are set for a payload. -/
def raw : ClipFormat × Bytes → Bytes
  | (.text, bytes) => Utf.bytesOf (Utf.encode16 (Utf.decode8 bytes) ++ [0])
  | (.html, bytes) => buildCfHtml bytes
  | (.rtf, bytes) => bytes ++ [0]
  | (.fileList, bytes) => buildHdrop bytes
  | (_, bytes) => bytes

/-- The last payload in a format. -/
def last (payloads : List (ClipFormat × Bytes)) (format : ClipFormat) : Option (ClipFormat × Bytes) :=
  payloads.reverse.find? (·.1 = format)

/-- What is kept of a list: of each format that is read, what is left of its last payload. -/
def kept (stale : UInt8) (payloads : List (ClipFormat × Bytes)) : List (ClipFormat × Bytes) :=
  readable.filterMap fun format =>
    ((last payloads format).bind fun p => left stale format p.2).map (format, ·)

theorem blockOf_inj {f g : ClipFormat} {format : Format} (hf : blockOf f = some format)
    (hg : blockOf g = some format) : f = g := by
  cases f <;> cases g <;> simp_all [blockOf] <;> rw [← hf] at hg <;> cases hg

theorem writeOne_eq (stale : UInt8) (blocks : Blocks) (p : ClipFormat × Bytes) :
    writeOne stale blocks p =
      match blockOf p.1 with
      | some format => setGlobal stale blocks format (raw p)
      | none => blocks := by
  obtain ⟨format, bytes⟩ := p
  cases format <;> rfl

/-- A block holds what was set for the last payload in its format. -/
theorem write_apply {stale : UInt8} {f : ClipFormat} {format : Format}
    (hf : blockOf f = some format) (payloads : List (ClipFormat × Bytes)) :
    write stale payloads format =
      (last payloads f).map fun p => if raw p = [] then [stale] else raw p := by
  induction payloads using List.reverseRecOn with
  | nil => rfl
  | append_singleton payloads p ih =>
    have hlast : last (payloads ++ [p]) f = if p.1 = f then some p else last payloads f := by
      rw [last, List.reverse_append, List.reverse_singleton, List.singleton_append, List.find?_cons]
      by_cases h : p.1 = f <;> simp [h, last]
    rw [write, List.foldl_append, List.foldl_cons, List.foldl_nil, ← write, writeOne_eq, hlast]
    by_cases h : p.1 = f
    · rw [if_pos h, h, hf]
      simp [setGlobal]
    · rw [if_neg h, ← ih]
      cases hp : blockOf p.1 with
      | none => rfl
      | some other =>
        have hne : format ≠ other := by
          rintro rfl
          exact h (blockOf_inj hp hf)
        simp only [setGlobal, Function.update_of_ne hne]

theorem write_exclude (stale : UInt8) (payloads : List (ClipFormat × Bytes)) :
    write stale payloads .exclude = none := by
  induction payloads using List.reverseRecOn with
  | nil => rfl
  | append_singleton payloads p ih =>
    rw [write, List.foldl_append, List.foldl_cons, List.foldl_nil, ← write, writeOne_eq]
    obtain ⟨format, bytes⟩ := p
    cases format <;> simp [blockOf, setGlobal, ih]

theorem last_fst {payloads : List (ClipFormat × Bytes)} {format : ClipFormat}
    {p : ClipFormat × Bytes} (h : last payloads format = some p) : p.1 = format := by
  simpa using List.find?_some h

/-- The reader of the block for each format. -/
def readBlock : ClipFormat → Bytes → Option Bytes
  | .text, block => some (readUnicodeText block)
  | .html, block => some (parseCfHtml block)
  | .rtf, block => some (stripTrailingNuls block)
  | .png, block => some block
  | .fileList, block => readHdrop block
  | .jpeg, _ | .svg, _ | .other _, _ => none

theorem raw_ne_nil {p : ClipFormat × Bytes} (h : p.1 ∈ [.text, .html, .rtf, .fileList]) :
    raw p ≠ [] := by
  obtain ⟨format, bytes⟩ := p
  cases format with
  | text => exact Utf.bytesOf_ne_nil (by simp)
  | html =>
    intro hnil
    have hlen := congrArg List.length hnil
    have := length_cfPrefix
    simp only [raw, buildCfHtml, List.length_append, List.length_nil] at hlen
    omega
  | rtf => simp [raw]
  | fileList => simp [raw, buildHdrop, dropFilesHeader, u32Bytes]
  | png | jpeg | svg | other _ => simp at h

/-- What is read back of one payload. -/
theorem readBlock_raw {stale : UInt8} {f : ClipFormat} {format : Format}
    (hf : blockOf f = some format) (bytes : Bytes) :
    readBlock f (if raw (f, bytes) = [] then [stale] else raw (f, bytes)) = left stale f bytes := by
  cases f with
  | text =>
    rw [if_neg (raw_ne_nil (by simp))]
    exact congrArg some (read_text _)
  | html =>
    rw [if_neg (raw_ne_nil (by simp))]
    exact congrArg some (read_html bytes)
  | rtf =>
    rw [if_neg (raw_ne_nil (by simp))]
    exact congrArg some (List.rdropWhile_concat_pos _ _ _ (by simp))
  | png => rfl
  | fileList =>
    rw [if_neg (raw_ne_nil (by simp))]
    exact read_hdrop bytes
  | jpeg | svg | other _ => cases hf

theorem read_write {stale : UInt8} {f : ClipFormat} {format : Format}
    (hf : blockOf f = some format) (payloads : List (ClipFormat × Bytes)) :
    (write stale payloads format).bind (readBlock f) =
      (last payloads f).bind fun p => left stale f p.2 := by
  rw [write_apply hf]
  cases hl : last payloads f with
  | none => rfl
  | some p =>
    obtain rfl := last_fst hl
    rw [Option.map_some, Option.bind_some, Option.bind_some]
    exact readBlock_raw hf p.2

/-- A look at the clipboard reads the formats one by one. -/
theorem poll_eq {owner : Option String} {blocks : Blocks} (h : blocks .exclude = none) :
    poll owner blocks = .of (readable.filterMap fun f =>
      ((blockOf f).bind fun format => (blocks format).bind (readBlock f)).map (f, ·)) owner := by
  rw [poll, h, if_neg (by simp)]
  simp only [readable, List.filterMap_cons, blockOf, Option.bind_some, id]
  cases blocks .unicodeText <;> cases blocks .html <;> cases blocks .rtf <;> cases blocks .png <;>
    cases blocks .hdrop <;> rfl

/-- **What Windows reads back.** -/
theorem reads (stale : UInt8) (owner : Option String) (payloads : List (ClipFormat × Bytes)) :
    (backend stale owner).Reads payloads False
      { payloads := kept stale payloads, app := owner } where
  untouched h := nomatch h
  concealed _ h := h.elim
  plain {contents} hw _ := by
    obtain rfl := Option.some_inj.1 hw
    have hkept : (readable.filterMap fun f => ((blockOf f).bind fun format =>
        (write stale payloads format).bind (readBlock f)).map (f, ·)) = kept stale payloads := by
      apply List.filterMap_congr
      intro f hf
      congr 1
      cases hb : blockOf f with
      | some format => exact read_write hb payloads
      | none =>
        simp only [readable, List.mem_cons, List.not_mem_nil, or_false] at hf
        rcases hf with rfl | rfl | rfl | rfl | rfl <;> cases hb
    change poll owner (write stale payloads) = _
    rw [poll_eq (write_exclude stale payloads), hkept]

/-! ## Lists that are kept whole -/

/-- No format twice, and each payload is read back as it is. -/
def Whole (payloads : List (ClipFormat × Bytes)) : Prop :=
  (payloads.map (·.1)).Nodup ∧ ∀ p ∈ payloads, Exact p.1 p.2

theorem kept_sublist (stale : UInt8) (payloads : List (ClipFormat × Bytes)) :
    ((kept stale payloads).map (·.1)).Sublist readable := by
  unfold kept
  induction readable with
  | nil => exact .slnil
  | cons f fs ih =>
    rw [List.filterMap_cons]
    cases (last payloads f).bind fun p => left stale f p.2 with
    | none => exact ih.cons _
    | some bytes => exact ih.cons_cons _

theorem mem_kept_iff {stale : UInt8} {payloads : List (ClipFormat × Bytes)}
    {p : ClipFormat × Bytes} : p ∈ kept stale payloads ↔
      p.1 ∈ readable ∧ ∃ q, last payloads p.1 = some q ∧ left stale p.1 q.2 = some p.2 := by
  rw [kept, List.mem_filterMap]
  constructor
  · rintro ⟨f, hf, h⟩
    obtain ⟨bytes, hb, rfl⟩ := Option.map_eq_some_iff.1 h
    exact ⟨hf, Option.bind_eq_some_iff.1 hb⟩
  · rintro ⟨hf, hb⟩
    exact ⟨p.1, hf, Option.map_eq_some_iff.2 ⟨p.2, Option.bind_eq_some_iff.2 hb, rfl⟩⟩

theorem mem_of_last {payloads : List (ClipFormat × Bytes)} {format : ClipFormat}
    {p : ClipFormat × Bytes} (h : last payloads format = some p) : p ∈ payloads :=
  List.mem_reverse.1 (List.mem_of_find?_eq_some h)

/-- Where no format stands twice, each payload is the last one in its format. -/
theorem last_eq_some {payloads : List (ClipFormat × Bytes)} (hn : (payloads.map (·.1)).Nodup)
    {p : ClipFormat × Bytes} (h : p ∈ payloads) : last payloads p.1 = some p := by
  cases hl : last payloads p.1 with
  | none =>
    have := List.find?_eq_none.1 hl p (List.mem_reverse.2 h)
    simp at this
  | some q => rw [List.inj_on_of_nodup_map hn (mem_of_last hl) h (last_fst hl)]

theorem mem_readable_of_exact {format : ClipFormat} {bytes : Bytes} (h : Exact format bytes) :
    format ∈ readable := by
  cases format with
  | jpeg | svg | other _ => exact h.elim
  | text | html | rtf | png | fileList => simp [readable]

/-- **Which lists are kept whole.** -/
theorem whole_iff {stale : UInt8} {payloads : List (ClipFormat × Bytes)} :
    payloads.Perm (kept stale payloads) ↔ Whole payloads := by
  have hk : ((kept stale payloads).map (·.1)).Nodup := nodup_of_sublist (kept_sublist _ _)
  constructor
  · intro h
    have hn : (payloads.map (·.1)).Nodup := (h.map _).nodup_iff.2 hk
    refine ⟨hn, fun p hp => ?_⟩
    obtain ⟨-, q, hq, hleft⟩ := mem_kept_iff.1 (h.mem_iff.1 hp)
    rw [last_eq_some hn hp, Option.some_inj] at hq
    rw [← hq] at hleft
    exact left_eq_iff.1 hleft
  · rintro ⟨hn, hexact⟩
    apply (List.perm_ext_iff_of_nodup hn.of_map hk.of_map).2
    intro p
    rw [mem_kept_iff]
    constructor
    · intro hp
      exact ⟨mem_readable_of_exact (hexact p hp), p, last_eq_some hn hp, left_eq_iff.2 (hexact p hp)⟩
    · rintro ⟨-, q, hq, hleft⟩
      -- the payload that is left is the payload that was set
      have hself : left stale q.1 q.2 = some q.2 := left_eq_iff.2 (hexact q (mem_of_last hq))
      rw [last_fst hq, hleft, Option.some_inj] at hself
      have hpq : p = q := Prod.ext (last_fst hq).symm hself
      exact hpq ▸ mem_of_last hq

end Windows
end Clipse
