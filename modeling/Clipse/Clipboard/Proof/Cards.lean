import Clipse.Clipboard.Sensitive

/-!
# Which card numbers are caught

The scan looks at each maximal run of digits, spaces and dashes as one number
(`containsLuhnValidCardNumber_iff`). So a card number is caught where its run holds no other digit
(`exists_run_of_alone`), and what stands beside it in the run can hide it.
-/

namespace Clipse

/-- 13 to 19 digits of an issuer that pass the Luhn check. -/
def isCardNumber (digits : List Char) : Bool :=
  (13 ≤ digits.length && digits.length ≤ 19) && hasCardIssuerPrefix digits && luhnValid digits

/-- May the character stand in a run? -/
def inRun (c : Char) : Bool := c.isDigit || c = ' ' || c = '-'

/-- The maximal runs of digits, spaces and dashes. -/
def cardRuns (text : List Char) : List (List Char) := text.splitOnP fun c => !inRun c

/-- The text contains a card number that no other digit touches. -/
def HoldsCard (text : List Char) : Prop :=
  ∃ pre card post, text = pre ++ card ++ post ∧ isCardNumber card = true ∧
    (∀ c ∈ card, c.isDigit = true) ∧ (∀ c ∈ pre.getLast?, c.isDigit = false) ∧
    ∀ c ∈ post.head?, c.isDigit = false

theorem checkRun_eq (run : List Char) : checkRun run = isCardNumber (run.filter Char.isDigit) := rfl

theorem checkRun_nonempty (run : List Char) : (run ≠ [] && checkRun run) = checkRun run := by
  cases run with
  | nil => rfl
  | cons c run => rfl

/-- **The scan**: what is left of the text is looked at run by run, the first with what was read of
it before. -/
theorem scanCards_eq (run text : List Char) :
    scanCards run text = ((cardRuns text).modifyHead (run ++ ·)).any checkRun := by
  induction text generalizing run with
  | nil =>
    rw [scanCards, checkRun_nonempty, cardRuns, List.splitOnP_nil, List.modifyHead_cons,
      List.append_nil, List.any_cons, List.any_nil, Bool.or_false]
  | cons c text ih =>
    obtain ⟨first, rest, hruns⟩ : ∃ first rest, cardRuns text = first :: rest :=
      List.exists_cons_of_ne_nil (List.splitOnP_ne_nil _ text)
    rw [scanCards, ih, ih, hruns, cardRuns, List.splitOnP_cons_eq_if_modifyHead,
      show text.splitOnP (fun c => !inRun c) = first :: rest from hruns, checkRun_nonempty]
    by_cases hc : inRun c = true
    · rw [if_pos (by simpa [inRun] using hc), if_neg (by simp [hc]), List.modifyHead_cons,
        List.modifyHead_cons, List.modifyHead_cons, List.append_assoc, List.singleton_append]
    · rw [if_neg (by simpa [inRun] using hc), if_pos (by simpa using hc), List.modifyHead_cons,
        List.modifyHead_cons, List.nil_append, List.append_nil, List.any_cons, List.any_cons,
        List.any_cons]

/-- Some run is a card number as a whole. -/
theorem containsLuhnValidCardNumber_iff (text : List Char) :
    containsLuhnValidCardNumber text = true ↔
      ∃ run ∈ cardRuns text, isCardNumber (run.filter Char.isDigit) = true := by
  have hsame : (cardRuns text).modifyHead ([] ++ ·) = cardRuns text := by
    cases cardRuns text <;> rfl
  rw [containsLuhnValidCardNumber, scanCards_eq, hsame, List.any_eq_true]
  rfl

/-- What is caught as a card number is a secret. -/
theorem isSome_detectSecret [Regex] {text : List Char}
    (h : containsLuhnValidCardNumber text = true) : (detectSecret text).isSome := by
  unfold detectSecret
  simp only [h, if_true]
  repeat' split
  all_goals rfl

/-! ## A card number alone in its run -/

/-- Text without a break is added to the run. -/
theorem scanCards_append {part : List Char} (hpart : ∀ c ∈ part, inRun c = true)
    (run text : List Char) : scanCards run (part ++ text) = scanCards (run ++ part) text := by
  induction part generalizing run with
  | nil => rw [List.nil_append, List.append_nil]
  | cons c part ih =>
    obtain ⟨hc, hpart⟩ := List.forall_mem_cons.1 hpart
    rw [List.cons_append, scanCards, if_pos (by simpa [inRun] using hc), ih hpart,
      List.append_assoc, List.singleton_append]

/-- After a break the scan starts anew. -/
theorem scanCards_of_break {b : Char} (hb : inRun b = false) {text : List Char}
    (h : scanCards [] text = true) (run before : List Char) :
    scanCards run (before ++ b :: text) = true := by
  induction before generalizing run with
  | nil =>
    rw [List.nil_append, scanCards, if_neg (by simpa [inRun] using hb), h, Bool.or_true]
  | cons c before ih =>
    rw [List.cons_append, scanCards]
    split
    · exact ih _
    · rw [ih, Bool.or_true]

/-- A run that is a card number is seen at its end. -/
theorem scanCards_of_end {run text : List Char} (hrun : checkRun run = true)
    (hend : ∀ c ∈ text.head?, inRun c = false) : scanCards run text = true := by
  cases text with
  | nil => rw [scanCards, checkRun_nonempty, hrun]
  | cons c text =>
    have hc : inRun c = false := hend c rfl
    rw [scanCards, if_neg (by simpa [inRun] using hc), checkRun_nonempty, hrun, Bool.true_or]

/-- **A card number alone in its run** is caught, whatever stands beyond the run. -/
theorem caught_of_alone {before left card right after : List Char}
    (hcard : isCardNumber card = true) (hdigits : ∀ c ∈ card, c.isDigit = true)
    (hleft : ∀ c ∈ left, c = ' ' ∨ c = '-') (hright : ∀ c ∈ right, c = ' ' ∨ c = '-')
    (hbefore : ∀ c ∈ before.getLast?, inRun c = false)
    (hafter : ∀ c ∈ after.head?, inRun c = false) :
    containsLuhnValidCardNumber (before ++ (left ++ card ++ right) ++ after) = true := by
  have hsep : ∀ c : Char, c = ' ' ∨ c = '-' → c.isDigit = false ∧ inRun c = true := by
    rintro c (rfl | rfl) <;> decide
  have hrun : ∀ c ∈ left ++ card ++ right, inRun c = true := by
    intro c hc
    rcases List.mem_append.1 hc with hc | hc
    · rcases List.mem_append.1 hc with hc | hc
      · exact (hsep c (hleft c hc)).2
      · rw [inRun, hdigits c hc, Bool.true_or, Bool.true_or]
    · exact (hsep c (hright c hc)).2
  have hfilter : (left ++ card ++ right).filter Char.isDigit = card := by
    have hnone : ∀ l : List Char, (∀ c ∈ l, c = ' ' ∨ c = '-') → l.filter Char.isDigit = [] :=
      fun l hl => List.filter_eq_nil_iff.2 fun c hc => by simp [(hsep c (hl c hc)).1]
    rw [List.filter_append, List.filter_append, hnone left hleft, hnone right hright,
      List.nil_append, List.append_nil, List.filter_eq_self.2 hdigits]
  have hscan : scanCards [] ((left ++ card ++ right) ++ after) = true := by
    rw [scanCards_append hrun, List.nil_append]
    refine scanCards_of_end ?_ hafter
    rw [checkRun_eq, hfilter, hcard]
  rcases List.eq_nil_or_concat before with rfl | ⟨before, b, rfl⟩
  · rw [List.nil_append]
    exact hscan
  · have hb : inRun b = false :=
      hbefore b (by rw [List.concat_eq_append, List.getLast?_concat]; rfl)
    rw [List.concat_eq_append, List.append_assoc, List.append_assoc, List.singleton_append]
    exact scanCards_of_break hb hscan [] before

/-- **Card numbers are caught** exactly in the texts where the digits of some run are one as a
whole, as they are where a card number is alone in its run. -/
theorem card_caught_iff [Regex] :
    (∀ text, (HoldsCard text →
        containsLuhnValidCardNumber text = true ∧ (detectSecret text).isSome) ↔
      (HoldsCard text → ∃ run ∈ cardRuns text, isCardNumber (run.filter Char.isDigit) = true)) ∧
    ∀ before left card right after, isCardNumber card = true → (∀ c ∈ card, c.isDigit = true) →
      (∀ c ∈ left, c = ' ' ∨ c = '-') → (∀ c ∈ right, c = ' ' ∨ c = '-') →
      (∀ c ∈ before.getLast?, inRun c = false) → (∀ c ∈ after.head?, inRun c = false) →
      ∃ run ∈ cardRuns (before ++ (left ++ card ++ right) ++ after),
        isCardNumber (run.filter Char.isDigit) = true := by
  refine ⟨fun text => forall_congr' fun _ => ?_, fun before left card right after hcard hdigits
    hleft hright hbefore hafter => ?_⟩
  · rw [← containsLuhnValidCardNumber_iff]
    exact and_iff_left_of_imp isSome_detectSecret
  · rw [← containsLuhnValidCardNumber_iff]
    exact caught_of_alone hcard hdigits hleft hright hbefore hafter

/-- A number in brackets is caught. -/
theorem card_caught_iff_brackets :
    containsLuhnValidCardNumber "visa (4111111111111111), 12/25".toList = true := by
  have hrun := (@card_caught_iff ⟨fun _ _ => false, fun _ _ => []⟩).2 "visa (".toList []
    "4111111111111111".toList [] "), 12/25".toList (by decide) (List.all_eq_true.1 (by decide))
    nofun nofun (fun c hc => Option.some.inj hc ▸ rfl) (fun c hc => Option.some.inj hc ▸ rfl)
  exact (containsLuhnValidCardNumber_iff _).2 hrun

/-- With its expiry date after a space it is not. -/
theorem card_not_caught :
    ¬ ∀ text, HoldsCard text → containsLuhnValidCardNumber text = true := by
  intro h
  have hholds : HoldsCard "4111111111111111 12/25".toList :=
    ⟨[], "4111111111111111".toList, " 12/25".toList, rfl, by decide,
      List.all_eq_true.1 (by decide), nofun, fun c hc => Option.some.inj hc ▸ rfl⟩
  exact absurd (h _ hholds) (by decide)

end Clipse
