import Mathlib.Order.Lex
import Mathlib.Data.List.Lex
import Mathlib.Order.Lattice

/-!
# Lexicographic order of fixed-width encodings

Comparing two lists of the same length digit by digit is the same as comparing their encodings,
when every element is written with the same number of digits and the encoding is monotone:

* `append_lt_append_iff`: two concatenations whose heads have one length compare by the heads,
  then by the tails.
* `flatMap_lt_flatMap_iff`: an element-wise encoding of a fixed width that preserves and reflects
  the order (of the elements with `P`) preserves and reflects the order of lists of one length.
-/

namespace Lex

variable {α β : Type} [LinearOrder α] [LinearOrder β]

/-- Heads of one length decide first, the tails break ties. -/
theorem append_lt_append_iff :
    ∀ {a a' : List α} {b b' : List α}, a.length = a'.length →
      (a ++ b < a' ++ b' ↔ a < a' ∨ a = a' ∧ b < b')
  | [], [], _, _, _ => by simp
  | x :: a, y :: a', b, b', h => by
    have ih : a ++ b < a' ++ b' ↔ a < a' ∨ a = a' ∧ b < b' :=
      append_lt_append_iff (by simpa using h)
    simp only [List.cons_append, List.cons_lt_cons_iff, ih, List.cons.injEq]
    constructor
    · rintro (hx | ⟨rfl, ha | ⟨rfl, hb⟩⟩)
      · exact .inl (.inl hx)
      · exact .inl (.inr ⟨rfl, ha⟩)
      · exact .inr ⟨⟨rfl, rfl⟩, hb⟩
    · rintro ((hx | ⟨rfl, ha⟩) | ⟨⟨rfl, rfl⟩, hb⟩)
      · exact .inl hx
      · exact .inr ⟨rfl, .inl ha⟩
      · exact .inr ⟨rfl, .inr ⟨rfl, hb⟩⟩

section
variable {enc : α → List β} {P : α → Prop} {n : Nat} (hlen : ∀ a, (enc a).length = n)
  (hlt : ∀ a b, P a → P b → (enc a < enc b ↔ a < b))
include hlt

theorem enc_inj {a b : α} (ha : P a) (hb : P b) : enc a = enc b ↔ a = b := by
  refine ⟨fun h => ?_, fun h => h ▸ rfl⟩
  rcases lt_trichotomy a b with hab | hab | hab
  · exact absurd ((hlt a b ha hb).2 hab) (by simp [h])
  · exact hab
  · exact absurd ((hlt b a hb ha).2 hab) (by simp [h])

include hlen

/-- The encodings of two lists of one length compare as the lists do. -/
theorem flatMap_lt_flatMap_iff :
    ∀ {l l' : List α}, l.length = l'.length → (∀ a ∈ l, P a) → (∀ a ∈ l', P a) →
      (l.flatMap enc < l'.flatMap enc ↔ l < l')
  | [], [], _, _, _ => by simp
  | a :: l, b :: l', h, hl, hl' => by
    simp only [List.forall_mem_cons] at hl hl'
    have ih : l.flatMap enc < l'.flatMap enc ↔ l < l' :=
      flatMap_lt_flatMap_iff (by simpa using h) hl.2 hl'.2
    rw [List.flatMap_cons, List.flatMap_cons,
      append_lt_append_iff (by rw [hlen a, hlen b]), ih, hlt _ _ hl.1 hl'.1,
      List.cons_lt_cons_iff, enc_inj hlt hl.1 hl'.1]

theorem flatMap_inj {l l' : List α} (h : l.length = l'.length) (hl : ∀ a ∈ l, P a)
    (hl' : ∀ a ∈ l', P a) : l.flatMap enc = l'.flatMap enc ↔ l = l' := by
  refine ⟨fun he => ?_, fun h => h ▸ rfl⟩
  rcases lt_trichotomy l l' with hlt' | heq | hlt'
  · exact absurd ((flatMap_lt_flatMap_iff hlen hlt h hl hl').2 hlt') (by simp [he])
  · exact heq
  · exact absurd ((flatMap_lt_flatMap_iff hlen hlt h.symm hl' hl).2 hlt') (by simp [he])

end

end Lex
