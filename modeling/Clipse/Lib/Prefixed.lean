import Mathlib.Data.List.Basic

/-!
# Length-prefixed concatenation

Writing every part of a list behind a header that gives its length is injective, whatever the
parts contain: `encode_inj`. A header has a fixed width and tells the lengths below a bound apart.
-/

namespace Prefixed

variable {α : Type}

/-- Every part behind the header of its length. -/
def encode (header : Nat → List α) (parts : List (List α)) : List α :=
  parts.flatMap fun p => header p.length ++ p

@[simp] theorem encode_nil (header : Nat → List α) : encode header [] = [] := rfl

theorem encode_cons (header : Nat → List α) (p : List α) (parts : List (List α)) :
    encode header (p :: parts) = header p.length ++ (p ++ encode header parts) := by
  simp [encode]

section
variable {header : Nat → List α} {width bound : Nat} (hw : ∀ n, (header n).length = width + 1)
  (hinj : ∀ m n, m < bound → n < bound → header m = header n → m = n)
include hw hinj

/-- The first part and what follows it can be read off. -/
theorem cons_inj {p q : List α} {l l' : List α} (hp : p.length < bound) (hq : q.length < bound)
    (h : header p.length ++ (p ++ l) = header q.length ++ (q ++ l')) : p = q ∧ l = l' := by
  obtain ⟨hh, hr⟩ := List.append_inj h (by rw [hw, hw])
  exact List.append_inj hr (hinj _ _ hp hq hh)

/-- **Two lists of parts with one encoding are equal.** -/
theorem encode_inj : ∀ {parts parts' : List (List α)}, (∀ p ∈ parts, p.length < bound) →
    (∀ p ∈ parts', p.length < bound) → encode header parts = encode header parts' →
      parts = parts'
  | [], [], _, _, _ => rfl
  | [], q :: qs, _, _, h => by
    have hl := congrArg List.length h
    rw [encode_nil, encode_cons, List.length_nil, List.length_append, hw] at hl
    omega
  | p :: ps, [], _, _, h => by
    have hl := congrArg List.length h
    rw [encode_nil, encode_cons, List.length_nil, List.length_append, hw] at hl
    omega
  | p :: ps, q :: qs, hp, hq, h => by
    rw [encode_cons, encode_cons] at h
    rw [List.forall_mem_cons] at hp hq
    obtain ⟨rfl, ht⟩ := cons_inj hw hinj hp.1 hq.1 h
    rw [encode_inj hp.2 hq.2 ht]

end

end Prefixed
