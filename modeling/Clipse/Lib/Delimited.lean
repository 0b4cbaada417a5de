import Mathlib.Data.List.Basic

/-!
# Self-delimiting encodings

An encoding is self-delimiting where what it has written can be told from whatever follows:
`Delimited P enc`, for the values with `P`. So are the encodings that can be read back (`of_read`),
those that are a self-delimiting encoding of parts (`comap`, `flatMap`, `header`), and those that
mark one of two cases by how they begin (`option`).
-/

variable {α β γ : Type} {P : α → Prop} {Q : γ → Prop}

/-- No two values have encodings of which one continues as the other. -/
def Delimited (P : α → Prop) (enc : α → List β) : Prop :=
  ∀ ⦃a a' : α⦄ ⦃rest rest' : List β⦄, P a → P a' → enc a ++ rest = enc a' ++ rest' →
    a = a' ∧ rest = rest'

namespace Delimited

variable {enc : α → List β}

/-- What can be read back is self-delimiting. -/
theorem of_read (read : List β → α × List β) (h : ∀ a rest, P a → read (enc a ++ rest) = (a, rest)) :
    Delimited P enc := by
  intro a a' rest rest' ha ha' he
  have hr : (a, rest) = (a', rest') := (h a rest ha).symm.trans ((congrArg read he).trans (h a' rest' ha'))
  exact Prod.mk.inj hr

theorem injective (h : Delimited P enc) {a a' : α} (ha : P a) (ha' : P a') (he : enc a = enc a') :
    a = a' := by
  have he' : enc a ++ [] = enc a' ++ [] := by rw [he]
  exact (h ha ha' he').1

/-- A value that is encoded as another one. -/
theorem comap (h : Delimited P enc) {f : γ → α} (hf : ∀ c, Q c → P (f c))
    (hinj : ∀ c c', Q c → Q c' → f c = f c' → c = c') : Delimited Q fun c => enc (f c) := by
  intro c c' rest rest' hc hc' he
  obtain ⟨hfc, hrest⟩ := h (hf c hc) (hf c' hc') he
  exact ⟨hinj c c' hc hc' hfc, hrest⟩

/-- Encodings of a fixed length. -/
theorem of_length {n : Nat} (hlen : ∀ a, (enc a).length = n)
    (hinj : ∀ a a', P a → P a' → enc a = enc a' → a = a') : Delimited P enc := by
  intro a a' rest rest' ha ha' he
  obtain ⟨h, hrest⟩ := List.append_inj he (by rw [hlen, hlen])
  exact ⟨hinj a a' ha ha' h, hrest⟩

/-- Lists of equal length, item by item. -/
theorem flatMap (h : Delimited P enc) :
    ∀ {l l' : List α} {rest rest' : List β}, l.length = l'.length → (∀ a ∈ l, P a) →
      (∀ a ∈ l', P a) → l.flatMap enc ++ rest = l'.flatMap enc ++ rest' → l = l' ∧ rest = rest'
  | [], [], _, _, _, _, _, he => ⟨rfl, he⟩
  | a :: l, a' :: l', _, _, hlen, hl, hl', he => by
    rw [List.forall_mem_cons] at hl hl'
    rw [List.flatMap_cons, List.flatMap_cons, List.append_assoc, List.append_assoc] at he
    obtain ⟨rfl, ht⟩ := h hl.1 hl'.1 he
    obtain ⟨rfl, hrest⟩ := flatMap h (Nat.succ.inj hlen) hl.2 hl'.2 ht
    exact ⟨rfl, hrest⟩

/-- A list behind the number of its items. -/
theorem header {head : Nat → List β} {bound : Nat} (hhead : Delimited (· < bound) head)
    (h : Delimited P enc) :
    Delimited (fun l : List α => l.length < bound ∧ ∀ a ∈ l, P a)
      fun l => head l.length ++ l.flatMap enc := by
  intro l l' rest rest' hl hl' he
  rw [List.append_assoc, List.append_assoc] at he
  obtain ⟨hlen, he⟩ := hhead hl.1 hl'.1 he
  exact h.flatMap hlen hl.2 hl'.2 he

/-- A string of items, each of which stands for itself, behind its length. -/
theorem counted {head : Nat → List α} {bound : Nat} (hhead : Delimited (· < bound) head) :
    Delimited (fun l : List α => l.length < bound) fun l => head l.length ++ l := by
  intro l l' rest rest' hl hl' he
  rw [List.append_assoc, List.append_assoc] at he
  obtain ⟨hlen, he⟩ := hhead hl hl' he
  exact List.append_inj he hlen

/-- A value that may be missing: nothing that is there begins like the mark for that. -/
theorem option {none' : β} (h : Delimited P enc) (hne : ∀ a, P a → ∃ b l, enc a = b :: l ∧ b ≠ none') :
    Delimited (fun o : Option α => ∀ a ∈ o, P a) fun o => o.elim [none'] enc := by
  have hclash : ∀ {a rest rest'}, P a → none' :: rest = enc a ++ rest' → False := by
    intro a rest rest' ha he
    obtain ⟨b, l, hb, hne⟩ := hne a ha
    rw [hb] at he
    exact hne (List.cons_eq_cons.1 he).1.symm
  intro o o' rest rest' ho ho' he
  cases o with
  | none =>
    cases o' with
    | none => exact ⟨rfl, (List.cons_eq_cons.1 he).2⟩
    | some a' => exact (hclash (ho' a' rfl) he).elim
  | some a =>
    cases o' with
    | none => exact (hclash (ho a rfl) he.symm).elim
    | some a' =>
      obtain ⟨rfl, hrest⟩ := h (ho a rfl) (ho' a' rfl) he
      exact ⟨rfl, hrest⟩

end Delimited
