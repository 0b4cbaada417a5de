import Clipse.Lib.Utf

/-!
# Lower case

Texts as UTF-16 code units, with or without their surrogates in pairs, and their lower-case copies
by the default case conversion of Unicode. The properties of characters that it needs are a
parameter, `Unicode`; of them only that one character has a longer lower-case form is assumed.

* `places`: what each unit of a text becomes in the copy.
* `length_lt_toLowerCase`, `places_eq_map`: the copy is longer if that character is in the text, and
  else has one unit for each.
-/

namespace Case

/-- The properties of the Unicode character database that lower-casing needs. -/
class Unicode where
  /-- `Lowercase_Mapping`, without regard to what stands around the character -/
  lowercase : Nat → List Nat
  /-- `Cased` -/
  cased : Nat → Bool
  /-- `Case_Ignorable` -/
  caseIgnorable : Nat → Bool

/-- The code points of a text; a surrogate that is not in a pair is one of its own. -/
def codePoints : List UInt16 → List Nat
  | [] => []
  | [a] => [a.toNat]
  | a :: b :: units =>
    if Utf.isHigh a && Utf.isLow b then
      (0x10000 + (a.toNat - 0xD800) * 0x400 + (b.toNat - 0xDC00)) :: codePoints units
    else a.toNat :: codePoints (b :: units)

/-- The units of a code point. -/
def unitsOf (c : Nat) : List UInt16 :=
  if c < 0x10000 then [UInt16.ofNat c]
  else [UInt16.ofNat (0xD800 + (c - 0x10000) / 0x400),
    UInt16.ofNat (0xDC00 + (c - 0x10000) % 0x400)]

/-- The capital I with a dot. -/
def dottedI : Nat := 0x130

/-- The capital sigma. -/
def sigma : Nat := 0x3A3

/-- The small sigma at the end of a word. -/
def finalSigma : Nat := 0x3C2

section

variable [Unicode]

/-- Does a cased letter follow, after any case-ignorable characters? -/
def reachesCased : List Nat → Bool
  | [] => false
  | c :: text => Unicode.cased c || (Unicode.caseIgnorable c && reachesCased text)

/-- The lower-case form of a character between others, those before it in reverse order: a sigma
that ends a word has one of its own. -/
def lowerIn (before : List Nat) (c : Nat) (after : List Nat) : List Nat :=
  if c = sigma ∧ reachesCased before ∧ ¬ reachesCased after then [finalSigma]
  else Unicode.lowercase c

/-- The characters of a text, each with the units of its lower-case form. -/
def lowerings : List Nat → List Nat → List (Nat × List UInt16)
  | _, [] => []
  | before, c :: text =>
    (c, (lowerIn before c text).flatMap unitsOf) :: lowerings (c :: before) text

/-- `String.prototype.toLowerCase` -/
def toLowerCase (text : List UInt16) : List UInt16 :=
  (lowerings [] (codePoints text)).flatMap (·.2)

/-- What the units of a character become: one unit each, or else the first of them everything. -/
def inUnits (c : Nat) (lower : List UInt16) : List (List UInt16) :=
  if lower.length = (unitsOf c).length then lower.map ([·])
  else lower :: ((unitsOf c).drop 1).map fun _ => []

/-- What each unit of a text becomes in its lower-case copy. -/
def places (text : List UInt16) : List (List UInt16) :=
  (lowerings [] (codePoints text)).flatMap fun l => inUnits l.1 l.2

/-- Only the capital I with a dot has a lower-case form of more (or fewer) units than it has itself:
a small i and a dot above it. -/
structure Unicode.Documented : Prop where
  dotted : Unicode.lowercase dottedI = [0x69, 0x307]
  length : ∀ c, c ≠ dottedI → ((Unicode.lowercase c).flatMap unitsOf).length = (unitsOf c).length

def latinLowercase (c : Nat) : List Nat :=
  if (0x41 ≤ c ∧ c ≤ 0x5A) ∨ (0xC0 ≤ c ∧ c ≤ 0xDE ∧ c ≠ 0xD7) then [c + 0x20]
  else if c = dottedI then [0x69, 0x307]
  else if c = sigma then [0x3C3]
  else [c]

/-- The characters below U+0100, and the two others that have rules of their own. -/
@[reducible] def Unicode.latin : Unicode where
  lowercase := latinLowercase
  cased c :=
    (0x41 ≤ c && c ≤ 0x5A) || (0x61 ≤ c && c ≤ 0x7A) || c = 0xAA || c = 0xB5 || c = 0xBA ||
      (0xC0 ≤ c && c ≤ 0xFF && c ≠ 0xD7 && c ≠ 0xF7) || c = dottedI || c = sigma
  caseIgnorable c :=
    [0x27, 0x2E, 0x3A, 0x5E, 0x60, 0xA8, 0xAD, 0xAF, 0xB4, 0xB7, 0xB8, 0x307].contains c

end

theorem length_unitsOf_pos (c : Nat) : 0 < (unitsOf c).length := by
  unfold unitsOf
  split <;> simp

theorem unitsOf_unit (u : UInt16) : unitsOf u.toNat = [u] := by
  rw [unitsOf, if_pos u.toNat_lt, UInt16.ofNat_toNat]

/-- A text has the units of its code points. -/
theorem flatMap_codePoints (text : List UInt16) : (codePoints text).flatMap unitsOf = text := by
  induction text using codePoints.induct with
  | case1 => rfl
  | case2 a => simp [codePoints, unitsOf_unit]
  | case3 a b units h ih =>
    obtain ⟨ha, hb⟩ := Bool.and_eq_true_iff.mp h
    rw [Utf.isHigh_iff] at ha
    rw [Utf.isLow_iff] at hb
    have hu : unitsOf (0x10000 + (a.toNat - 0xD800) * 0x400 + (b.toNat - 0xDC00)) = [a, b] := by
      have h1 : 0xD800 + (0x10000 + (a.toNat - 0xD800) * 0x400 + (b.toNat - 0xDC00) - 0x10000)
          / 0x400 = a.toNat := by omega
      have h2 : 0xDC00 + (0x10000 + (a.toNat - 0xD800) * 0x400 + (b.toNat - 0xDC00) - 0x10000)
          % 0x400 = b.toNat := by omega
      rw [unitsOf, if_neg (by omega), h1, h2, UInt16.ofNat_toNat, UInt16.ofNat_toNat]
    rw [codePoints, if_pos h, List.flatMap_cons, hu, ih]
    rfl
  | case4 a b units h ih =>
    rw [codePoints, if_neg h, List.flatMap_cons, unitsOf_unit, ih]
    rfl

theorem dottedI_mem_codePoints (text : List UInt16) :
    dottedI ∈ codePoints text ↔ UInt16.ofNat dottedI ∈ text := by
  induction text using codePoints.induct with
  | case1 => simp [codePoints]
  | case2 a =>
    simp [codePoints, dottedI, ← UInt16.toNat_inj, eq_comm]
  | case3 a b units h ih =>
    obtain ⟨ha, hb⟩ := Bool.and_eq_true_iff.mp h
    rw [Utf.isHigh_iff] at ha
    rw [Utf.isLow_iff] at hb
    have h1 : dottedI ≠ 0x10000 + (a.toNat - 0xD800) * 0x400 + (b.toNat - 0xDC00) := by
      unfold dottedI; omega
    have h2 : UInt16.ofNat dottedI ≠ a := by
      rintro rfl; revert ha; decide
    have h3 : UInt16.ofNat dottedI ≠ b := by
      rintro rfl; revert hb; decide
    rw [codePoints, if_pos h]
    simp [h1, h2, h3, ih]
  | case4 a b units h ih =>
    have h1 : dottedI = a.toNat ↔ UInt16.ofNat dottedI = a := by
      rw [← UInt16.toNat_inj]; rfl
    rw [codePoints, if_neg h, List.mem_cons, List.mem_cons, ih, h1]

theorem inUnits_eq_map {c : Nat} {lower : List UInt16} (h : lower.length = (unitsOf c).length) :
    inUnits c lower = lower.map ([·]) := if_pos h

theorem length_inUnits (c : Nat) (lower : List UInt16) :
    (inUnits c lower).length = (unitsOf c).length := by
  unfold inUnits
  split
  · next h => rw [List.length_map, h]
  · have := length_unitsOf_pos c
    simp only [List.length_cons, List.length_map, List.length_drop]
    omega

section

variable [Unicode]

/-- Every unit has its place. -/
theorem length_flatMap_inUnits (before text : List Nat) :
    ((lowerings before text).flatMap fun l => inUnits l.1 l.2).length =
      (text.flatMap unitsOf).length := by
  induction text generalizing before with
  | nil => rfl
  | cons c text ih =>
    rw [lowerings, List.flatMap_cons, List.length_append, ih, length_inUnits, List.flatMap_cons,
      List.length_append]

theorem length_places (text : List UInt16) : (places text).length = text.length := by
  rw [places, length_flatMap_inUnits, flatMap_codePoints]

theorem length_lowerIn (hu : Unicode.Documented) {c : Nat} (hc : c ≠ dottedI)
    (before after : List Nat) :
    ((lowerIn before c after).flatMap unitsOf).length = (unitsOf c).length := by
  unfold lowerIn
  split
  · next h => rw [h.1]; rfl
  · exact hu.length c hc

theorem length_lowerIn_dottedI (hu : Unicode.Documented) (before after : List Nat) :
    ((lowerIn before dottedI after).flatMap unitsOf).length = 2 := by
  rw [lowerIn, if_neg (by rintro ⟨h, -⟩; exact absurd h (by decide)), hu.dotted]
  rfl

/-- A text without the character keeps its units, one for each. -/
theorem flatMap_inUnits_eq_map (hu : Unicode.Documented) {text : List Nat}
    (h : dottedI ∉ text) (before : List Nat) :
    ((lowerings before text).flatMap fun l => inUnits l.1 l.2) =
      ((lowerings before text).flatMap (·.2)).map ([·]) := by
  induction text generalizing before with
  | nil => rfl
  | cons c text ih =>
    obtain ⟨hc, ht⟩ := not_or.mp (List.mem_cons.not.mp h)
    rw [lowerings, List.flatMap_cons, List.flatMap_cons, List.map_append, ih ht,
      inUnits_eq_map (length_lowerIn hu (Ne.symm hc) before text)]

theorem places_eq_map (hu : Unicode.Documented) {text : List UInt16}
    (h : UInt16.ofNat dottedI ∉ text) : places text = (toLowerCase text).map ([·]) :=
  flatMap_inUnits_eq_map hu (fun hd => h ((dottedI_mem_codePoints text).mp hd)) []

theorem length_flatMap_lowerings (hu : Unicode.Documented) (before text : List Nat) :
    (text.flatMap unitsOf).length + text.count dottedI =
      ((lowerings before text).flatMap (·.2)).length := by
  induction text generalizing before with
  | nil => rfl
  | cons c text ih =>
    rw [lowerings, List.flatMap_cons, List.flatMap_cons, List.length_append, List.length_append,
      ← ih]
    by_cases hc : c = dottedI
    · subst hc
      rw [length_lowerIn_dottedI hu, List.count_cons_self]
      have : (unitsOf dottedI).length = 1 := rfl
      omega
    · rw [length_lowerIn hu hc, List.count_cons_of_ne hc]
      omega

/-- The lower-case copy is longer by one unit for each capital I with a dot. -/
theorem length_toLowerCase (hu : Unicode.Documented) (text : List UInt16) :
    (toLowerCase text).length = text.length + (codePoints text).count dottedI := by
  rw [toLowerCase, ← length_flatMap_lowerings hu, flatMap_codePoints]

theorem length_lt_toLowerCase (hu : Unicode.Documented) {text : List UInt16}
    (h : UInt16.ofNat dottedI ∈ text) : text.length < (toLowerCase text).length := by
  rw [length_toLowerCase hu]
  have := List.count_pos_iff.mpr ((dottedI_mem_codePoints text).mpr h)
  omega

end

theorem length_latinLowercase {c : Nat} (hc : c ≠ dottedI) :
    ((latinLowercase c).flatMap unitsOf).length = (unitsOf c).length := by
  have hlt : ∀ d, d < 0x10000 → (unitsOf d).length = 1 := fun d hd => by
    rw [unitsOf, if_pos hd, List.length_singleton]
  have hone : ∀ d, ([d].flatMap unitsOf).length = (unitsOf d).length := fun d => by simp
  rw [latinLowercase, if_neg hc]
  split
  · rw [hone, hlt _ (by omega), hlt _ (by omega)]
  · split
    · next h => rw [h]; rfl
    · exact hone c

theorem Unicode.documented_latin : @Unicode.Documented Unicode.latin :=
  letI := Unicode.latin
  { dotted := rfl
    length := fun _ => length_latinLowercase }

end Case
