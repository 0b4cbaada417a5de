import Clipse.Core.Hash
import Clipse.Lib.Prefixed

/-!
# What is hashed determines its parts

`ContentHash::of_parts` puts the length of every label and of every part in front of it. So
two lists of parts that feed the same bytes to the hasher are the same (`partsInput_inj`), and two
that differ get different hashes unless BLAKE3 collides on them.
-/

namespace Clipse

/-! ## Lengths -/

/-- Parts whose lengths a 64-bit prefix can tell. -/
def Short (parts : List Bytes) : Prop := ∀ p ∈ parts, p.length < 2 ^ 64

theorem length_le64 (n : UInt64) : (le64 n).length = 7 + 1 := by simp [le64]

/-- A number is determined by its digits. -/
theorem eq_of_digits {b : Nat} (hb : 0 < b) : ∀ {k m n : Nat}, m < b ^ k → n < b ^ k →
    (∀ i < k, m / b ^ i % b = n / b ^ i % b) → m = n
  | 0, m, n, hm, hn, _ => by
    rw [pow_zero] at hm hn
    omega
  | k + 1, m, n, hm, hn, h => by
    have hlow : m % b = n % b := by simpa using h 0 (Nat.succ_pos k)
    have hhigh : m / b = n / b := by
      refine eq_of_digits hb (k := k) ?_ ?_ fun i hi => ?_
      · exact Nat.div_lt_of_lt_mul (pow_succ' b k ▸ hm)
      · exact Nat.div_lt_of_lt_mul (pow_succ' b k ▸ hn)
      · rw [Nat.div_div_eq_div_mul, Nat.div_div_eq_div_mul, ← pow_succ']
        exact h (i + 1) (Nat.succ_lt_succ hi)
    rw [← Nat.div_add_mod m b, ← Nat.div_add_mod n b, hlow, hhigh]

theorem le64_inj {m n : Nat} (hm : m < 2 ^ 64) (hn : n < 2 ^ 64)
    (h : le64 (UInt64.ofNat m) = le64 (UInt64.ofNat n)) : m = n := by
  apply eq_of_digits (by omega : 0 < 256) (k := 8) hm hn
  intro i hi
  have hb := (List.map_inj_left.1 h) i (List.mem_range.2 hi)
  have ht := congrArg UInt8.toNat hb
  rw [UInt8.toNat_ofNat', UInt8.toNat_ofNat', UInt64.toNat_ofNat_of_lt' hm,
    UInt64.toNat_ofNat_of_lt' hn] at ht
  simpa using ht

theorem utf8_inj {s t : String} (h : utf8 s = utf8 t) : s = t :=
  String.toByteArray_inj.1 (ByteArray.ext (Array.toList_inj.1 h))

/-! ## Parts -/

/-- Labels and parts whose lengths a 64-bit prefix can tell. -/
def ShortParts (parts : List (String × Bytes)) : Prop :=
  ∀ p ∈ parts, (utf8 p.1).length < 2 ^ 64 ∧ p.2.length < 2 ^ 64

/-- Every label, followed by its part. -/
def alternating (parts : List (String × Bytes)) : List Bytes :=
  parts.flatMap fun p => [utf8 p.1, p.2]

theorem partsInput_eq (parts : List (String × Bytes)) :
    partsInput parts = Prefixed.encode (fun n => le64 (UInt64.ofNat n)) (alternating parts) := by
  induction parts with
  | nil => rfl
  | cons p parts ih =>
    rw [alternating, List.flatMap_cons, List.cons_append, List.singleton_append,
      Prefixed.encode_cons, Prefixed.encode_cons, partsInput, List.flatMap_cons, ContentHash.framed,
      List.append_assoc, List.append_assoc, List.append_assoc]
    exact congrArg (fun rest => _ ++ (_ ++ (_ ++ (_ ++ rest)))) ih

theorem alternating_inj : ∀ {parts parts' : List (String × Bytes)},
    alternating parts = alternating parts' → parts = parts'
  | [], [], _ => rfl
  | p :: parts, p' :: parts', h => by
    simp only [alternating, List.flatMap_cons, List.cons_append, List.nil_append,
      List.cons.injEq] at h
    obtain ⟨hlabel, hbytes, hrest⟩ := h
    rw [Prod.ext (utf8_inj hlabel) hbytes, alternating_inj hrest]

theorem ShortParts.alternating {parts : List (String × Bytes)} (h : ShortParts parts) :
    Short (alternating parts) := by
  intro bytes hb
  obtain ⟨p, hp, hb⟩ := List.mem_flatMap.1 hb
  simp only [List.mem_cons, List.not_mem_nil, or_false] at hb
  rcases hb with rfl | rfl
  · exact (h p hp).1
  · exact (h p hp).2

/-- **The hash input determines labels and parts.** -/
theorem partsInput_inj {parts parts' : List (String × Bytes)} (h : ShortParts parts)
    (h' : ShortParts parts') (he : partsInput parts = partsInput parts') : parts = parts' := by
  rw [partsInput_eq, partsInput_eq] at he
  exact alternating_inj
    (Prefixed.encode_inj (fun _ => length_le64 _) (fun _ _ => le64_inj) h.alternating h'.alternating he)

section
variable [Blake3]

/-- BLAKE3 tells the inputs apart. -/
def CollisionFree (inputs : List Bytes) : Prop :=
  ∀ x ∈ inputs, ∀ y ∈ inputs, Blake3.hash x = Blake3.hash y → x = y

instance (inputs : List Bytes) : Decidable (CollisionFree inputs) :=
  inferInstanceAs (Decidable (∀ x ∈ inputs, ∀ y ∈ inputs, Blake3.hash x = Blake3.hash y → x = y))

/-- Without a collision, equal hashes are hashes of equal parts. -/
theorem ContentHash.ofParts_inj {parts parts' : List (String × Bytes)} (h : ShortParts parts)
    (h' : ShortParts parts') (hc : CollisionFree [partsInput parts, partsInput parts'])
    (he : ofParts parts = ofParts parts') : parts = parts' :=
  partsInput_inj h h' (hc _ List.mem_cons_self _ (List.mem_cons_of_mem _ List.mem_cons_self) he)

end

end Clipse
