import Mathlib.Data.List.Basic

/-!
# Groups of six bits

Three bytes are four numbers below 64. What is left of the bytes at the end is padded with zero bits,
and the numbers that would be padding alone are left out.

* `bytes_sextets`: the bytes come back.
* `bytes_eq_none_iff`: only a single number that is left over is no byte.
-/

namespace Base64

/-- The bytes in groups of six bits. -/
def sextets : List UInt8 → List Nat
  | [] => []
  | [a] => [a.toNat / 4, a.toNat % 4 * 16]
  | [a, b] => [a.toNat / 4, a.toNat % 4 * 16 + b.toNat / 16, b.toNat % 16 * 4]
  | a :: b :: c :: rest =>
    a.toNat / 4 :: (a.toNat % 4 * 16 + b.toNat / 16) :: (b.toNat % 16 * 4 + c.toNat / 64) ::
      c.toNat % 64 :: sextets rest

/-- The byte of the first two numbers of a group, of the next two, and of the last two. -/
def byte₀ (v w : Nat) : UInt8 := UInt8.ofNat (v * 4 + w / 16)
def byte₁ (w x : Nat) : UInt8 := UInt8.ofNat (w % 16 * 16 + x / 4)
def byte₂ (x y : Nat) : UInt8 := UInt8.ofNat (x % 4 * 64 + y)

/-- The bytes of groups of six bits. -/
def bytes : List Nat → Option (List UInt8)
  | [] => some []
  | [_] => none
  | [v, w] => some [byte₀ v w]
  | [v, w, x] => some [byte₀ v w, byte₁ w x]
  | v :: w :: x :: y :: rest => (bytes rest).map ([byte₀ v w, byte₁ w x, byte₂ x y] ++ ·)

theorem byte₀_of (a b : UInt8) : byte₀ (a.toNat / 4) (a.toNat % 4 * 16 + b.toNat / 16) = a := by
  have ha := a.toNat_lt
  have hb := b.toNat_lt
  apply UInt8.toNat_inj.1
  rw [byte₀, UInt8.toNat_ofNat']
  omega

theorem byte₁_of (a b c : UInt8) :
    byte₁ (a.toNat % 4 * 16 + b.toNat / 16) (b.toNat % 16 * 4 + c.toNat / 64) = b := by
  have hb := b.toNat_lt
  have hc := c.toNat_lt
  apply UInt8.toNat_inj.1
  rw [byte₁, UInt8.toNat_ofNat']
  omega

theorem byte₂_of (b c : UInt8) : byte₂ (b.toNat % 16 * 4 + c.toNat / 64) (c.toNat % 64) = c := by
  have hc := c.toNat_lt
  apply UInt8.toNat_inj.1
  rw [byte₂, UInt8.toNat_ofNat']
  omega

/-- **The bytes come back.** -/
theorem bytes_sextets : ∀ bs : List UInt8, bytes (sextets bs) = some bs
  | [] => rfl
  | [a] => by
    have h := byte₀_of a 0
    rw [sextets, bytes]
    exact congrArg (fun b => some [b]) h
  | [a, b] => by
    have h := byte₁_of a b 0
    rw [sextets, bytes, byte₀_of]
    exact congrArg (fun b => some [a, b]) h
  | a :: b :: c :: rest => by
    rw [sextets, bytes, bytes_sextets rest, byte₀_of, byte₁_of, byte₂_of]
    rfl

theorem lt_of_mem_sextets {bs : List UInt8} {v : Nat} (h : v ∈ sextets bs) : v < 64 := by
  induction bs using sextets.induct with
  | case1 => cases h
  | case2 a =>
    have ha := a.toNat_lt
    simp only [sextets, List.mem_cons, List.not_mem_nil, or_false] at h
    omega
  | case3 a b =>
    have ha := a.toNat_lt
    have hb := b.toNat_lt
    simp only [sextets, List.mem_cons, List.not_mem_nil, or_false] at h
    omega
  | case4 a b c rest ih =>
    have ha := a.toNat_lt
    have hb := b.toNat_lt
    have hc := c.toNat_lt
    simp only [sextets, List.mem_cons] at h
    rcases h with h | h | h | h | h
    · omega
    · omega
    · omega
    · omega
    · exact ih h

/-- **What is no sequence of bytes**: a single number is left over. -/
theorem bytes_eq_none_iff (vs : List Nat) : bytes vs = none ↔ vs.length % 4 = 1 := by
  induction vs using bytes.induct with
  | case1 => simp [bytes]
  | case2 => simp [bytes]
  | case3 => simp [bytes]
  | case4 => simp [bytes]
  | case5 v w x y rest ih =>
    rw [bytes, Option.map_eq_none_iff, ih]
    simp only [List.length_cons]
    omega

end Base64
