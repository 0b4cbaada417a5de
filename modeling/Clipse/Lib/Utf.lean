import Mathlib.Data.List.Basic
import Mathlib.Data.Char

/-!
# Text as bytes

UTF-8, UTF-16 and little-endian bytes of a text, which is a list of characters. Decoding never
fails: what encodes no character becomes U+FFFD, one for each maximal ill-formed part.

* `decode8_encode8_append`, `decode16_encode16`, `unitsOf_bytesOf_append`: decoding inverts encoding.
-/

namespace Utf

/-- What stands for bytes or units that encode no character. -/
def replacement : Char := Char.ofNat 0xFFFD

/-! ## UTF-8 -/

/-- The bytes of a text. -/
def encode8 (text : List Char) : List UInt8 := text.flatMap String.utf8EncodeChar

/-- The character that the bytes start with the encoding of. -/
def next? (bytes : List UInt8) : Option Char := bytes.toByteArray.utf8DecodeChar? 0

/-- A continuation byte. -/
def isTail (b : UInt8) : Bool := 0x80 ≤ b && b ≤ 0xBF

/-- May a character of three or four bytes start with these two? -/
def starts (a b : UInt8) : Bool :=
  if a = 0xE0 then 0xA0 ≤ b && b ≤ 0xBF
  else if a = 0xED then 0x80 ≤ b && b ≤ 0x9F
  else if a = 0xF0 then 0x90 ≤ b && b ≤ 0xBF
  else if a = 0xF4 then 0x80 ≤ b && b ≤ 0x8F
  else 0xE1 ≤ a && a ≤ 0xF3 && isTail b

/-- The bytes that one replacement character stands for: as many as could have been the start of a
character, at least one. -/
def illFormed : List UInt8 → Nat
  | a :: b :: c :: _ => if starts a b then if 0xF0 ≤ a && isTail c then 3 else 2 else 1
  | [a, b] => if starts a b then 2 else 1
  | _ => 1

/-- `decode8` with fuel for one character at a time. -/
def decode8Go : Nat → List UInt8 → List Char
  | 0, _ => []
  | _ + 1, [] => []
  | n + 1, b :: bytes =>
    match next? (b :: bytes) with
    | some c => c :: decode8Go n ((b :: bytes).drop c.utf8Size)
    | none => replacement :: decode8Go n ((b :: bytes).drop (illFormed (b :: bytes)))

/-- The text of some bytes. -/
def decode8 (bytes : List UInt8) : List Char := decode8Go bytes.length bytes

@[simp] theorem encode8_nil : encode8 [] = [] := rfl

@[simp] theorem encode8_cons (c : Char) (text : List Char) :
    encode8 (c :: text) = String.utf8EncodeChar c ++ encode8 text := rfl

@[simp] theorem encode8_append (s t : List Char) : encode8 (s ++ t) = encode8 s ++ encode8 t :=
  List.flatMap_append

@[simp] theorem encode8_eq_nil {text : List Char} : encode8 text = [] ↔ text = [] := by
  cases text with
  | nil => simp
  | cons c text => simp [String.utf8EncodeChar_ne_nil]

theorem next?_encode8 (c : Char) (bytes : List UInt8) :
    next? (String.utf8EncodeChar c ++ bytes) = some c := by
  rw [next?, List.toByteArray_append, ByteArray.utf8DecodeChar?_utf8EncodeChar_append]

theorem illFormed_pos (bytes : List UInt8) : 0 < illFormed bytes := by
  unfold illFormed
  split
  · split
    · split <;> omega
    · omega
  · split <;> omega
  · omega

/-- Fuel beyond the number of bytes changes nothing. -/
theorem decode8Go_eq {n m : Nat} {bytes : List UInt8} (hn : bytes.length ≤ n)
    (hm : bytes.length ≤ m) : decode8Go n bytes = decode8Go m bytes := by
  induction n generalizing m bytes with
  | zero =>
    obtain rfl := List.length_eq_zero_iff.1 (Nat.le_zero.1 hn)
    cases m <;> rfl
  | succ n ih =>
    cases bytes with
    | nil => cases m <;> rfl
    | cons b bytes =>
      obtain ⟨m, rfl⟩ : ∃ k, m = k + 1 := ⟨m - 1, by simp at hm; omega⟩
      simp only [List.length_cons] at hn hm
      unfold decode8Go
      split
      · next c _ =>
        have := c.utf8Size_pos
        rw [ih] <;> simp only [List.length_drop, List.length_cons] <;> omega
      · have := illFormed_pos (b :: bytes)
        rw [ih] <;> simp only [List.length_drop, List.length_cons] <;> omega

theorem decode8_encodeChar_append (c : Char) (bytes : List UInt8) :
    decode8 (String.utf8EncodeChar c ++ bytes) = c :: decode8 bytes := by
  have hlen := String.length_utf8EncodeChar c
  cases hb : String.utf8EncodeChar c ++ bytes with
  | nil => simp [String.utf8EncodeChar_ne_nil] at hb
  | cons b rest =>
    have hnext := next?_encode8 c bytes
    rw [hb] at hnext
    rw [decode8, List.length_cons, decode8Go, hnext]
    simp only [List.cons.injEq, true_and]
    have hdrop : (b :: rest).drop c.utf8Size = bytes := by
      rw [← hb, ← hlen, List.drop_left]
    rw [hdrop]
    apply decode8Go_eq _ le_rfl
    have := congrArg List.length hdrop
    have := c.utf8Size_pos
    simp only [List.length_drop, List.length_cons] at *
    omega

/-- **The bytes of a text decode to it**, whatever follows them. -/
theorem decode8_encode8_append (text : List Char) (bytes : List UInt8) :
    decode8 (encode8 text ++ bytes) = text ++ decode8 bytes := by
  induction text with
  | nil => rfl
  | cons c text ih =>
    rw [encode8_cons, List.append_assoc, decode8_encodeChar_append, ih, List.cons_append]

@[simp] theorem decode8_encode8 (text : List Char) : decode8 (encode8 text) = text := by
  have h := decode8_encode8_append text []
  simpa [decode8, decode8Go] using h

/-- A text of ASCII has one byte for each character. -/
theorem length_encode8_of_ascii {text : List Char} (h : ∀ c ∈ text, c.val ≤ 127) :
    (encode8 text).length = text.length := by
  induction text with
  | nil => rfl
  | cons c text ih =>
    have hc : c.utf8Size = 1 := Char.utf8Size_eq_one_iff.2 (h c List.mem_cons_self)
    rw [encode8_cons, List.length_append, String.length_utf8EncodeChar, hc,
      ih fun d hd => h d (List.mem_cons_of_mem _ hd), List.length_cons, Nat.add_comm]

/-! ## UTF-16 -/

/-- The units of a character: two for what lies beyond the first plane. -/
def encodeChar16 (c : Char) : List UInt16 :=
  if c.toNat < 0x10000 then [.ofNat c.toNat]
  else [.ofNat (0xD800 + (c.toNat - 0x10000) / 0x400), .ofNat (0xDC00 + (c.toNat - 0x10000) % 0x400)]

/-- The units of a text. -/
def encode16 (text : List Char) : List UInt16 := text.flatMap encodeChar16

def isHigh (u : UInt16) : Bool := 0xD800 ≤ u && u ≤ 0xDBFF

def isLow (u : UInt16) : Bool := 0xDC00 ≤ u && u ≤ 0xDFFF

/-- The text of some units. -/
def decode16 : List UInt16 → List Char
  | [] => []
  | [u] => if isHigh u || isLow u then [replacement] else [Char.ofNat u.toNat]
  | u :: v :: units =>
    if isHigh u then
      if isLow v then
        Char.ofNat (0x10000 + (u.toNat - 0xD800) * 0x400 + (v.toNat - 0xDC00)) :: decode16 units
      else replacement :: decode16 (v :: units)
    else if isLow u then replacement :: decode16 (v :: units)
    else Char.ofNat u.toNat :: decode16 (v :: units)

theorem isHigh_iff {u : UInt16} : isHigh u ↔ 0xD800 ≤ u.toNat ∧ u.toNat ≤ 0xDBFF := by
  simp [isHigh, UInt16.le_iff_toNat_le]

theorem isLow_iff {u : UInt16} : isLow u ↔ 0xDC00 ≤ u.toNat ∧ u.toNat ≤ 0xDFFF := by
  simp [isLow, UInt16.le_iff_toNat_le]

/-- A character is no surrogate. -/
theorem toNat_char (c : Char) :
    c.toNat < 0xD800 ∨ (0xDFFF < c.toNat ∧ c.toNat < 0x110000) := c.valid

/-- A unit that is no surrogate is a character. -/
theorem decode16_cons {u : UInt16} (hh : ¬ isHigh u) (hl : ¬ isLow u) (units : List UInt16) :
    decode16 (u :: units) = Char.ofNat u.toNat :: decode16 units := by
  cases units with
  | nil => simp [decode16, hh, hl]
  | cons v units => simp [decode16, hh, hl]

theorem decode16_encodeChar16_append (c : Char) (units : List UInt16) :
    decode16 (encodeChar16 c ++ units) = c :: decode16 units := by
  have hc := toNat_char c
  unfold encodeChar16
  split
  · next hlt =>
    have hu : (UInt16.ofNat c.toNat).toNat = c.toNat := by
      rw [UInt16.toNat_ofNat', Nat.mod_eq_of_lt hlt]
    rw [List.singleton_append, decode16_cons, hu, Char.ofNat_toNat]
    · rw [isHigh_iff, hu]
      omega
    · rw [isLow_iff, hu]
      omega
  · next hge =>
    have hu : (UInt16.ofNat (0xD800 + (c.toNat - 0x10000) / 0x400)).toNat =
        0xD800 + (c.toNat - 0x10000) / 0x400 := by
      rw [UInt16.toNat_ofNat', Nat.mod_eq_of_lt (by omega)]
    have hv : (UInt16.ofNat (0xDC00 + (c.toNat - 0x10000) % 0x400)).toNat =
        0xDC00 + (c.toNat - 0x10000) % 0x400 := by
      rw [UInt16.toNat_ofNat', Nat.mod_eq_of_lt (by omega)]
    have hhigh : isHigh (.ofNat (0xD800 + (c.toNat - 0x10000) / 0x400)) := by
      rw [isHigh_iff, hu]
      omega
    have hlow : isLow (.ofNat (0xDC00 + (c.toNat - 0x10000) % 0x400)) := by
      rw [isLow_iff, hv]
      omega
    have hsum : 0x10000 + (0xD800 + (c.toNat - 0x10000) / 0x400 - 0xD800) * 0x400 +
        (0xDC00 + (c.toNat - 0x10000) % 0x400 - 0xDC00) = c.toNat := by
      omega
    rw [List.cons_append, List.singleton_append, decode16, if_pos hhigh, if_pos hlow, hu, hv, hsum,
      Char.ofNat_toNat]

/-- **The units of a text decode to it.** -/
@[simp] theorem decode16_encode16 (text : List Char) : decode16 (encode16 text) = text := by
  induction text with
  | nil => rfl
  | cons c text ih =>
    change decode16 (encodeChar16 c ++ encode16 text) = _
    rw [decode16_encodeChar16_append, ih]

@[simp] theorem encode16_append (s t : List Char) : encode16 (s ++ t) = encode16 s ++ encode16 t :=
  List.flatMap_append

@[simp] theorem encode16_cons (c : Char) (text : List Char) :
    encode16 (c :: text) = encodeChar16 c ++ encode16 text := rfl

theorem encodeChar16_ne_nil (c : Char) : encodeChar16 c ≠ [] := by
  unfold encodeChar16
  split <;> simp

@[simp] theorem encode16_eq_nil {text : List Char} : encode16 text = [] ↔ text = [] := by
  cases text with
  | nil => simp [encode16]
  | cons c text => simp [encodeChar16_ne_nil]

/-- Only the character NUL has a zero unit. -/
theorem zero_mem_encodeChar16 {c : Char} : 0 ∈ encodeChar16 c ↔ c = Char.ofNat 0 := by
  have hc := toNat_char c
  have hz : ∀ {n : Nat}, n < 65536 → ((0 : UInt16) = .ofNat n ↔ n = 0) := by
    intro n hn
    rw [← UInt16.toNat_inj, UInt16.toNat_ofNat', Nat.mod_eq_of_lt hn]
    exact eq_comm
  have hnul : c = Char.ofNat 0 ↔ c.toNat = 0 := by
    constructor
    · rintro rfl
      rfl
    · intro h
      rw [← Char.ofNat_toNat c, h]
  unfold encodeChar16
  split
  · next hlt => rw [List.mem_singleton, hz hlt, hnul]
  · next hge =>
    rw [List.mem_cons, List.mem_singleton, hz (by omega), hz (by omega), hnul]
    omega

/-- Cutting the units off at a zero cuts the text off at a NUL. -/
theorem takeWhile_encode16 (text : List Char) :
    (encode16 text ++ [0]).takeWhile (· ≠ 0) = encode16 (text.takeWhile (· ≠ Char.ofNat 0)) := by
  induction text with
  | nil => rfl
  | cons c text ih =>
    by_cases hc : c = Char.ofNat 0
    · subst hc
      rfl
    · have hne : ∀ u ∈ encodeChar16 c, decide (u ≠ 0) := by
        intro u hu
        rw [decide_eq_true_iff]
        rintro rfl
        exact hc (zero_mem_encodeChar16.1 hu)
      rw [encode16_cons, List.append_assoc, List.takeWhile_append_of_pos hne, ih,
        List.takeWhile_cons_of_pos (by simpa using hc), encode16_cons]

/-- `u16::to_le_bytes` of each unit. -/
def bytesOf (units : List UInt16) : List UInt8 :=
  units.flatMap fun u => [.ofNat (u.toNat % 256), .ofNat (u.toNat / 256)]

/-- The units that the bytes hold, two bytes each; an odd byte at the end is left out. -/
def unitsOf : List UInt8 → List UInt16
  | a :: b :: bytes => .ofNat (a.toNat + 256 * b.toNat) :: unitsOf bytes
  | _ => []

theorem bytesOf_ne_nil {units : List UInt16} (h : units ≠ []) : bytesOf units ≠ [] := by
  cases units with
  | nil => exact absurd rfl h
  | cons u units => simp [bytesOf]

theorem unitsOf_bytesOf_append (units : List UInt16) (rest : List UInt8) :
    unitsOf (bytesOf units ++ rest) = units ++ unitsOf rest := by
  induction units with
  | nil => rfl
  | cons u units ih =>
    have hu := u.toNat_lt
    have hu' : UInt16.ofNat (u.toNat % 256 + 256 * (u.toNat / 256)) = u := by
      rw [Nat.mod_add_div]
      exact UInt16.ofNat_toNat
    change unitsOf (_ :: _ :: (bytesOf units ++ rest)) = _
    rw [unitsOf, ih, UInt8.toNat_ofNat', UInt8.toNat_ofNat', Nat.mod_mod,
      Nat.mod_eq_of_lt (by omega : u.toNat / 256 < 2 ^ 8), hu', List.cons_append]

@[simp] theorem unitsOf_bytesOf (units : List UInt16) : unitsOf (bytesOf units) = units := by
  have h := unitsOf_bytesOf_append units []
  rwa [List.append_nil, show unitsOf [] = [] from rfl, List.append_nil] at h

theorem unitsOf_zeros : ∀ n : Nat, unitsOf (List.replicate n 0) = List.replicate (n / 2) 0
  | 0 => rfl
  | 1 => rfl
  | n + 2 => by
    have hhalf : (n + 2) / 2 = n / 2 + 1 := by omega
    rw [hhalf, List.replicate_succ, List.replicate_succ, List.replicate_succ, unitsOf,
      unitsOf_zeros n]
    rfl

end Utf
