import Clipse.Lib.Lex
import Mathlib.Data.Char
import Mathlib.Data.Vector.Basic

/-!
# Device and clip identities (`clipse-core/src/id.rs`)

A `DeviceId` is a UUID: 16 bytes, ordered as `Uuid` orders them (byte by byte). The store keeps it
as the text `Uuid::to_string` gives and sorts by that text, so the text is modelled too:
`text_lt_text_iff` says that both orders agree.

A `ClipId` is a UUID drawn at random; the code only ever compares two of them for equality, so it
is modelled as a name from an unbounded supply.
-/

namespace Clipse

/-- `DeviceId(Uuid)`: the 16 bytes of the UUID. -/
structure DeviceId where
  bytes : Vector UInt8 16
deriving DecidableEq

/-- `ClipId(Uuid)`. -/
structure ClipId where
  uuid : Nat
deriving DecidableEq

namespace DeviceId

/-- The bytes as numbers, most significant first: what `Uuid`'s derived `Ord` compares. -/
def key (d : DeviceId) : List Nat := d.bytes.toList.map UInt8.toNat

/-- The device whose bytes are all `b`, for worked examples. -/
def repeated (b : UInt8) : DeviceId := ⟨.replicate 16 b⟩

theorem key_injective : Function.Injective key := by
  rintro ⟨⟨⟨a⟩, ha⟩⟩ ⟨⟨⟨b⟩, hb⟩⟩ h
  have hab : a = b := List.map_injective_iff.2 (fun _ _ => UInt8.toNat_inj.1) h
  subst hab
  rfl

theorem key_length (d : DeviceId) : d.key.length = 16 := by simp [key]

instance : LinearOrder DeviceId := LinearOrder.lift' key key_injective

theorem lt_iff {a b : DeviceId} : a < b ↔ a.key < b.key := Iff.rfl

/-! ## The text form -/

/-- A lower-case hexadecimal digit. -/
def hexDigit (n : Nat) : Char := if n < 10 then Char.ofNat (48 + n) else Char.ofNat (87 + n)

/-- A byte as two hexadecimal digits. -/
def hexByte (n : Nat) : List Char := [hexDigit (n / 16), hexDigit (n % 16)]

/-- Hyphenated groups of hexadecimal digits, one group for each length of `groups`. -/
def hyphenated : List Nat → List Nat → List Char
  | [], bytes => bytes.flatMap hexByte
  | n :: groups, bytes =>
    (bytes.take n).flatMap hexByte ++ '-' :: hyphenated groups (bytes.drop n)

/-- `Uuid::to_string`: 8-4-4-4-12 hexadecimal digits with hyphens between the groups. -/
def text (d : DeviceId) : List Char := hyphenated [4, 2, 2, 2] d.key

theorem hexDigit_lt_iff : ∀ a < 16, ∀ b < 16, (hexDigit a < hexDigit b ↔ a < b) := by decide

theorem hexDigit_inj : ∀ a < 16, ∀ b < 16, (hexDigit a = hexDigit b ↔ a = b) := by decide

theorem hexByte_length (n : Nat) : (hexByte n).length = 2 := rfl

theorem hexByte_lt_iff (a b : Nat) (ha : a < 256) (hb : b < 256) :
    hexByte a < hexByte b ↔ a < b := by
  have hq := hexDigit_lt_iff (a / 16) (by omega) (b / 16) (by omega)
  have he := hexDigit_inj (a / 16) (by omega) (b / 16) (by omega)
  have hr := hexDigit_lt_iff (a % 16) (by omega) (b % 16) (by omega)
  simp only [hexByte, List.cons_lt_cons_iff, hq, hr, he, List.lt_irrefl, and_false, or_false]
  omega

theorem hyphenated_lt_iff :
    ∀ (groups : List Nat) {l l' : List Nat}, l.length = l'.length → (∀ n ∈ l, n < 256) →
      (∀ n ∈ l', n < 256) → (hyphenated groups l < hyphenated groups l' ↔ l < l')
  | [], _, _, h, hl, hl' => Lex.flatMap_lt_flatMap_iff hexByte_length hexByte_lt_iff h hl hl'
  | n :: groups, l, l', h, hl, hl' => by
    have ht : (l.take n).length = (l'.take n).length := by simp [h]
    have hd : (l.drop n).length = (l'.drop n).length := by simp [h]
    have htl : ∀ m ∈ l.take n, m < 256 := fun m hm => hl m (List.mem_of_mem_take hm)
    have htl' : ∀ m ∈ l'.take n, m < 256 := fun m hm => hl' m (List.mem_of_mem_take hm)
    have ih := hyphenated_lt_iff groups hd (fun m hm => hl m (List.mem_of_mem_drop hm))
      (fun m hm => hl' m (List.mem_of_mem_drop hm))
    have hlen : ((l.take n).flatMap hexByte).length = ((l'.take n).flatMap hexByte).length := by
      simp [List.length_flatMap, hexByte_length, h]
    rw [hyphenated, hyphenated, Lex.append_lt_append_iff hlen, List.cons_lt_cons_iff, ih,
      Lex.flatMap_lt_flatMap_iff hexByte_length hexByte_lt_iff ht htl htl',
      Lex.flatMap_inj hexByte_length hexByte_lt_iff ht htl htl']
    conv_rhs => rw [← List.take_append_drop n l, ← List.take_append_drop n l',
      Lex.append_lt_append_iff ht]
    simp

/-- **The text order is the order of the ids**: sorting by `hlc_device` as text sorts by device. -/
theorem text_lt_text_iff {a b : DeviceId} : a.text < b.text ↔ a < b := by
  have hb : ∀ d : DeviceId, ∀ n ∈ d.key, n < 256 := by
    intro d n hn
    obtain ⟨c, -, rfl⟩ := List.mem_map.1 hn
    exact c.toNat_lt
  exact hyphenated_lt_iff _ (by simp [key_length]) (hb a) (hb b)

theorem text_le_text_iff {a b : DeviceId} : a.text ≤ b.text ↔ a ≤ b := by
  rw [← not_lt, ← not_lt, text_lt_text_iff]

end DeviceId
end Clipse
