import Clipse.Lib.Utf
import Clipse.Net.Pack

/-!
# How long MessagePack is

The length of each encoding, as a sum over what it encodes. A list of bytes is a list of numbers, so
a byte of 0x80 or more takes two; everything else is a few bytes and the texts themselves.
-/

namespace Clipse
namespace MessagePack

def uintSize (n : Nat) : Nat :=
  if n < 128 then 1 else if n < 2 ^ 8 then 2 else if n < 2 ^ 16 then 3 else if n < 2 ^ 32 then 5
  else 9

/-- The header of a string. -/
def strHeaderSize (n : Nat) : Nat :=
  if n < 32 then 1 else if n < 2 ^ 8 then 2 else if n < 2 ^ 16 then 3 else 5

def strSize (s : String) : Nat := strHeaderSize (utf8 s).length + (utf8 s).length

/-- The header of a list. -/
def seqSize (n : Nat) : Nat := if n < 16 then 1 else if n < 2 ^ 16 then 3 else 5

def optionSize {α : Type} (size : α → Nat) : Option α → Nat
  | none => 1
  | some a => size a

def formatSize : ClipFormat → Nat
  | .text | .html | .jpeg => 5
  | .rtf | .png | .svg => 4
  | .fileList => 9
  | .other label => 7 + strSize label

/-- Inline bytes count once, those of 0x80 or more twice. -/
def bodySize : PayloadBody → Nat
  | .inline bytes => 8 + seqSize bytes.length + bytes.length + bytes.countP (0x80 ≤ ·)
  | .blob => 5

def payloadSize (p : Payload) : Nat :=
  91 + formatSize p.format + uintSize p.size.toNat + bodySize p.body

def sourceSize (source : ClipSource) : Nat :=
  43 + strSize source.deviceLabel + optionSize strSize source.app

def hlcSize (hlc : Hlc) : Nat := 42 + uintSize hlc.wallMs.toNat + uintSize hlc.counter.toNat

def clipSize (c : Clip) : Nat :=
  157 + strSize c.kind.asStr + seqSize c.payloads.length + (c.payloads.map payloadSize).sum +
    strSize c.preview + sourceSize c.source + hlcSize c.hlc + uintSize c.createdAtMs.toNat

/-! ## The parts of an encoding -/

@[simp] theorem length_bigEndian (k n : Nat) : (bigEndian k n).length = k := by simp [bigEndian]

@[simp] theorem length_packUint (n : Nat) : (packUint n).length = uintSize n := by
  unfold packUint uintSize
  split_ifs <;> simp

@[simp] theorem length_packBool (b : Bool) : (packBool b).length = 1 := by cases b <;> rfl

@[simp] theorem length_packStr (s : String) : (packStr s).length = strSize s := by
  unfold packStr strSize strHeaderSize
  rw [List.length_append]
  congr 1
  split_ifs <;> simp

theorem length_packSeq {α : Type} (pack : α → Bytes) (items : List α) :
    (packSeq pack items).length =
      seqSize items.length + (items.map fun a => (pack a).length).sum := by
  unfold packSeq seqSize
  rw [List.length_append, List.length_flatMap]
  split_ifs <;> simp

theorem length_packOption {α : Type} {pack : α → Bytes} {size : α → Nat}
    (h : ∀ a, (pack a).length = size a) (a : Option α) :
    (packOption pack a).length = optionSize size a := by
  cases a with
  | none => rfl
  | some a => exact h a

@[simp] theorem length_packFields (fields : List (String × Bytes)) :
    (packFields fields).length = 1 + (fields.map fun f => strSize f.1 + f.2.length).sum := by
  simp [packFields, List.length_flatMap, Nat.add_comm]

@[simp] theorem length_packVariant (name : String) (body : Bytes) :
    (packVariant name body).length = 1 + strSize name + body.length := by
  simp [packVariant, Nat.add_assoc]

@[simp] theorem length_packDevice (device : DeviceId) : (packDevice device).length = 18 := by
  simp [packDevice, packBin]

@[simp] theorem length_packClipId (id : ClipId) : (packClipId id).length = 18 := by
  simp [packClipId, packBin]

theorem utf8_ofList (text : List Char) : utf8 (String.ofList text) = Utf.encode8 text := by
  rw [utf8, String.toUTF8, String.toByteArray_ofList, List.utf8Encode, List.data_toByteArray]
  rfl

theorem hexDigit_ascii : ∀ n < 16, (DeviceId.hexDigit n).val ≤ 127 := by decide

@[simp] theorem length_packHash (hash : ContentHash) : (packHash hash).length = 66 := by
  have hascii : ∀ c ∈ hash.bytes.toList.flatMap (fun b => DeviceId.hexByte b.toNat),
      c.val ≤ 127 := by
    intro c hc
    obtain ⟨b, -, hc⟩ := List.mem_flatMap.1 hc
    have hb := b.toNat_lt
    simp only [DeviceId.hexByte, List.mem_cons, List.not_mem_nil, or_false] at hc
    rcases hc with rfl | rfl
    · exact hexDigit_ascii _ (by omega)
    · exact hexDigit_ascii _ (by omega)
  have hlen : (hash.bytes.toList.flatMap fun b => DeviceId.hexByte b.toNat).length = 64 := by
    simp [List.length_flatMap, DeviceId.hexByte_length]
  rw [packHash, length_packStr, strSize, utf8_ofList, Utf.length_encode8_of_ascii hascii, hlen]
  rfl

/-! ## A clip -/

theorem length_packHlc (hlc : Hlc) : (packHlc hlc).length = hlcSize hlc := by
  simp only [packHlc, length_packFields, List.map_cons, List.map_nil, List.sum_cons, List.sum_nil,
    length_packUint, length_packDevice, hlcSize]
  have hwall : strSize "wall_ms" = 8 := rfl
  have hcounter : strSize "counter" = 8 := rfl
  have hdevice : strSize "device" = 7 := rfl
  omega

theorem length_packFormat (format : ClipFormat) : (packFormat format).length = formatSize format := by
  cases format with
  | other label =>
    rw [packFormat, length_packVariant, length_packStr, formatSize]
    rfl
  | text | html | rtf | png | jpeg | svg | fileList => rfl

theorem length_packBody (body : PayloadBody) : (packBody body).length = bodySize body := by
  cases body with
  | blob => rfl
  | inline bytes =>
    have hsum : (bytes.map fun b => (packUint b.toNat).length).sum =
        bytes.length + bytes.countP (0x80 ≤ ·) := by
      induction bytes with
      | nil => rfl
      | cons b bytes ih =>
        have hb := b.toNat_lt
        have hle : (0x80 : UInt8) ≤ b ↔ 128 ≤ b.toNat := by rw [UInt8.le_iff_toNat_le]; rfl
        rw [List.map_cons, List.sum_cons, ih, List.countP_cons, List.length_cons, length_packUint,
          uintSize]
        simp only [decide_eq_true_eq, hle]
        split_ifs <;> omega
    rw [packBody, length_packVariant, length_packSeq, hsum, bodySize]
    have hname : strSize "Inline" = 7 := rfl
    omega

theorem length_packPayload (p : Payload) : (packPayload p).length = payloadSize p := by
  simp only [packPayload, length_packFields, List.map_cons, List.map_nil, List.sum_cons,
    List.sum_nil, length_packUint, length_packHash, length_packFormat, length_packBody, payloadSize]
  have hformat : strSize "format" = 7 := rfl
  have hdigest : strSize "digest" = 7 := rfl
  have hsize : strSize "size" = 5 := rfl
  have hbody : strSize "body" = 5 := rfl
  omega

theorem length_packSource (source : ClipSource) : (packSource source).length = sourceSize source := by
  simp only [packSource, length_packFields, List.map_cons, List.map_nil, List.sum_cons,
    List.sum_nil, length_packDevice, length_packStr, length_packOption length_packStr, sourceSize]
  have hdevice : strSize "device" = 7 := rfl
  have hlabel : strSize "device_label" = 13 := rfl
  have happ : strSize "app" = 4 := rfl
  omega

theorem length_packClip (c : Clip) : (packClip c).length = clipSize c := by
  have hsum : (c.payloads.map fun p => (packPayload p).length) = c.payloads.map payloadSize :=
    List.map_congr_left fun p _ => length_packPayload p
  simp only [packClip, length_packFields, List.map_cons, List.map_nil, List.sum_cons, List.sum_nil,
    length_packClipId, length_packHash, length_packStr, length_packSeq, hsum, length_packSource,
    length_packHlc, length_packUint, length_packBool, clipSize]
  have hid : strSize "id" = 3 := rfl
  have hhash : strSize "hash" = 5 := rfl
  have hkind : strSize "kind" = 5 := rfl
  have hpayloads : strSize "payloads" = 9 := rfl
  have hpreview : strSize "preview" = 8 := rfl
  have hsource : strSize "source" = 7 := rfl
  have hhlc : strSize "hlc" = 4 := rfl
  have hcreated : strSize "created_at_ms" = 14 := rfl
  have hpinned : strSize "pinned" = 7 := rfl
  have hdeleted : strSize "deleted" = 8 := rfl
  omega

end MessagePack
end Clipse
