import Clipse.Core.Proof.Hash
import Clipse.Daemon.History
import Clipse.Lib.Delimited
import Clipse.Net.Proof.Size

/-!
# MessagePack can be told apart

Every encoding of `Net.Pack` is self-delimiting: two different values have different encodings, and no
encoding begins another. The headers can be read back (`readUint` and the like); everything else
follows the structure.
-/

namespace Clipse
namespace MessagePack

/-! ## Numbers -/

/-- The number that the bytes stand for, the most significant first. -/
def ofBigEndian (bytes : Bytes) : Nat := bytes.foldl (fun n b => 256 * n + b.toNat) 0

theorem bigEndian_succ (k n : Nat) :
    bigEndian (k + 1) n = UInt8.ofNat (n / 256 ^ k % 256) :: bigEndian k n := by
  rw [bigEndian, List.range_succ, List.reverse_append]
  rfl

theorem foldl_bigEndian (k n acc : Nat) :
    (bigEndian k n).foldl (fun n b => 256 * n + b.toNat) acc = acc * 256 ^ k + n % 256 ^ k := by
  induction k generalizing acc with
  | zero => simp [bigEndian, Nat.mod_one]
  | succ k ih =>
    have hb : (UInt8.ofNat (n / 256 ^ k % 256)).toNat = n / 256 ^ k % 256 := by
      rw [UInt8.toNat_ofNat']
      omega
    rw [bigEndian_succ, List.foldl_cons, ih, hb, Nat.mod_pow_succ, Nat.pow_succ, Nat.add_mul,
      Nat.mul_comm 256 acc, Nat.mul_assoc, Nat.mul_comm 256, Nat.mul_comm (n / 256 ^ k % 256)]
    omega

theorem ofBigEndian_bigEndian {k n : Nat} (h : n < 256 ^ k) : ofBigEndian (bigEndian k n) = n := by
  rw [ofBigEndian, foldl_bigEndian, Nat.zero_mul, Nat.zero_add, Nat.mod_eq_of_lt h]

/-- A number of `k` bytes, and what follows. -/
def readBigEndian (k : Nat) (bytes : Bytes) : Nat × Bytes :=
  (ofBigEndian (bytes.take k), bytes.drop k)

theorem readBigEndian_append {k n : Nat} (h : n < 256 ^ k) (rest : Bytes) :
    readBigEndian k (bigEndian k n ++ rest) = (n, rest) := by
  have hlen := length_bigEndian k n
  rw [readBigEndian, List.take_left' hlen, List.drop_left' hlen, ofBigEndian_bigEndian h]

theorem delimited_bigEndian (k : Nat) : Delimited (· < 256 ^ k) (bigEndian k) :=
  .of_read (readBigEndian k) fun _ rest h => readBigEndian_append h rest

/-! ## Headers -/

/-- A header: a small number is part of its first byte, which says otherwise how many bytes follow. -/
def readHeader (base small : Nat) (width : UInt8 → Nat) : Bytes → Nat × Bytes
  | [] => (0, [])
  | b :: rest =>
    if base ≤ b.toNat ∧ b.toNat < base + small then (b.toNat - base, rest)
    else readBigEndian (width b) rest

theorem readHeader_small {base small n : Nat} {width : UInt8 → Nat} (h : n < small)
    (hbase : base + small ≤ 256) (rest : Bytes) :
    readHeader base small width (UInt8.ofNat (base + n) :: rest) = (n, rest) := by
  have hb : (UInt8.ofNat (base + n)).toNat = base + n := by
    rw [UInt8.toNat_ofNat']
    omega
  rw [readHeader, hb, if_pos ⟨Nat.le_add_right _ _, by omega⟩, Nat.add_sub_cancel_left]

theorem readHeader_tag {base small n : Nat} {width : UInt8 → Nat} {tag : UInt8} {k : Nat}
    (htag : ¬ (base ≤ tag.toNat ∧ tag.toNat < base + small)) (hk : width tag = k)
    (h : n < 256 ^ k) (rest : Bytes) :
    readHeader base small width (tag :: (bigEndian k n ++ rest)) = (n, rest) := by
  rw [readHeader, if_neg htag, hk, readBigEndian_append h]

/-- The header of a string. -/
def strHeader (n : Nat) : Bytes :=
  if n < 32 then [UInt8.ofNat (0xa0 + n)]
  else if n < 2 ^ 8 then 0xd9 :: bigEndian 1 n
  else if n < 2 ^ 16 then 0xda :: bigEndian 2 n
  else 0xdb :: bigEndian 4 n

/-- The header of bytes. -/
def binHeader (n : Nat) : Bytes :=
  if n < 2 ^ 8 then 0xc4 :: bigEndian 1 n
  else if n < 2 ^ 16 then 0xc5 :: bigEndian 2 n
  else 0xc6 :: bigEndian 4 n

/-- The header of a list. -/
def seqHeader (n : Nat) : Bytes :=
  if n < 16 then [UInt8.ofNat (0x90 + n)]
  else if n < 2 ^ 16 then 0xdc :: bigEndian 2 n
  else 0xdd :: bigEndian 4 n

/-- How many bytes of a number follow, by the first byte of its header. -/
def uintWidth (tag : UInt8) : Nat :=
  if tag = 0xcc then 1 else if tag = 0xcd then 2 else if tag = 0xce then 4 else 8

def strWidth (tag : UInt8) : Nat := if tag = 0xd9 then 1 else if tag = 0xda then 2 else 4

def binWidth (tag : UInt8) : Nat := if tag = 0xc4 then 1 else if tag = 0xc5 then 2 else 4

def seqWidth (tag : UInt8) : Nat := if tag = 0xdc then 2 else 4

theorem delimited_packUint : Delimited (· < 2 ^ 64) packUint := by
  refine .of_read (readHeader 0 128 uintWidth) fun n rest hn => ?_
  unfold packUint
  split_ifs with h₁ h₂ h₃ h₄
  · have hread := @readHeader_small 0 128 n uintWidth h₁ (by decide) rest
    rwa [Nat.zero_add] at hread
  · exact readHeader_tag (by decide) rfl h₂ rest
  · exact readHeader_tag (by decide) rfl h₃ rest
  · exact readHeader_tag (by decide) rfl h₄ rest
  · exact readHeader_tag (by decide) rfl hn rest

theorem delimited_strHeader : Delimited (· < 2 ^ 32) strHeader := by
  refine .of_read (readHeader 0xa0 32 strWidth) fun n rest hn => ?_
  unfold strHeader
  split_ifs with h₁ h₂ h₃
  · exact readHeader_small h₁ (by decide) rest
  · exact readHeader_tag (by decide) rfl h₂ rest
  · exact readHeader_tag (by decide) rfl h₃ rest
  · exact readHeader_tag (by decide) rfl hn rest

theorem delimited_binHeader : Delimited (· < 2 ^ 32) binHeader := by
  refine .of_read (readHeader 0 0 binWidth) fun n rest hn => ?_
  unfold binHeader
  split_ifs with h₁ h₂
  · exact readHeader_tag (by decide) rfl h₁ rest
  · exact readHeader_tag (by decide) rfl h₂ rest
  · exact readHeader_tag (by decide) rfl hn rest

theorem delimited_seqHeader : Delimited (· < 2 ^ 32) seqHeader := by
  refine .of_read (readHeader 0x90 16 seqWidth) fun n rest hn => ?_
  unfold seqHeader
  split_ifs with h₁ h₂
  · exact readHeader_small h₁ (by decide) rest
  · exact readHeader_tag (by decide) rfl h₂ rest
  · exact readHeader_tag (by decide) rfl hn rest

/-! ## Strings, bytes and lists -/

/-- A length that a header can give. -/
def Fits32 (n : Nat) : Prop := n < 2 ^ 32

instance (n : Nat) : Decidable (Fits32 n) := inferInstanceAs (Decidable (n < 2 ^ 32))

theorem delimited_packStr : Delimited (fun s : String => Fits32 (utf8 s).length) packStr := by
  have h := Delimited.comap (Q := fun s : String => Fits32 (utf8 s).length)
    (Delimited.counted delimited_strHeader) (fun _ hs => hs) fun _ _ _ _ he => utf8_inj he
  exact h

theorem delimited_packBin : Delimited (fun bytes : Bytes => Fits32 bytes.length) packBin :=
  Delimited.counted delimited_binHeader

theorem delimited_packSeq {α : Type} {P : α → Prop} {pack : α → Bytes} (h : Delimited P pack) :
    Delimited (fun items : List α => Fits32 items.length ∧ ∀ a ∈ items, P a) (packSeq pack) :=
  Delimited.header delimited_seqHeader h

theorem packStr_ne_nil (s : String) : ∃ b l, packStr s = b :: l ∧ b ≠ 0xc0 := by
  show ∃ b l, strHeader (utf8 s).length ++ utf8 s = b :: l ∧ b ≠ 0xc0
  unfold strHeader
  split_ifs with h₁ h₂ h₃
  · refine ⟨_, _, rfl, fun he => ?_⟩
    have hb := congrArg UInt8.toNat he
    rw [UInt8.toNat_ofNat'] at hb
    have h₀ : (0xc0 : UInt8).toNat = 192 := rfl
    omega
  · exact ⟨_, _, rfl, by decide⟩
  · exact ⟨_, _, rfl, by decide⟩
  · exact ⟨_, _, rfl, by decide⟩

theorem delimited_packOption {α : Type} {P : α → Prop} {pack : α → Bytes} (h : Delimited P pack)
    (hne : ∀ a, P a → ∃ b l, pack a = b :: l ∧ b ≠ 0xc0) :
    Delimited (fun o : Option α => ∀ a ∈ o, P a) (packOption pack) := by
  have he : packOption pack = fun o => o.elim [0xc0] pack := by
    funext o
    cases o <;> rfl
  rw [he]
  exact h.option hne

theorem delimited_packBool : Delimited (fun _ => True) packBool := by
  refine .of_length (n := 1) (fun b => length_packBool b) fun b b' _ _ h => ?_
  cases b <;> cases b' <;> first | rfl | exact absurd h (by decide)

/-! ## The parts of a clip -/

theorem delimited_packDevice : Delimited (fun _ => True) packDevice := by
  refine delimited_packBin.comap (f := fun d : DeviceId => d.bytes.toList) (fun d _ => ?_)
    fun d d' _ _ h => ?_
  · show d.bytes.toList.length < 2 ^ 32
    rw [Vector.length_toList]
    decide
  · exact DeviceId.key_injective (congrArg (List.map UInt8.toNat) h)

/-- A UUID. -/
def IsUuid (id : ClipId) : Prop := id.uuid < 256 ^ 16

theorem delimited_packClipId : Delimited IsUuid packClipId := by
  refine delimited_packBin.comap (f := fun id : ClipId => bigEndian 16 id.uuid) (fun id _ => ?_)
    fun id id' h h' he => ?_
  · show (bigEndian 16 id.uuid).length < 2 ^ 32
    rw [length_bigEndian]
    decide
  · have hu := (delimited_bigEndian 16).injective h h' he
    cases id
    cases id'
    cases hu
    rfl

theorem hexByte_inj {a b : UInt8} (h : DeviceId.hexByte a.toNat = DeviceId.hexByte b.toNat) :
    a = b := by
  have hlt := fun x y => DeviceId.hexByte_lt_iff x y
  have h₁ : ¬ a.toNat < b.toNat := fun hl => by
    have hl' := (hlt _ _ a.toNat_lt b.toNat_lt).2 hl
    rw [h] at hl'
    exact lt_irrefl _ hl'
  have h₂ : ¬ b.toNat < a.toNat := fun hl => by
    have hl' := (hlt _ _ b.toNat_lt a.toNat_lt).2 hl
    rw [h] at hl'
    exact lt_irrefl _ hl'
  exact UInt8.toNat_inj.1 (by omega)

/-- The digits of a hash. -/
def hexText (hash : ContentHash) : List Char :=
  hash.bytes.toList.flatMap fun b => DeviceId.hexByte b.toNat

theorem hexText_inj {hash hash' : ContentHash} (h : hexText hash = hexText hash') :
    hash = hash' := by
  have hd : Delimited (fun _ => True) fun b : UInt8 => DeviceId.hexByte b.toNat :=
    .of_length (n := 2) (fun b => DeviceId.hexByte_length _) fun b b' _ _ he => hexByte_inj he
  have hl : hash.bytes.toList.length = hash'.bytes.toList.length := by simp
  have he : hexText hash ++ [] = hexText hash' ++ [] := by rw [h]
  have hb := (hd.flatMap hl (fun _ _ => trivial) (fun _ _ => trivial) he).1
  obtain ⟨⟨⟨a⟩, ha⟩⟩ := hash
  obtain ⟨⟨⟨b⟩, hb'⟩⟩ := hash'
  obtain rfl : a = b := hb
  rfl

theorem length_hexText (hash : ContentHash) : (utf8 (String.ofList (hexText hash))).length = 64 := by
  have hlen : strSize (String.ofList (hexText hash)) = 66 := by
    rw [← length_packStr]
    exact length_packHash hash
  unfold strSize strHeaderSize at hlen
  split_ifs at hlen <;> omega

theorem delimited_packHash : Delimited (fun _ => True) packHash := by
  refine delimited_packStr.comap (f := fun hash => String.ofList (hexText hash)) (fun hash _ => ?_)
    fun hash hash' _ _ h => hexText_inj (String.ofList_injective h)
  show (utf8 (String.ofList (hexText hash))).length < 2 ^ 32
  rw [length_hexText]
  decide

/-! ## Structures -/

/-- The fields of a structure, behind its header. -/
def packEntries (fields : List (String × Bytes)) : Bytes := fields.flatMap fun f => packStr f.1 ++ f.2

section
variable {fs fs' : List (String × Bytes)} {rest rest' : Bytes}

theorem entries_of_fields (h : packFields fs ++ rest = packFields fs' ++ rest')
    (hlen : fs.length = fs'.length) :
    packEntries fs ++ rest = packEntries fs' ++ rest' := by
  rw [packFields, packFields, hlen] at h
  exact (List.cons_eq_cons.1 h).2

/-- The first field can be told apart. -/
theorem entries_cons {α : Type} {P : α → Prop} {pack : α → Bytes} (hd : Delimited P pack)
    {name : String} {a a' : α} (ha : P a) (ha' : P a')
    (h : packEntries ((name, pack a) :: fs) ++ rest =
      packEntries ((name, pack a') :: fs') ++ rest') :
    a = a' ∧ packEntries fs ++ rest = packEntries fs' ++ rest' := by
  simp only [packEntries, List.flatMap_cons, List.append_assoc] at h
  exact hd ha ha' (List.append_cancel_left h)

/-- A variant that holds something. -/
theorem variant_inj {body body' : Bytes} {name name' : String} (hs : Fits32 (utf8 name).length)
    (hs' : Fits32 (utf8 name').length)
    (h : packVariant name body ++ rest = packVariant name' body' ++ rest') :
    name = name' ∧ body ++ rest = body' ++ rest' := by
  have he := entries_of_fields h rfl
  simp only [packEntries, List.flatMap_cons, List.flatMap_nil, List.append_nil,
    List.append_assoc] at he
  exact delimited_packStr hs hs' he

end

theorem delimited_toNat64 : Delimited (fun _ => True) fun n : UInt64 => packUint n.toNat :=
  delimited_packUint.comap (fun n _ => n.toNat_lt) fun _ _ _ _ h => UInt64.toNat_inj.1 h

theorem delimited_toNat32 : Delimited (fun _ => True) fun n : UInt32 => packUint n.toNat :=
  delimited_packUint.comap (fun n _ => lt_trans n.toNat_lt (by decide)) fun _ _ _ _ h =>
    UInt32.toNat_inj.1 h

theorem delimited_toNat16 : Delimited (fun _ => True) fun n : UInt16 => packUint n.toNat :=
  delimited_packUint.comap (fun n _ => lt_trans n.toNat_lt (by decide)) fun _ _ _ _ h =>
    UInt16.toNat_inj.1 h

theorem delimited_toNat8 : Delimited (fun _ => True) fun n : UInt8 => packUint n.toNat :=
  delimited_packUint.comap (fun n _ => lt_trans n.toNat_lt (by decide)) fun _ _ _ _ h =>
    UInt8.toNat_inj.1 h

theorem delimited_packHlc : Delimited (fun _ => True) packHlc := by
  rintro ⟨wall, counter, device⟩ ⟨wall', counter', device'⟩ rest rest' - - h
  have h₀ := entries_of_fields h rfl
  obtain ⟨rfl, h₁⟩ := entries_cons delimited_toNat64 trivial trivial h₀
  obtain ⟨rfl, h₂⟩ := entries_cons delimited_toNat32 trivial trivial h₁
  obtain ⟨rfl, h₃⟩ := entries_cons delimited_packDevice trivial trivial h₂
  exact ⟨rfl, h₃⟩

theorem packHlc_ne_nil (hlc : Hlc) : ∃ b l, packHlc hlc = b :: l ∧ b ≠ 0xc0 :=
  ⟨0x83, _, rfl, by decide⟩

/-- The kinds have different names. -/
theorem kind_inj {k k' : ClipKind} (h : k.asStr = k'.asStr) : k = k' := by
  cases k <;> cases k' <;> first | rfl | exact absurd h (by decide)

theorem delimited_kind : Delimited (fun _ => True) fun k : ClipKind => packStr k.asStr :=
  delimited_packStr.comap (fun k _ => (by cases k <;> decide)) fun _ _ _ _ h => kind_inj h

/-! ## Clips -/

/-- The name of a format, as it is written. -/
def formatName : ClipFormat → String
  | .text => "Text"
  | .html => "Html"
  | .rtf => "Rtf"
  | .png => "Png"
  | .jpeg => "Jpeg"
  | .svg => "Svg"
  | .fileList => "FileList"
  | .other _ => "Other"

/-- A string does not begin like a map of one field. -/
theorem packStr_ne_map {s : String} {body rest rest' : Bytes} {name : String} :
    packStr s ++ rest ≠ packVariant name body ++ rest' := by
  show strHeader (utf8 s).length ++ utf8 s ++ rest ≠ 0x81 :: packEntries [(name, body)] ++ rest'
  unfold strHeader
  split_ifs with h₁ h₂ h₃
  · intro he
    have hb := congrArg UInt8.toNat (List.cons_eq_cons.1 he).1
    rw [UInt8.toNat_ofNat'] at hb
    have h₀ : (0x81 : UInt8).toNat = 129 := rfl
    omega
  · exact fun he => absurd (List.cons_eq_cons.1 he).1 (by decide)
  · exact fun he => absurd (List.cons_eq_cons.1 he).1 (by decide)
  · exact fun he => absurd (List.cons_eq_cons.1 he).1 (by decide)

/-- The label of a format can be written. -/
def ShortFormat (format : ClipFormat) : Prop := Fits32 (utf8 format.label).length

theorem short_formatName (f : ClipFormat) : Fits32 (utf8 (formatName f)).length := by
  cases f with
  | other l => exact (by decide : Fits32 (utf8 "Other").length)
  | _ => decide

/-- Formats without a label of their own have different names. -/
theorem formatName_inj {f f' : ClipFormat} (hf : ∀ l, f ≠ .other l) (hf' : ∀ l, f' ≠ .other l)
    (h : formatName f = formatName f') : f = f' := by
  cases f <;> cases f' <;>
    first | rfl | exact absurd h (by decide) | exact absurd rfl (hf _) | exact absurd rfl (hf' _)

theorem packFormat_cases (f : ClipFormat) :
    (∃ l, f = .other l) ∨ (∀ l, f ≠ .other l) ∧ packFormat f = packStr (formatName f) := by
  cases f with
  | other l => exact .inl ⟨l, rfl⟩
  | _ => exact .inr ⟨fun l h => (by cases h), rfl⟩

theorem delimited_packFormat : Delimited ShortFormat packFormat := by
  intro f f' rest rest' hf hf' h
  rcases packFormat_cases f with ⟨l, rfl⟩ | ⟨hne, hu⟩
  · rcases packFormat_cases f' with ⟨l', rfl⟩ | ⟨-, hu'⟩
    · obtain ⟨-, h'⟩ := variant_inj (by decide) (by decide) h
      obtain ⟨rfl, hrest⟩ := delimited_packStr hf hf' h'
      exact ⟨rfl, hrest⟩
    · rw [hu'] at h
      exact absurd h.symm packStr_ne_map
  · rcases packFormat_cases f' with ⟨l', rfl⟩ | ⟨hne', hu'⟩
    · rw [hu] at h
      exact absurd h packStr_ne_map
    · rw [hu, hu'] at h
      obtain ⟨hn, hrest⟩ := delimited_packStr (short_formatName f) (short_formatName f') h
      exact ⟨formatName_inj hne hne' hn, hrest⟩

/-- The bytes of a body can be written. -/
def ShortBody : PayloadBody → Prop
  | .inline bytes => Fits32 bytes.length
  | .blob => True

theorem delimited_packBody : Delimited ShortBody packBody := by
  intro b b' rest rest' hb hb' h
  cases b with
  | inline bytes =>
    cases b' with
    | inline bytes' =>
      obtain ⟨-, h'⟩ := variant_inj (by decide) (by decide) h
      obtain ⟨rfl, hrest⟩ := delimited_packSeq delimited_toNat8 ⟨hb, fun _ _ => trivial⟩
        ⟨hb', fun _ _ => trivial⟩ h'
      exact ⟨rfl, hrest⟩
    | blob => exact absurd h.symm packStr_ne_map
  | blob =>
    cases b' with
    | inline bytes' => exact absurd h packStr_ne_map
    | blob => exact ⟨rfl, List.append_cancel_left h⟩

/-- Every length in the payload can be written. -/
structure ShortPayload (p : Payload) : Prop where
  format : ShortFormat p.format
  body : ShortBody p.body

theorem delimited_packPayload : Delimited ShortPayload packPayload := by
  rintro ⟨format, digest, size, body⟩ ⟨format', digest', size', body'⟩ rest rest' ⟨hf, hb⟩
    ⟨hf', hb'⟩ h
  have h₀ := entries_of_fields h rfl
  obtain ⟨rfl, h₁⟩ := entries_cons delimited_packFormat hf hf' h₀
  obtain ⟨rfl, h₂⟩ := entries_cons delimited_packHash trivial trivial h₁
  obtain ⟨rfl, h₃⟩ := entries_cons delimited_toNat64 trivial trivial h₂
  obtain ⟨rfl, h₄⟩ := entries_cons delimited_packBody hb hb' h₃
  exact ⟨rfl, h₄⟩

structure ShortSource (source : ClipSource) : Prop where
  label : Fits32 (utf8 source.deviceLabel).length
  app : ∀ a ∈ source.app, Fits32 (utf8 a).length

theorem delimited_packSource : Delimited ShortSource packSource := by
  rintro ⟨device, label, app⟩ ⟨device', label', app'⟩ rest rest' ⟨hl, ha⟩ ⟨hl', ha'⟩ h
  have h₀ := entries_of_fields h rfl
  obtain ⟨rfl, h₁⟩ := entries_cons delimited_packDevice trivial trivial h₀
  obtain ⟨rfl, h₂⟩ := entries_cons delimited_packStr hl hl' h₁
  obtain ⟨rfl, h₃⟩ := entries_cons
    (delimited_packOption delimited_packStr fun s _ => packStr_ne_nil s) ha ha' h₂
  exact ⟨rfl, h₃⟩

/-- The id is a UUID and every length in the clip can be written. -/
structure ShortClip (c : Clip) : Prop where
  id : IsUuid c.id
  payloads : Fits32 c.payloads.length ∧ ∀ p ∈ c.payloads, ShortPayload p
  preview : Fits32 (utf8 c.preview).length
  source : ShortSource c.source

theorem delimited_packClip : Delimited ShortClip packClip := by
  rintro ⟨id, hash, kind, payloads, preview, source, hlc, created, pinned, deleted⟩
    ⟨id', hash', kind', payloads', preview', source', hlc', created', pinned', deleted'⟩ rest rest'
    hc hc' h
  have h₀ := entries_of_fields h rfl
  obtain ⟨rfl, h₁⟩ := entries_cons delimited_packClipId hc.id hc'.id h₀
  obtain ⟨rfl, h₂⟩ := entries_cons delimited_packHash trivial trivial h₁
  obtain ⟨rfl, h₃⟩ := entries_cons delimited_kind trivial trivial h₂
  obtain ⟨rfl, h₄⟩ := entries_cons (delimited_packSeq delimited_packPayload) hc.payloads hc'.payloads
    h₃
  obtain ⟨rfl, h₅⟩ := entries_cons delimited_packStr hc.preview hc'.preview h₄
  obtain ⟨rfl, h₆⟩ := entries_cons delimited_packSource hc.source hc'.source h₅
  obtain ⟨rfl, h₇⟩ := entries_cons delimited_packHlc trivial trivial h₆
  obtain ⟨rfl, h₈⟩ := entries_cons delimited_toNat64 trivial trivial h₇
  obtain ⟨rfl, h₉⟩ := entries_cons delimited_packBool trivial trivial h₈
  obtain ⟨rfl, h₁₀⟩ := entries_cons delimited_packBool trivial trivial h₉
  exact ⟨rfl, h₁₀⟩

theorem delimited_packSummary : Delimited (fun _ => True) packSummary := by
  rintro ⟨hash, hlc, kind, pinned, deleted, size⟩ ⟨hash', hlc', kind', pinned', deleted', size'⟩
    rest rest' - - h
  have h₀ := entries_of_fields h rfl
  obtain ⟨rfl, h₁⟩ := entries_cons delimited_packHash trivial trivial h₀
  obtain ⟨rfl, h₂⟩ := entries_cons delimited_packHlc trivial trivial h₁
  obtain ⟨rfl, h₃⟩ := entries_cons delimited_kind trivial trivial h₂
  obtain ⟨rfl, h₄⟩ := entries_cons delimited_packBool trivial trivial h₃
  obtain ⟨rfl, h₅⟩ := entries_cons delimited_packBool trivial trivial h₄
  obtain ⟨rfl, h₆⟩ := entries_cons delimited_toNat64 trivial trivial h₅
  exact ⟨rfl, h₆⟩

/-! ## Messages -/

/-- Every length in the message can be written, and every id is a UUID. -/
def ShortMessage : SyncMessage → Prop
  | .hello _ _ _ _ label platform => Fits32 (utf8 label).length ∧ Fits32 (utf8 platform).length
  | .summary entries _ => Fits32 entries.length
  | .want hashes => Fits32 hashes.length
  | .push clip => ShortClip clip
  | .blobChunk _ _ bytes => Fits32 bytes.length
  | .bye reason => Fits32 (utf8 reason).length
  | _ => True

theorem short_variantName (m : SyncMessage) : Fits32 (utf8 m.variantName).length := by
  cases m <;> exact of_decide_eq_true rfl

theorem pack_append_inj {m m' : SyncMessage} {rest rest' : Bytes} (hm : ShortMessage m)
    (hm' : ShortMessage m') (h : pack m ++ rest = pack m' ++ rest') : m = m' ∧ rest = rest' := by
  obtain ⟨hname, h⟩ := variant_inj (short_variantName m) (short_variantName m') h
  cases m with
  | hello device epoch protocol maxHlc label platform =>
    cases m' with
    | hello device' epoch' protocol' maxHlc' label' platform' =>
      have h₀ := entries_of_fields h rfl
      obtain ⟨rfl, h₁⟩ := entries_cons delimited_packDevice trivial trivial h₀
      obtain ⟨rfl, h₂⟩ := entries_cons delimited_toNat64 trivial trivial h₁
      obtain ⟨rfl, h₃⟩ := entries_cons delimited_toNat16 trivial trivial h₂
      obtain ⟨rfl, h₄⟩ := entries_cons
        (delimited_packOption delimited_packHlc fun hlc _ => packHlc_ne_nil hlc)
        (fun _ _ => trivial) (fun _ _ => trivial) h₃
      obtain ⟨rfl, h₅⟩ := entries_cons delimited_packStr hm.1 hm'.1 h₄
      obtain ⟨rfl, h₆⟩ := entries_cons delimited_packStr hm.2 hm'.2 h₅
      exact ⟨rfl, h₆⟩
    | _ => exact absurd hname (by simp [SyncMessage.variantName])
  | summary entries complete =>
    cases m' with
    | summary entries' complete' =>
      have h₀ := entries_of_fields h rfl
      obtain ⟨rfl, h₁⟩ := entries_cons (delimited_packSeq delimited_packSummary)
        ⟨hm, fun _ _ => trivial⟩ ⟨hm', fun _ _ => trivial⟩ h₀
      obtain ⟨rfl, h₂⟩ := entries_cons delimited_packBool trivial trivial h₁
      exact ⟨rfl, h₂⟩
    | _ => exact absurd hname (by simp [SyncMessage.variantName])
  | want hashes =>
    cases m' with
    | want hashes' =>
      have h₀ := entries_of_fields h rfl
      obtain ⟨rfl, h₁⟩ := entries_cons (delimited_packSeq delimited_packHash)
        ⟨hm, fun _ _ => trivial⟩ ⟨hm', fun _ _ => trivial⟩ h₀
      exact ⟨rfl, h₁⟩
    | _ => exact absurd hname (by simp [SyncMessage.variantName])
  | push clip =>
    cases m' with
    | push clip' =>
      have h₀ := entries_of_fields h rfl
      obtain ⟨rfl, h₁⟩ := entries_cons delimited_packClip hm hm' h₀
      exact ⟨rfl, h₁⟩
    | _ => exact absurd hname (by simp [SyncMessage.variantName])
  | blobOffer digest size chunkSize =>
    cases m' with
    | blobOffer digest' size' chunkSize' =>
      have h₀ := entries_of_fields h rfl
      obtain ⟨rfl, h₁⟩ := entries_cons delimited_packHash trivial trivial h₀
      obtain ⟨rfl, h₂⟩ := entries_cons delimited_toNat64 trivial trivial h₁
      obtain ⟨rfl, h₃⟩ := entries_cons delimited_toNat32 trivial trivial h₂
      exact ⟨rfl, h₃⟩
    | _ => exact absurd hname (by simp [SyncMessage.variantName])
  | blobWant digest fromChunk =>
    cases m' with
    | blobWant digest' fromChunk' =>
      have h₀ := entries_of_fields h rfl
      obtain ⟨rfl, h₁⟩ := entries_cons delimited_packHash trivial trivial h₀
      obtain ⟨rfl, h₂⟩ := entries_cons delimited_toNat32 trivial trivial h₁
      exact ⟨rfl, h₂⟩
    | _ => exact absurd hname (by simp [SyncMessage.variantName])
  | blobChunk digest index bytes =>
    cases m' with
    | blobChunk digest' index' bytes' =>
      have h₀ := entries_of_fields h rfl
      obtain ⟨rfl, h₁⟩ := entries_cons delimited_packHash trivial trivial h₀
      obtain ⟨rfl, h₂⟩ := entries_cons delimited_toNat32 trivial trivial h₁
      obtain ⟨rfl, h₃⟩ := entries_cons delimited_packBin hm hm' h₂
      exact ⟨rfl, h₃⟩
    | _ => exact absurd hname (by simp [SyncMessage.variantName])
  | blobEnd digest =>
    cases m' with
    | blobEnd digest' =>
      have h₀ := entries_of_fields h rfl
      obtain ⟨rfl, h₁⟩ := entries_cons delimited_packHash trivial trivial h₀
      exact ⟨rfl, h₁⟩
    | _ => exact absurd hname (by simp [SyncMessage.variantName])
  | ack hlc =>
    cases m' with
    | ack hlc' =>
      have h₀ := entries_of_fields h rfl
      obtain ⟨rfl, h₁⟩ := entries_cons delimited_packHlc trivial trivial h₀
      exact ⟨rfl, h₁⟩
    | _ => exact absurd hname (by simp [SyncMessage.variantName])
  | bye reason =>
    cases m' with
    | bye reason' =>
      have h₀ := entries_of_fields h rfl
      obtain ⟨rfl, h₁⟩ := entries_cons delimited_packStr hm hm' h₀
      exact ⟨rfl, h₁⟩
    | _ => exact absurd hname (by simp [SyncMessage.variantName])

/-- **A sync message can be told apart** from every other and from whatever follows it: its bytes
determine the message and where it ends. -/
theorem pack_append_eq_iff {m m' : SyncMessage} {rest rest' : Bytes} (hm : ShortMessage m)
    (hm' : ShortMessage m') : pack m ++ rest = pack m' ++ rest' ↔ m = m' ∧ rest = rest' := by
  refine ⟨pack_append_inj hm hm', ?_⟩
  rintro ⟨rfl, rfl⟩
  rfl

/-- Farewells with different reasons, each with something behind it. -/
theorem pack_append_eq_iff_bye :
    pack (.bye "full") ++ [1] = pack (.bye "idle") ++ [2] ↔
      SyncMessage.bye "full" = .bye "idle" ∧ ([1] : Bytes) = [2] :=
  pack_append_eq_iff (show (utf8 "full").length < 2 ^ 32 from of_decide_eq_true rfl)
    (show (utf8 "idle").length < 2 ^ 32 from of_decide_eq_true rfl)

end MessagePack
end Clipse
