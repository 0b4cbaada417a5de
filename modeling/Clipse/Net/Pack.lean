import Clipse.Lib.Table
import Clipse.Net.Framing

/-!
# Sync messages in MessagePack (`rmp_serde::to_vec_named`)

`pack` writes a message: a structure is a map from the names of its fields, a variant its name, or
a map from its name to what it holds. Numbers, strings and lists have a header that says how long
they are.
-/

namespace Clipse

namespace MessagePack

/-- A number as `k` bytes, the most significant first. -/
def bigEndian (k n : Nat) : Bytes :=
  (List.range k).reverse.map fun i => UInt8.ofNat (n / 256 ^ i % 256)

def packUint (n : Nat) : Bytes :=
  if n < 128 then [UInt8.ofNat n]
  else if n < 2 ^ 8 then 0xcc :: bigEndian 1 n
  else if n < 2 ^ 16 then 0xcd :: bigEndian 2 n
  else if n < 2 ^ 32 then 0xce :: bigEndian 4 n
  else 0xcf :: bigEndian 8 n

def packBool (b : Bool) : Bytes := if b then [0xc3] else [0xc2]

def packStr (s : String) : Bytes :=
  let bytes := utf8 s
  let header : Bytes :=
    if bytes.length < 32 then [UInt8.ofNat (0xa0 + bytes.length)]
    else if bytes.length < 2 ^ 8 then 0xd9 :: bigEndian 1 bytes.length
    else if bytes.length < 2 ^ 16 then 0xda :: bigEndian 2 bytes.length
    else 0xdb :: bigEndian 4 bytes.length
  header ++ bytes

def packBin (bytes : Bytes) : Bytes :=
  let header : Bytes :=
    if bytes.length < 2 ^ 8 then 0xc4 :: bigEndian 1 bytes.length
    else if bytes.length < 2 ^ 16 then 0xc5 :: bigEndian 2 bytes.length
    else 0xc6 :: bigEndian 4 bytes.length
  header ++ bytes

def packSeq {α : Type} (pack : α → Bytes) (items : List α) : Bytes :=
  let header : Bytes :=
    if items.length < 16 then [UInt8.ofNat (0x90 + items.length)]
    else if items.length < 2 ^ 16 then 0xdc :: bigEndian 2 items.length
    else 0xdd :: bigEndian 4 items.length
  header ++ items.flatMap pack

def packOption {α : Type} (pack : α → Bytes) : Option α → Bytes
  | none => [0xc0]
  | some a => pack a

/-- A structure of fewer than 16 fields. -/
def packFields (fields : List (String × Bytes)) : Bytes :=
  UInt8.ofNat (0x80 + fields.length) :: fields.flatMap fun f => packStr f.1 ++ f.2

/-- A variant that holds something. -/
def packVariant (name : String) (body : Bytes) : Bytes := packFields [(name, body)]

/-! ## The parts of a clip -/

def packDevice (device : DeviceId) : Bytes := packBin device.bytes.toList

def packClipId (id : ClipId) : Bytes := packBin (bigEndian 16 id.uuid)

/-- `ContentHash::to_hex`. -/
def packHash (hash : ContentHash) : Bytes :=
  packStr (String.ofList (hash.bytes.toList.flatMap fun b => DeviceId.hexByte b.toNat))

def packHlc (hlc : Hlc) : Bytes :=
  packFields
    [("wall_ms", packUint hlc.wallMs.toNat),
      ("counter", packUint hlc.counter.toNat),
      ("device", packDevice hlc.device)]

def packFormat : ClipFormat → Bytes
  | .text => packStr "Text"
  | .html => packStr "Html"
  | .rtf => packStr "Rtf"
  | .png => packStr "Png"
  | .jpeg => packStr "Jpeg"
  | .svg => packStr "Svg"
  | .fileList => packStr "FileList"
  | .other label => packVariant "Other" (packStr label)

def packBody : PayloadBody → Bytes
  | .inline bytes => packVariant "Inline" (packSeq (fun b => packUint b.toNat) bytes)
  | .blob => packStr "Blob"

def packPayload (p : Payload) : Bytes :=
  packFields
    [("format", packFormat p.format),
      ("digest", packHash p.digest),
      ("size", packUint p.size.toNat),
      ("body", packBody p.body)]

def packSource (source : ClipSource) : Bytes :=
  packFields
    [("device", packDevice source.device),
      ("device_label", packStr source.deviceLabel),
      ("app", packOption packStr source.app)]

def packClip (c : Clip) : Bytes :=
  packFields
    [("id", packClipId c.id),
      ("hash", packHash c.hash),
      ("kind", packStr c.kind.asStr),
      ("payloads", packSeq packPayload c.payloads),
      ("preview", packStr c.preview),
      ("source", packSource c.source),
      ("hlc", packHlc c.hlc),
      ("created_at_ms", packUint c.createdAtMs.toNat),
      ("pinned", packBool c.pinned),
      ("deleted", packBool c.deleted)]

def packSummary (e : ClipSummary) : Bytes :=
  packFields
    [("hash", packHash e.hash),
      ("hlc", packHlc e.hlc),
      ("kind", packStr e.kind.asStr),
      ("pinned", packBool e.pinned),
      ("deleted", packBool e.deleted),
      ("total_size", packUint e.totalSize.toNat)]

/-! ## Messages -/

/-- The fields of a message. -/
def fields : SyncMessage → List (String × Bytes)
  | .hello device epoch protocol maxHlc label platform =>
    [("device", packDevice device),
      ("epoch", packUint epoch.toNat),
      ("protocol", packUint protocol.toNat),
      ("max_hlc", packOption packHlc maxHlc),
      ("label", packStr label),
      ("platform", packStr platform)]
  | .summary entries complete =>
    [("entries", packSeq packSummary entries), ("complete", packBool complete)]
  | .want hashes => [("hashes", packSeq packHash hashes)]
  | .push clip => [("clip", packClip clip)]
  | .blobOffer digest size chunkSize =>
    [("digest", packHash digest),
      ("size", packUint size.toNat),
      ("chunk_size", packUint chunkSize.toNat)]
  | .blobWant digest fromChunk =>
    [("digest", packHash digest), ("from_chunk", packUint fromChunk.toNat)]
  | .blobChunk digest index bytes =>
    [("digest", packHash digest), ("index", packUint index.toNat), ("bytes", packBin bytes)]
  | .blobEnd digest => [("digest", packHash digest)]
  | .ack hlc => [("hlc", packHlc hlc)]
  | .bye reason => [("reason", packStr reason)]

/-- `rmp_serde::to_vec_named`. -/
def pack (m : SyncMessage) : Bytes := packVariant m.variantName (packFields (fields m))

/-- MessagePack on messages with different encodings. -/
@[reducible] def ofTable (messages : Table pack) : MessagePack where
  toVec m := if m ∈ messages.rows then some (pack m) else none
  fromSlice := messages.find?
  fromSlice_toVec := by
    intro m body h
    split at h
    · next hm =>
      obtain rfl := Option.some.inj h
      exact Table.find?_of_mem hm
    · cases h

end MessagePack

end Clipse
