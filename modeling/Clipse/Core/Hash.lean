import Mathlib.Data.Vector.Basic
import Mathlib.Data.String.Basic

/-!
# Content hashes (`clipse-core/src/hash.rs`)

`ContentHash` is the 32-byte BLAKE3 digest that names content. The digest function belongs to
another crate, so it is the parameter `Blake3` of everything that computes one. Where a result needs
more than that it is a function, it says so (`CollisionFree`, on the inputs that the result is about).
What the code builds is the input of the digest: `partsInput` prefixes every label and every part with
its length.
-/

namespace Clipse

abbrev Bytes := List UInt8

/-- `ContentHash([u8; 32])`. -/
structure ContentHash where
  bytes : Vector UInt8 32
deriving DecidableEq

/-- `blake3::hash`, the digest of a byte string. -/
class Blake3 where
  hash : Bytes → ContentHash

/-- The bytes of a string (`str::as_bytes`). -/
def utf8 (s : String) : Bytes := s.toUTF8.data.toList

/-- `u64::to_le_bytes`. -/
def le64 (n : UInt64) : Bytes :=
  (List.range 8).map fun i => UInt8.ofNat (n.toNat / 256 ^ i % 256)

namespace ContentHash

variable [Blake3]

/-- `ContentHash::of`. -/
def of (bytes : Bytes) : ContentHash := Blake3.hash bytes

/-- What `of_parts` feeds to the hasher for one part. -/
def framed (label : String) (bytes : Bytes) : Bytes :=
  le64 (UInt64.ofNat (utf8 label).length) ++ utf8 label ++
    le64 (UInt64.ofNat bytes.length) ++ bytes

end ContentHash

/-- What `of_parts` feeds to the hasher. -/
def partsInput (parts : List (String × Bytes)) : Bytes :=
  parts.flatMap fun p => ContentHash.framed p.1 p.2

/-- `ContentHash::of_parts`. -/
def ContentHash.ofParts [Blake3] (parts : List (String × Bytes)) : ContentHash :=
  Blake3.hash (partsInput parts)

/-! ## Digests of the worked examples -/

/-- BLAKE3 of the text `hi`. -/
def hiDigest : ContentHash :=
  { bytes :=
    #v[0x85, 0x05, 0x2e, 0x9a, 0xab, 0x1b, 0x67, 0xb6, 0x62, 0x2d, 0x94, 0xa0, 0x84, 0x41, 0xb0,
      0x9f, 0xd5, 0xb7, 0xac, 0xa6, 0x1e, 0xe3, 0x60, 0x41, 0x6d, 0x70, 0xde, 0x5d, 0xa6, 0x7d,
      0x86, 0xca] }

/-- BLAKE3 of the framed `text/plain` part with that digest: the content hash of the text `hi`. -/
def hiHash : ContentHash :=
  { bytes :=
    #v[0x3e, 0xb8, 0x9c, 0xeb, 0x5b, 0xac, 0x85, 0x7a, 0x76, 0x9d, 0x3a, 0x3c, 0xc6, 0x13, 0x73,
      0x29, 0x20, 0x5d, 0x35, 0x61, 0xe2, 0x7f, 0x42, 0x78, 0x76, 0x8c, 0xb9, 0xd5, 0x7f, 0xca,
      0xc4, 0xf7] }

/-- A picture of 65537 bytes, one more than a payload in a row may have. -/
def bigImage : Bytes := .replicate 65537 0

theorem length_bigImage : bigImage.length = 65537 := by rw [bigImage, List.length_replicate]

theorem bigImage_ne {bytes : Bytes} (h : bytes.length < 65537) : bigImage ≠ bytes := by
  intro he
  have hl := congrArg List.length he
  rw [length_bigImage] at hl
  omega

/-- BLAKE3 of the picture. -/
def bigDigest : ContentHash :=
  { bytes :=
    #v[0x01, 0x77, 0x9f, 0xe4, 0xdd, 0x4c, 0x04, 0x41, 0x95, 0x00, 0x96, 0x48, 0xd5, 0xb2, 0x4b,
      0xa3, 0x0a, 0x63, 0xf3, 0xb7, 0xc4, 0x95, 0x85, 0x29, 0xe4, 0x23, 0xa7, 0xda, 0x37, 0x66,
      0xba, 0xf9] }

/-- BLAKE3 of the framed `image/png` part with that digest. -/
def bigHash : ContentHash :=
  { bytes :=
    #v[0xc5, 0x0d, 0xa5, 0xdf, 0x75, 0xf3, 0x60, 0x5c, 0x29, 0xa0, 0x74, 0xfc, 0x7b, 0xf3, 0x5b,
      0x33, 0x61, 0x3a, 0xed, 0x5d, 0xa4, 0xce, 0xcc, 0x10, 0xcb, 0x73, 0xaf, 0x65, 0x08, 0x32,
      0x79, 0x71] }

/-- BLAKE3 of the picture's part and that of the text `hi`. -/
def captionedHash : ContentHash :=
  { bytes :=
    #v[0x93, 0x7b, 0xe7, 0x7a, 0x47, 0xa0, 0x1c, 0x65, 0x39, 0x43, 0x4d, 0xe0, 0x55, 0xfe, 0x55,
      0xd6, 0x86, 0xdc, 0xdf, 0x94, 0x5f, 0x15, 0x01, 0xe8, 0xe0, 0x1e, 0x46, 0x71, 0xa3, 0x83,
      0x69, 0x65] }

/-- BLAKE3 on the inputs that the worked examples hash. -/
@[reducible] def Blake3.examples : Blake3 where
  hash bytes :=
    let text := ContentHash.framed "text/plain" hiDigest.bytes.toList
    let image := ContentHash.framed "image/png" bigDigest.bytes.toList
    if bytes = utf8 "hi" then hiDigest
    else if bytes = text then hiHash
    else if bytes = bigImage then bigDigest
    else if bytes = image then bigHash
    else if bytes = image ++ text then captionedHash
    else { bytes := .replicate 32 0 }

theorem of_examples {bytes : Bytes} (hi : bytes ≠ utf8 "hi")
    (text : bytes ≠ ContentHash.framed "text/plain" hiDigest.bytes.toList)
    (image : bytes = bigImage) : @ContentHash.of Blake3.examples bytes = bigDigest := by
  unfold ContentHash.of Blake3.examples
  dsimp only
  rw [if_neg hi, if_neg text, if_pos image]

end Clipse
