import Clipse.Core.Hash
import Clipse.Core.Hlc
import Mathlib.Data.List.Sort
import Mathlib.Data.UInt

/-!
# Clips (`clipse-core/src/clip.rs`)

A clip is one entry of the history: its payloads (one per clipboard format), the hash over their
digests, and the metadata that replicates (`pinned`, `deleted`, `hlc`).

* `Clip.new`: a fresh capture; payloads are put into canonical order first.
* `Clip.Canonical`: the payloads are in canonical order and hash to `hash`. Every clip that a
  device builds or loads has this form (`Clip.new_canonical`).
-/

namespace Clipse

/-- Payloads up to this size live in the row, larger ones in the blob store. -/
def inlineMaxBytes : Nat := 64 * 1024

inductive ClipFormat where
  | text | html | rtf | png | jpeg | svg | fileList
  | other (label : String)
deriving DecidableEq

inductive ClipKind where
  | text | html | rtf | image | files | other
deriving DecidableEq

/-- `ClipKind::as_str`. -/
def ClipKind.asStr : ClipKind → String
  | text => "text"
  | html => "html"
  | rtf => "rtf"
  | image => "image"
  | files => "files"
  | other => "other"

namespace ClipFormat

/-- `ClipFormat::label`: the name in the database, on the wire and in the content hash. -/
def label : ClipFormat → String
  | text => "text/plain"
  | html => "text/html"
  | rtf => "application/rtf"
  | png => "image/png"
  | jpeg => "image/jpeg"
  | svg => "image/svg+xml"
  | fileList => "application/x-clipse-filelist"
  | other s => s

/-- `ClipFormat::from_label`. -/
def fromLabel (label : String) : ClipFormat :=
  if label = "text/plain" then text
  else if label = "text/html" then html
  else if label = "application/rtf" then rtf
  else if label = "image/png" then png
  else if label = "image/jpeg" then jpeg
  else if label = "image/svg+xml" then svg
  else if label = "application/x-clipse-filelist" then fileList
  else other label

/-- Reading a label back keeps it: the hash does not change on the way through the database. -/
@[simp] theorem label_fromLabel (s : String) : (fromLabel s).label = s := by
  unfold fromLabel
  split_ifs <;> simp_all [label]

/-- `ClipFormat::kind`. -/
def kind : ClipFormat → ClipKind
  | text => .text
  | html => .html
  | rtf => .rtf
  | png | jpeg | svg => .image
  | fileList => .files
  | other _ => .other

/-- `ClipFormat::display_rank`. -/
def displayRank : ClipFormat → Nat
  | fileList => 5
  | png | jpeg | svg => 4
  | html => 3
  | rtf => 2
  | text => 1
  | other _ => 0

end ClipFormat

inductive PayloadBody where
  | inline (bytes : Bytes)
  | blob
deriving DecidableEq

structure Payload where
  format : ClipFormat
  digest : ContentHash
  size : UInt64
  body : PayloadBody
deriving DecidableEq

namespace Payload

/-- `Payload::new`: the size decides between the row and the blob store. -/
def new [Blake3] (format : ClipFormat) (bytes : Bytes) : Payload where
  format
  digest := .of bytes
  size := UInt64.ofNat bytes.length
  body := if bytes.length ≤ inlineMaxBytes then .inline bytes else .blob

/-- `Payload::blob`. -/
def blob (format : ClipFormat) (digest : ContentHash) (size : UInt64) : Payload :=
  { format, digest, size, body := .blob }

def inlineBytes (p : Payload) : Option Bytes :=
  match p.body with
  | .inline bytes => some bytes
  | .blob => none

def isBlob (p : Payload) : Bool := p.body = .blob

/-- The format's label, by which payloads are ordered. -/
def label (p : Payload) : String := p.format.label

end Payload

structure ClipSource where
  device : DeviceId
  deviceLabel : String
  app : Option String
deriving DecidableEq

structure Clip where
  id : ClipId
  hash : ContentHash
  kind : ClipKind
  payloads : List Payload
  preview : String
  source : ClipSource
  hlc : Hlc
  createdAtMs : UInt64
  pinned : Bool
  deleted : Bool
deriving DecidableEq

/-! ## Previews -/

/-- `char::is_whitespace`: the Unicode property `White_Space`. -/
def isWhitespace (c : Char) : Bool :=
  let n := c.toNat
  (9 ≤ n && n ≤ 13) || n = 32 || n = 0x85 || n = 0xA0 || n = 0x1680 ||
    (0x2000 ≤ n && n ≤ 0x200A) || n = 0x2028 || n = 0x2029 || n = 0x202F || n = 0x205F ||
    n = 0x3000

/-- `text.split_whitespace().collect().join(" ")`. -/
def collapse (text : List Char) : List Char :=
  [' '].intercalate ((text.splitOnP isWhitespace).filter (· ≠ []))

def previewMaxChars : Nat := 240

/-- `b as f64 / d as f64` printed with one decimal: exact below 2^53, ties go to the even digit. -/
def roundTenths (b d : Nat) : Nat :=
  let q := 10 * b / d
  let r := 10 * b % d
  if 2 * r < d then q else if d < 2 * r then q + 1 else q + q % 2

/-- `b as f64 / d as f64` printed without decimals. -/
def roundUnits (b d : Nat) : Nat :=
  let q := b / d
  let r := b % d
  if 2 * r < d then q else if d < 2 * r then q + 1 else q + q % 2

/-- `human_size`. -/
def humanSize (bytes : UInt64) : String :=
  let b := bytes.toNat
  if 1024 * 1024 ≤ b then
    let tenths := roundTenths b (1024 * 1024)
    toString (tenths / 10) ++ "." ++ toString (tenths % 10) ++ " MB"
  else if 1024 ≤ b then toString (roundUnits b 1024) ++ " KB"
  else toString b ++ " B"

/-- The bytes over all representations (`Clip::total_size`). -/
def totalSize (payloads : List Payload) : UInt64 := (payloads.map Payload.size).sum

/-- `std::str::from_utf8(..).ok()`. -/
def fromUtf8 (bytes : Bytes) : Option String := String.fromUTF8? ⟨bytes.toArray⟩

/-- `build_preview`. -/
def buildPreview (payloads : List Payload) (kind : ClipKind) : String :=
  let text := (payloads.find? (fun p => p.format = .text)).bind fun p => p.inlineBytes.bind fromUtf8
  match text with
  -- a text of blanks alone collapses and trims to the empty string alike
  | some text => String.ofList ((collapse text.toList).take previewMaxChars)
  | none =>
    match kind with
    | .image => "Image · " ++ humanSize (totalSize payloads)
    | .files => toString payloads.length ++ " file(s)"
    | _ => kind.asStr ++ " · " ++ humanSize (totalSize payloads)

namespace Clip

/-- `Clip::compute_hash`: over every representation's label and digest. -/
def computeHash [Blake3] (payloads : List Payload) : ContentHash :=
  .ofParts (payloads.map fun p => (p.label, p.digest.bytes.toList))

/-- `Clip::hash_matches`. -/
def hashMatches [Blake3] (c : Clip) : Bool := computeHash c.payloads = c.hash

/-- The canonical order of payloads: by label, stable. -/
def sortPayloads (payloads : List Payload) : List Payload :=
  payloads.insertionSort (fun a b => a.label ≤ b.label)

/-- `max_by_key(display_rank)`: the last of the highest. -/
def headline : List Payload → Option Payload
  | [] => none
  | p :: ps =>
    match headline ps with
    | none => some p
    | some q => if p.format.displayRank ≤ q.format.displayRank then some q else some p

/-- `Clip::new`, for a capture with at least one payload. -/
def new [Blake3] (id : ClipId) (payloads : List Payload) (source : ClipSource) (hlc : Hlc) :
    Clip :=
  let payloads := sortPayloads payloads
  let kind := ((headline payloads).map fun p => p.format.kind).getD .other
  { id, payloads, kind, source, hlc
    hash := computeHash payloads
    preview := buildPreview payloads kind
    createdAtMs := hlc.wallMs
    pinned := false
    deleted := false }

/-- `Clip::text`. -/
def text (c : Clip) : Option String :=
  (c.payloads.find? (fun p => p.format = .text)).bind fun p => p.inlineBytes.bind fromUtf8

/-- The digests of the payloads that live in the blob store. -/
def blobDigests (c : Clip) : List ContentHash := (c.payloads.filter Payload.isBlob).map (·.digest)

/-- `Clip::is_complete`. -/
def isComplete (c : Clip) (hasBlob : ContentHash → Bool) : Bool :=
  c.payloads.all fun p => !p.isBlob || hasBlob p.digest

theorem isComplete_iff {c : Clip} {hasBlob : ContentHash → Bool} :
    c.isComplete hasBlob ↔ ∀ d ∈ c.blobDigests, hasBlob d := by
  simp only [isComplete, blobDigests, List.all_eq_true, List.mem_map, List.mem_filter,
    Bool.or_eq_true, Bool.not_eq_true', forall_exists_index, and_imp]
  refine ⟨fun h d p hp hb hd => ?_, fun h p hp => ?_⟩
  · exact hd ▸ (h p hp).resolve_left (by simp [hb])
  · by_cases hb : p.isBlob
    · exact .inr (h _ p hp hb rfl)
    · exact .inl (by simpa using hb)

/-! ## Canonical clips -/

/-- Payloads in canonical order, one per label, that hash to the clip's hash. -/
structure Canonical [Blake3] (c : Clip) : Prop where
  sorted : c.payloads.Pairwise (fun a b => a.label < b.label)
  hash : c.hashMatches

/-- The hash depends on the labels and digests alone. -/
theorem computeHash_congr [Blake3] {ps qs : List Payload}
    (h : ps.map (fun p => (p.label, p.digest)) = qs.map (fun p => (p.label, p.digest))) :
    computeHash ps = computeHash qs := by
  have hm : ∀ l : List Payload, l.map (fun p => (p.label, p.digest.bytes.toList)) =
      (l.map (fun p => (p.label, p.digest))).map (fun q => (q.1, q.2.bytes.toList)) := by
    intro l
    simp
  rw [computeHash, computeHash, hm ps, hm qs, h]

/-- **A capture is canonical** when no two of its formats share a label. -/
theorem new_canonical [Blake3] (id : ClipId) {payloads : List Payload} (source : ClipSource)
    (hlc : Hlc) (hn : (payloads.map Payload.label).Nodup) :
    (new id payloads source hlc).Canonical := by
  refine ⟨?_, by simp [hashMatches, new]⟩
  have hs := List.pairwise_insertionSort (fun a b : Payload => a.label ≤ b.label) payloads
  have hn' : ((sortPayloads payloads).map Payload.label).Nodup :=
    (((List.perm_insertionSort _ payloads).map _).nodup_iff).2 hn
  exact hs.imp₂ (fun a b hle hne => lt_of_le_of_ne hle hne) (List.pairwise_map.1 hn')

/-- A copy of the text `hi`, for worked examples. -/
def hi [Blake3] (id : Nat) (device : DeviceId) (hlc : Hlc) : Clip :=
  new ⟨id⟩ [.new .text (utf8 "hi")] { device, deviceLabel := "desktop", app := none } hlc

/-- The content hash of such a copy. -/
def hiContent [Blake3] : ContentHash := computeHash [.new .text (utf8 "hi")]

@[simp] theorem hi_hash [Blake3] (id : Nat) (device : DeviceId) (hlc : Hlc) :
    (hi id device hlc).hash = hiContent := rfl

theorem hi_canonical [Blake3] (id : Nat) (device : DeviceId) (hlc : Hlc) :
    (hi id device hlc).Canonical := new_canonical _ _ _ (List.nodup_singleton _)

end Clip
end Clipse
