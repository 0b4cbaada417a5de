import Clipse.Core.Clip

/-!
# Rows of the database (`clipse-store/src/schema.rs`, `row.rs`, `fts.rs`)

A row of `clip` with its `payload` rows, which never outlive it (`ON DELETE CASCADE`). Numbers are
kept as 64-bit columns and cast back on the way out, so a column determines its value; only
`ORDER BY` sees that SQLite's integers are signed (`Hlc.column`).
-/

namespace Clipse

/-- The columns `hlc_wall_ms, hlc_counter, hlc_device` as `ORDER BY` compares them: signed 64-bit
integers and text. -/
def Hlc.column (h : Hlc) : ℤ ×ₗ ℤ ×ₗ List Char :=
  toLex (h.wallMs.toInt64.toInt, toLex ((h.counter.toNat : ℤ), h.device.text))

/-- A row of `payload`. -/
structure PayloadRow where
  formatLabel : String
  digest : ContentHash
  size : UInt64
  inlineBytes : Option Bytes
deriving DecidableEq

/-- The values that `Store::insert` binds for a payload. -/
def PayloadRow.of (p : Payload) : PayloadRow where
  formatLabel := p.label
  digest := p.digest
  size := p.size
  inlineBytes := p.inlineBytes

/-- `RawPayload::into_payload`. -/
def PayloadRow.toPayload (r : PayloadRow) : Payload where
  format := .fromLabel r.formatLabel
  digest := r.digest
  size := r.size
  body :=
    match r.inlineBytes with
    | some bytes => .inline bytes
    | none => .blob

/-- A row of `clip`, and its rows of `payload` in insertion order. -/
structure ClipRow where
  id : ClipId
  hash : ContentHash
  kind : ClipKind
  preview : String
  source : ClipSource
  hlc : Hlc
  createdAtMs : UInt64
  pinned : Bool
  deleted : Bool
  deletedAtMs : Option UInt64
  payloads : List PayloadRow
deriving DecidableEq

namespace ClipRow

/-- The row that `Store::insert` writes for a clip: `deleted_at_ms` stays `NULL`. -/
def of (c : Clip) : ClipRow :=
  { id := c.id, hash := c.hash, kind := c.kind, preview := c.preview, source := c.source,
    hlc := c.hlc, createdAtMs := c.createdAtMs, pinned := c.pinned, deleted := c.deleted,
    deletedAtMs := none, payloads := c.payloads.map .of }

/-- `load_payloads`: `ORDER BY format_label ASC`. -/
def loadPayloads (r : ClipRow) : List Payload :=
  (r.payloads.insertionSort (fun a b => a.formatLabel ≤ b.formatLabel)).map PayloadRow.toPayload

/-- `RawClip::into_clip`. -/
def toClip (r : ClipRow) : Clip :=
  { id := r.id, hash := r.hash, kind := r.kind, payloads := r.loadPayloads, preview := r.preview,
    source := r.source, hlc := r.hlc, createdAtMs := r.createdAtMs, pinned := r.pinned,
    deleted := r.deleted }

end ClipRow

/-- A row of `clip_fts`, the search index, which has no key. -/
structure FtsRow where
  clipId : ClipId
  body : String
deriving DecidableEq

/-- `fts::body_text`. -/
def bodyText (c : Clip) : String :=
  match c.text with
  | some text => if text ≠ c.preview then c.preview ++ "\n" ++ text else c.preview
  | none => c.preview

/-- The values that `Store::insert` binds for the search index. -/
def FtsRow.of (c : Clip) : FtsRow where
  clipId := c.id
  body := bodyText c

@[simp] theorem PayloadRow.of_label (p : Payload) : (PayloadRow.of p).formatLabel = p.label := rfl

theorem PayloadRow.toPayload_label (r : PayloadRow) : r.toPayload.label = r.formatLabel :=
  ClipFormat.label_fromLabel r.formatLabel

namespace ClipRow

theorem loadPayloads_of_le {c : Clip}
    (h : c.payloads.Pairwise (fun a b => a.label ≤ b.label)) :
    (of c).loadPayloads = c.payloads.map (fun p => (PayloadRow.of p).toPayload) := by
  have hp : (c.payloads.map PayloadRow.of).Pairwise (fun a b => a.formatLabel ≤ b.formatLabel) :=
    List.pairwise_map.2 h
  rw [loadPayloads, of, hp.insertionSort_eq, List.map_map]
  rfl

theorem loadPayloads_of {c : Clip} (h : c.payloads.Pairwise (fun a b => a.label < b.label)) :
    (of c).loadPayloads = c.payloads.map (fun p => (PayloadRow.of p).toPayload) :=
  loadPayloads_of_le (h.imp fun hlt => le_of_lt hlt)

/-- **A canonical clip is canonical again when it is loaded**: the database changes neither the
order of the payloads nor anything that the hash covers. -/
theorem toClip_of_canonical [Blake3] {c : Clip} (h : c.Canonical) : (of c).toClip.Canonical := by
  have hl := loadPayloads_of h.sorted
  refine ⟨?_, ?_⟩
  · simp only [toClip, hl]
    refine List.pairwise_map.2 (h.sorted.imp fun {a b} hlt => ?_)
    rwa [PayloadRow.toPayload_label, PayloadRow.toPayload_label]
  · have hc : Clip.computeHash (of c).loadPayloads = Clip.computeHash c.payloads := by
      refine Clip.computeHash_congr ?_
      rw [hl, List.map_map]
      exact List.map_congr_left fun p _ => Prod.ext (PayloadRow.toPayload_label _) rfl
    have hm : Clip.computeHash c.payloads = c.hash := by simpa [Clip.hashMatches] using h.hash
    exact decide_eq_true (hc.trans hm)

/-- The blobs of a clip are the same when it is loaded. -/
theorem blobDigests_of {c : Clip} (h : c.payloads.Pairwise (fun a b => a.label < b.label)) :
    (of c).toClip.blobDigests = c.blobDigests := by
  have hb : (fun p : Payload => (PayloadRow.of p).toPayload.isBlob) = Payload.isBlob := by
    funext p
    cases hp : p.body <;>
      simp [PayloadRow.toPayload, PayloadRow.of, Payload.isBlob, Payload.inlineBytes, hp]
  have hl : (of c).toClip.payloads = c.payloads.map (fun p => (PayloadRow.of p).toPayload) :=
    loadPayloads_of h
  rw [Clip.blobDigests, hl, List.filter_map, List.map_map]
  change List.map _ (List.filter (fun p => (PayloadRow.of p).toPayload.isBlob) _) = _
  rw [hb]
  rfl

end ClipRow
end Clipse
