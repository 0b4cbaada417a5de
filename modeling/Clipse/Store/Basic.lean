import Clipse.Lib.Table
import Clipse.Store.Row

/-!
# The store (`clipse-store/src/store.rs`, `blob.rs`)

Every operation of `Store` runs under its connection mutex, so each is one function from the state
to the state. The wall clock that `delete` and `purge_tombstones` read is an argument. Failures of
the disk or of SQLite other than a violated primary key are not part of the model.

`Store` carries what every operation keeps: clip ids are unique, and of the rows with one content
hash only the newest may be live (`liveLast`).
-/

namespace Clipse

/-- A row of `blob_meta`. -/
structure BlobMeta where
  digest : ContentHash
  size : Nat
  usedSeq : Nat
deriving DecidableEq

/-- A file below `blobs/`, named by its digest. -/
structure BlobFile where
  digest : ContentHash
  bytes : Bytes
deriving DecidableEq

structure Store where
  clip : Table ClipRow.id
  clipFts : List FtsRow
  blobMeta : Table BlobMeta.digest
  files : Table BlobFile.digest
  blobQuotaBytes : UInt64
  usedSeq : Nat
  /-- `insert` looks for a live row with the hash before it adds one. -/
  liveLast : clip.rows.Pairwise (fun r r' => r.hash = r'.hash → r.deleted)

inductive StoreError where
  | notFound (id : ClipId)
  | blobNotFound (digest : ContentHash)
  /-- A primary key is taken; the transaction is rolled back. -/
  | constraint
deriving DecidableEq

inductive InsertOutcome where
  | inserted (id : ClipId)
  | deduplicated (id : ClipId)
  | rejected
deriving DecidableEq

namespace Store

/-- `Store::open` on a fresh database. -/
def open_ (blobQuotaBytes : UInt64) : Store :=
  { clip := .empty, clipFts := [], blobMeta := .empty, files := .empty, blobQuotaBytes,
    usedSeq := 0, liveLast := .nil }

/-! ## Reading clips -/

/-- `SELECT id … ORDER BY deleted ASC LIMIT 1`, or `… AND deleted = 0 LIMIT 1`. -/
def selectId (s : Store) (hash : ContentHash) (includeDeleted : Bool) : Option ClipId :=
  if includeDeleted then
    ((s.clip.rows.filter (·.hash = hash)).insertionSort
      (fun a b => a.deleted ≤ b.deleted)).head?.map (·.id)
  else (s.clip.rows.find? (fun r => r.hash = hash && !r.deleted)).map (·.id)

/-- `load_clip`. -/
def loadClip (s : Store) (id : ClipId) : Option Clip := (s.clip.find? id).map ClipRow.toClip

/-- `Store::get`. -/
def get (s : Store) (id : ClipId) : Option Clip := s.loadClip id

/-- `Store::lookup_by_hash`. -/
def lookupByHash (s : Store) (hash : ContentHash) (includeDeleted : Bool) : Option Clip :=
  (s.selectId hash includeDeleted).bind s.loadClip

/-- `Store::by_hash`. -/
def byHash (s : Store) (hash : ContentHash) : Option Clip := s.lookupByHash hash false

/-- `Store::by_hash_including_deleted`. -/
def byHashIncludingDeleted (s : Store) (hash : ContentHash) : Option Clip :=
  s.lookupByHash hash true

/-- `ORDER BY hlc_wall_ms ASC, hlc_counter ASC, hlc_device ASC`. -/
def byHlc (rows : List ClipRow) : List ClipRow :=
  rows.insertionSort (fun a b => a.hlc.column ≤ b.hlc.column)

/-- `Store::changes_since`. A limit of 2^63 or more is negative to SQLite, which then has none: no
table has so many rows. -/
def changesSince (s : Store) (hlc : Option Hlc) (limit : Nat) : List Clip :=
  let rows :=
    match hlc with
    | none => s.clip.rows
    | some cursor => s.clip.rows.filter (fun r => cursor.column < r.hlc.column)
  ((byHlc rows).take limit).map ClipRow.toClip

/-- `HistoryQuery`. -/
structure HistoryQuery where
  limit : UInt64 := 100
  offset : UInt64 := 0
  kind : Option ClipKind := none
  pinnedOnly : Bool := false

/-- `LIMIT :limit OFFSET :offset`: to SQLite both are signed, a negative limit is none, and a
negative offset is zero. -/
def HistoryQuery.page {α : Type} (q : HistoryQuery) (rows : List α) : List α :=
  let rows := rows.drop q.offset.toInt64.toInt.toNat
  if q.limit.toInt64 < 0 then rows else rows.take q.limit.toNat

/-- `Store::recent`: the live clips, newest first. Clips of one HLC come in the order of their
insertion; SQLite leaves their order open. -/
def recent (s : Store) (q : HistoryQuery) : List Clip :=
  let rows := s.clip.rows.filter fun r =>
    !r.deleted && q.kind.all (r.kind = ·) && (!q.pinnedOnly || r.pinned)
  (q.page (rows.insertionSort fun a b => b.hlc.column ≤ a.hlc.column)).map ClipRow.toClip

/-- `Store::max_hlc`. -/
def maxHlc (s : Store) : Option Hlc := (byHlc s.clip.rows).getLast?.map (·.hlc)

/-! ## Writing clips -/

/-- `UPDATE clip SET … WHERE p`, for a statement that leaves id and hash alone and revives no
tombstone. -/
def update (s : Store) (p : ClipRow → Bool) (f : ClipRow → ClipRow) (hid : ∀ r, (f r).id = r.id)
    (hhash : ∀ r, (f r).hash = r.hash) (hdel : ∀ r, r.deleted → (f r).deleted) : Store :=
  { s with
    clip := s.clip.modify p f hid
    liveLast := by
      refine List.pairwise_map.2 (s.liveLast.imp fun {a b} h => ?_)
      by_cases ha : p a <;> by_cases hb : p b <;> simp only [ha, hb, hhash, ↓reduceIte]
      · exact fun he => hdel a (h he)
      · exact fun he => hdel a (h he)
      · exact h
      · exact h }

/-- `Store::insert`. -/
def insert [Blake3] (s : Store) (c : Clip) : Except StoreError (InsertOutcome × Store) :=
  if !c.hashMatches then .ok (.rejected, s)
  else
    match hlive : s.clip.rows.find? (fun r => r.hash = c.hash && !r.deleted) with
    | some existing =>
      .ok (.deduplicated existing.id,
        s.update (·.id = existing.id)
          (fun r => { r with hlc := c.hlc, createdAtMs := c.createdAtMs, source := c.source })
          (fun _ => rfl) (fun _ => rfl) (fun _ h => h))
    | none =>
      if !(c.payloads.map (·.label)).Nodup then .error .constraint
      else
        match hins : s.clip.insert? (.of c) with
        | none => .error .constraint
        | some clip =>
          .ok (.inserted c.id, { s with
            clip
            clipFts := s.clipFts ++ [.of c]
            liveLast := by
              rw [(Table.insert?_eq_some.1 hins).2, List.pairwise_append]
              refine ⟨s.liveLast, List.pairwise_singleton _ _, fun r hr r' hr' he => ?_⟩
              obtain rfl := List.mem_singleton.1 hr'
              simpa [he, ClipRow.of] using List.find?_eq_none.1 hlive r hr })

/-- `Store::set_pinned`. -/
def setPinned (s : Store) (id : ClipId) (pinned : Bool) (hlc : Hlc) : Except StoreError Store :=
  if (s.clip.find? id).isNone then .error (.notFound id)
  else .ok (s.update (·.id = id) (fun r => { r with pinned, hlc })
    (fun _ => rfl) (fun _ => rfl) (fun _ h => h))

/-- `Store::delete`: a tombstone already there keeps its timestamps, and the search index is only
touched when a row changed. -/
def delete (s : Store) (id : ClipId) (hlc : Hlc) (now : UInt64) : Except StoreError Store :=
  let hit (r : ClipRow) : Bool := r.id = id && !r.deleted
  if (s.clip.find? id).isNone then .error (.notFound id)
  else .ok { s.update hit (fun r => { r with deleted := true, deletedAtMs := some now, hlc })
      (fun _ => rfl) (fun _ => rfl) (fun _ _ => rfl) with
    clipFts := if s.clip.rows.any hit then s.clipFts.filter (·.clipId ≠ id) else s.clipFts }

/-! ## Blobs -/

/-- `Store::has_blob`. -/
def hasBlob (s : Store) (digest : ContentHash) : Bool := (s.files.find? digest).isSome

/-- `Store::next_used_seq`, given to a row of `blob_meta`. -/
def touchBlob (s : Store) (digest : ContentHash) : Store :=
  { s with
    usedSeq := s.usedSeq + 1
    blobMeta := s.blobMeta.modify (·.digest = digest) (fun m => { m with usedSeq := s.usedSeq + 1 })
      (fun _ => rfl) }

/-- `Store::put_blob`: the file is written unless it is there, the meta row upserted. -/
def putBlob (s : Store) (digest : ContentHash) (bytes : Bytes) : Store :=
  let seq := s.usedSeq + 1
  { s with
    files := (s.files.insert? ⟨digest, bytes⟩).getD s.files
    usedSeq := seq
    blobMeta := (s.blobMeta.insert? ⟨digest, bytes.length, seq⟩).getD (s.touchBlob digest).blobMeta }

/-- `Store::read_blob`: a read counts as a use. -/
def readBlob (s : Store) (digest : ContentHash) : Except StoreError (Bytes × Store) :=
  match s.files.find? digest with
  | none => .error (.blobNotFound digest)
  | some file => .ok (file.bytes, s.touchBlob digest)

/-- Remove a blob's file and its meta row. -/
def dropBlob (s : Store) (digest : ContentHash) : Store :=
  { s with
    files := s.files.erase (·.digest = digest)
    blobMeta := s.blobMeta.erase (·.digest = digest) }

/-- The digests that the payloads of the rows with `p` refer to. -/
def referenced (s : Store) (p : ClipRow → Bool) : List ContentHash :=
  (s.clip.rows.filter p).flatMap fun r => r.payloads.map (·.digest)

/-- `prune_orphan_blobs`: blobs that no payload row refers to any more. -/
def pruneOrphanBlobs (s : Store) : Store :=
  ((s.blobMeta.rows.map (·.digest)).filter (· ∉ s.referenced fun _ => true)).foldl dropBlob s

/-- `Store::purge_tombstones`. -/
def purgeTombstones (s : Store) (olderThanMs now : UInt64) : Store :=
  let cutoff := if now < olderThanMs then 0 else now - olderThanMs
  let expired (r : ClipRow) : Bool :=
    r.deleted && r.deletedAtMs.any fun at_ => at_.toInt64 ≤ cutoff.toInt64
  pruneOrphanBlobs { s with
    clip := s.clip.erase expired
    liveLast := s.liveLast.sublist List.filter_sublist }

/-- `Store::blob_bytes`: `SUM(size)` over `blob_meta`. -/
def blobBytes (s : Store) : Nat := (s.blobMeta.rows.map (·.size)).sum

/-- The loop of `enforce_blob_quota` over its candidates, oldest use first. -/
def evict (s : Store) : List BlobMeta → Nat → Store
  | [], _ => s
  | m :: candidates, bytesUsed =>
    if bytesUsed ≤ s.blobQuotaBytes.toNat then s
    else (s.dropBlob m.digest).evict candidates (bytesUsed - m.size)

/-- The digests that live pinned clips refer to. -/
def kept (s : Store) : List ContentHash := s.referenced fun r => r.pinned && !r.deleted

/-- The blobs that `enforce_blob_quota` may evict, oldest use first. -/
def candidates (s : Store) : List BlobMeta :=
  (s.blobMeta.rows.filter (·.digest ∉ s.kept)).insertionSort (fun a b => a.usedSeq ≤ b.usedSeq)

/-- `Store::enforce_blob_quota`. -/
def enforceBlobQuota (s : Store) : Store := s.evict s.candidates s.blobBytes

end Store
end Clipse
