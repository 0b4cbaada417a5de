import Clipse.Lib.Files
import Clipse.Store.Proof.Calls
import Clipse.Store.Proof.Quota

/-!
# The blob files, step by step (`clipse-store/src/blob.rs`)

`put_blob` does its work on the files without a lock, so other calls come between its steps. Only
what happens under the connection mutex is one step here: the upsert into `blob_meta` and the writes
of clips. `enforce_blob_quota` and `purge_tombstones` keep the mutex from their first step to their
last, and remove one file and one row at a time.

The directories of `put_blob` are never removed. Failures of the disk are not part of the model,
except that a file to be renamed may be gone.
-/

namespace Clipse

/-- `blob_path`, and `with_extension("tmp")` of it. -/
inductive BlobPath where
  | blob (digest : ContentHash)
  | tmp (digest : ContentHash)
deriving DecidableEq

/-- What a `put_blob` does next. -/
inductive PutPhase where
  /-- `path.is_file()`. -/
  | test
  /-- `fs::write` opens and truncates the temporary file. -/
  | create
  /-- `fs::write` has the file open and has written this many of its bytes. -/
  | append (file written : Nat)
  /-- `fs::rename`. -/
  | rename
  /-- `next_used_seq`. -/
  | sequence
  /-- The upsert into `blob_meta`. -/
  | record (seq : Nat)
deriving DecidableEq

/-- A running `put_blob`. -/
structure Put where
  digest : ContentHash
  bytes : Bytes
  phase : PutPhase
deriving DecidableEq

/-- Which call removes blobs. -/
inductive SweepKind where
  /-- `enforce_blob_quota`, at `bytes_used`. -/
  | quota (bytesUsed : Nat)
  /-- `prune_orphan_blobs`, in a transaction that began with these tables. -/
  | prune (before : Store)

/-- A running `enforce_blob_quota` or `purge_tombstones`. -/
structure Sweep where
  kind : SweepKind
  /-- The rows of `blob_meta` that are still to go. -/
  todo : List BlobMeta
  /-- The file of the first of them has been removed. -/
  removed : Bool

/-- Whether the loop goes on to another row. -/
def SweepKind.goesOn (quota : UInt64) : SweepKind → Bool
  | .quota bytesUsed => quota.toNat < bytesUsed
  | .prune _ => true

/-- `bytes_used.saturating_sub(size)`. -/
def SweepKind.deduct (size : Nat) : SweepKind → SweepKind
  | .quota bytesUsed => .quota (bytesUsed - size)
  | .prune before => .prune before

/-- The tables, whose `files` are not used, and the files, while calls run. -/
structure Disk where
  tables : Store
  files : Files BlobPath
  /-- The running `put_blob` calls, by thread. -/
  puts : Nat → Option Put
  /-- The call that holds the mutex from step to step. -/
  sweep : Option Sweep
  crashed : Bool

namespace Store

/-- The rows that `purge_tombstones` deletes from `clip`. -/
def expire (s : Store) (olderThanMs now : UInt64) : Store :=
  { s with
    clip := s.clip.erase (due olderThanMs now)
    liveLast := s.liveLast.sublist List.filter_sublist }

/-- The rows that `prune_orphan_blobs` goes through. -/
def orphans (s : Store) : List BlobMeta :=
  s.blobMeta.rows.filter (·.digest ∉ s.referenced fun _ => true)

/-- `INSERT INTO blob_meta … ON CONFLICT(digest) DO UPDATE SET used_seq`. -/
def upsertMeta (s : Store) (digest : ContentHash) (size seq : Nat) : Store :=
  { s with
    blobMeta := (s.blobMeta.insert? ⟨digest, size, seq⟩).getD
      (s.blobMeta.modify (·.digest = digest) (fun m => { m with usedSeq := seq }) fun _ => rfl) }

/-- `DELETE FROM blob_meta WHERE digest`. -/
def deleteMeta (s : Store) (digest : ContentHash) : Store :=
  { s with blobMeta := s.blobMeta.erase (·.digest = digest) }

/-- `Store::open` again: `used_seq` starts at the greatest one recorded. -/
def reopen (s : Store) : Store :=
  { s with usedSeq := (s.blobMeta.rows.map (·.usedSeq)).foldr max 0 }

end Store

namespace Disk

/-- A fresh database and no blobs. -/
def open_ (blobQuotaBytes : UInt64) : Disk :=
  { tables := .open_ blobQuotaBytes, files := .empty, puts := fun _ => none, sweep := none,
    crashed := false }

/-- `Store::has_blob`. -/
def hasBlob (s : Disk) (digest : ContentHash) : Bool := s.files.isFile (.blob digest)

def setPut (s : Disk) (thread : Nat) (put : Option Put) : Disk :=
  { s with puts := Function.update s.puts thread put }

/-- One step of a thread. -/
inductive Act where
  | put (thread : Nat)
  | test (thread : Nat)
  | create (thread : Nat)
  | append (thread count : Nat)
  | close (thread : Nat)
  | rename (thread : Nat)
  | sequence (thread : Nat)
  | record (thread : Nat)
  /-- A write of clips, from beginning to end. -/
  | write (w : Store.Write)
  | enforce
  | purge (olderThanMs now : UInt64)
  /-- `fs::remove_file`, if the path is a file. -/
  | remove
  /-- The row goes too. -/
  | delete
  | finish
  | crash

/-- What a crash leaves: an open transaction is rolled back. -/
def rolledBack (s : Disk) : Store :=
  match s.sweep with
  | some { kind := .prune before, .. } => before
  | _ => s.tables

inductive Step [Blake3] : Disk → Act → Disk → Prop where
  /-- A `put_blob` begins, with bytes that hash to its digest. -/
  | put {s thread digest bytes} (h : s.puts thread = none) (hb : ContentHash.of bytes = digest) :
      Step s (.put thread) (s.setPut thread (some ⟨digest, bytes, .test⟩))
  | test {s thread digest bytes} (h : s.puts thread = some ⟨digest, bytes, .test⟩) :
      Step s (.test thread) (s.setPut thread
        (some ⟨digest, bytes, if s.hasBlob digest then .sequence else .create⟩))
  | create {s thread digest bytes} (h : s.puts thread = some ⟨digest, bytes, .create⟩) :
      Step s (.create thread)
        ({ s with files := (s.files.create (.tmp digest)).2 }.setPut thread
          (some ⟨digest, bytes, .append (s.files.create (.tmp digest)).1 0⟩))
  /-- One `write` of `write_all`, which takes as many bytes as it likes. -/
  | append {s thread digest bytes file written count}
      (h : s.puts thread = some ⟨digest, bytes, .append file written⟩) (hc : 0 < count)
      (hl : written + count ≤ bytes.length) :
      Step s (.append thread count)
        ({ s with files := s.files.writeAt file written ((bytes.drop written).take count) }.setPut
          thread (some ⟨digest, bytes, .append file (written + count)⟩))
  | close {s thread digest bytes file}
      (h : s.puts thread = some ⟨digest, bytes, .append file bytes.length⟩) :
      Step s (.close thread) (s.setPut thread (some ⟨digest, bytes, .rename⟩))
  | rename {s thread digest bytes files} (h : s.puts thread = some ⟨digest, bytes, .rename⟩)
      (hf : s.files.rename (.tmp digest) (.blob digest) = some files) :
      Step s (.rename thread)
        ({ s with files }.setPut thread (some ⟨digest, bytes, .sequence⟩))
  /-- The temporary file is gone: `put_blob` fails. -/
  | renameFailed {s thread digest bytes} (h : s.puts thread = some ⟨digest, bytes, .rename⟩)
      (hf : s.files.rename (.tmp digest) (.blob digest) = none) :
      Step s (.rename thread) (s.setPut thread none)
  | sequence {s thread digest bytes} (h : s.puts thread = some ⟨digest, bytes, .sequence⟩) :
      Step s (.sequence thread)
        ({ s with tables := { s.tables with usedSeq := s.tables.usedSeq + 1 } }.setPut thread
          (some ⟨digest, bytes, .record (s.tables.usedSeq + 1)⟩))
  | record {s thread digest bytes seq} (h : s.puts thread = some ⟨digest, bytes, .record seq⟩)
      (hm : s.sweep = none) :
      Step s (.record thread)
        ({ s with tables := s.tables.upsertMeta digest bytes.length seq }.setPut thread none)
  | write {s w} (hm : s.sweep = none) : Step s (.write w) { s with tables := s.tables.write w }
  | enforce {s} (hm : s.sweep = none) :
      Step s .enforce { s with
        sweep := some
          { kind := .quota s.tables.blobBytes, todo := s.tables.candidates, removed := false } }
  | purge {s olderThanMs now} (hm : s.sweep = none) :
      Step s (.purge olderThanMs now) { s with
        tables := s.tables.expire olderThanMs now
        sweep := some
          { kind := .prune s.tables, todo := (s.tables.expire olderThanMs now).orphans,
            removed := false } }
  | remove {s kind m todo} (h : s.sweep = some { kind, todo := m :: todo, removed := false })
      (hg : kind.goesOn s.tables.blobQuotaBytes) :
      Step s .remove { s with
        files := s.files.remove (.blob m.digest)
        sweep := some { kind, todo := m :: todo, removed := true } }
  | delete {s kind m todo} (h : s.sweep = some { kind, todo := m :: todo, removed := true }) :
      Step s .delete { s with
        tables := s.tables.deleteMeta m.digest
        sweep := some { kind := kind.deduct m.size, todo, removed := false } }
  | finish {s kind todo} (h : s.sweep = some { kind, todo, removed := false })
      (hg : todo = [] ∨ kind.goesOn s.tables.blobQuotaBytes = false) :
      Step s .finish { s with sweep := none }
  /-- The daemon dies, and is started again. -/
  | crash {s} :
      Step s .crash
        { tables := s.rolledBack.reopen, files := s.files, puts := fun _ => none, sweep := none,
          crashed := true }

end Disk
end Clipse
