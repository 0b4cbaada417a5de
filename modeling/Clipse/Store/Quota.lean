import Clipse.Store.Basic

/-!
# The report of a quota pass (`clipse-store/src/blob.rs`)

`enforce_blob_quota` with the counters that it keeps in 64 bits. `Store.enforceBlobQuota` is what it
does to the store.
-/

namespace Clipse

structure QuotaReport where
  quotaBytes : UInt64
  bytesBefore : UInt64
  bytesAfter : UInt64
  blobsEvicted : Nat
  bytesEvicted : UInt64
deriving DecidableEq

namespace Store

/-- `SELECT COALESCE(SUM(size), 0)`: a sum beyond 64 signed bits is an error to SQLite. -/
def sumSize (s : Store) : Option UInt64 :=
  if s.blobBytes < 2 ^ 63 then some (UInt64.ofNat s.blobBytes) else none

/-- The loop of `enforce_blob_quota`; `report.bytesAfter` is `bytes_used`. -/
def evictReporting (s : Store) (report : QuotaReport) : List BlobMeta → QuotaReport × Store
  | [] => (report, s)
  | m :: candidates =>
    if report.bytesAfter ≤ s.blobQuotaBytes then (report, s)
    else
      let size := UInt64.ofNat m.size
      (s.dropBlob m.digest).evictReporting
        { report with
          bytesAfter := if report.bytesAfter < size then 0 else report.bytesAfter - size
          blobsEvicted := report.blobsEvicted + 1
          bytesEvicted := report.bytesEvicted + size }
        candidates

/-- `Store::enforce_blob_quota`, unless the database refuses the sum. -/
def enforceBlobQuotaReporting (s : Store) : Option (QuotaReport × Store) :=
  match s.sumSize with
  | none => none
  | some bytesBefore =>
    let report : QuotaReport :=
      { quotaBytes := s.blobQuotaBytes, bytesBefore, bytesAfter := bytesBefore, blobsEvicted := 0,
        bytesEvicted := 0 }
    if s.blobQuotaBytes < bytesBefore then some (s.evictReporting report s.candidates)
    else some (report, s)

end Store
end Clipse
