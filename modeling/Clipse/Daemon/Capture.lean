import Clipse.Clipboard.Watch
import Clipse.Sync.Session

/-!
# Captures (`clipsed/src/capture.rs`)

`store_capture` turns what was copied into a clip: the bytes of large payloads go to the blob store
first, then the row is inserted, then the quota is enforced. The notice to the dial loop and the
status event are not part of the model.
-/

namespace Clipse

namespace SyncContext

/-- `Daemon::clip_source`. -/
def clipSource (ctx : SyncContext) (app : Option String) : ClipSource :=
  { device := ctx.clock.device, deviceLabel := ctx.label, app }

variable [Blake3]

/-- One payload of a capture: above the inline limit it is referred to by its digest. -/
def payloadOf (p : ClipFormat × Bytes) : Payload :=
  if inlineMaxBytes < p.2.length then .blob p.1 (.of p.2) (UInt64.ofNat p.2.length)
  else .new p.1 p.2

/-- The bytes that go to the blob store. -/
def spill (payloads : List (ClipFormat × Bytes)) : List Bytes :=
  (payloads.map (·.2)).filter (inlineMaxBytes < ·.length)

/-- `store_capture`, with the id that is generated for the clip. -/
def storeCapture (ctx : SyncContext) (id : ClipId) (capture : Capture) :
    Except StoreError (InsertOutcome × SyncContext) :=
  let (hlc, ctx) := ctx.now
  let clip := Clip.new id (capture.payloads.map payloadOf) (ctx.clipSource capture.app) hlc
  let store := (spill capture.payloads).foldl (fun s bytes => s.putBlob (.of bytes) bytes) ctx.store
  match store.insert clip with
  | .error e => .error e
  | .ok (outcome, store) =>
    let ctx := { ctx with store := store.enforceBlobQuota }
    match outcome with
    | .inserted _ => .ok (outcome, ctx.emit (.clipAdded clip))
    | .deduplicated id =>
      match ctx.store.get id with
      | some existing => .ok (outcome, ctx.emit (.clipUpdated existing))
      | none => .ok (outcome, ctx)
    | .rejected => .ok (outcome, ctx)

/-- What a capture that was stored did to the store. -/
theorem storeCapture_eq_ok {ctx ctx' : SyncContext} {id : ClipId} {capture : Capture}
    {outcome : InsertOutcome} (h : ctx.storeCapture id capture = .ok (outcome, ctx')) :
    ∃ clip s,
      ((spill capture.payloads).foldl (fun s bytes => s.putBlob (.of bytes) bytes) ctx.store).insert
          clip = .ok (outcome, s) ∧
        ctx'.store = Store.enforceBlobQuota s := by
  unfold storeCapture at h
  simp only at h
  split at h
  · cases h
  next hinsert =>
  split at h
  · cases h
    exact ⟨_, _, hinsert, rfl⟩
  · split at h
    · cases h
      exact ⟨_, _, hinsert, rfl⟩
    · cases h
      exact ⟨_, _, hinsert, rfl⟩
  · cases h
    exact ⟨_, _, hinsert, rfl⟩

end SyncContext
end Clipse
