import Clipse.Daemon.Capture

/-!
# Putting a clip on the clipboard (`clipsed/src/daemon.rs`, `capture.rs`)

`apply_incoming` writes the newest clip of a session to the clipboard; the capture loop (`run`)
stores what the watcher reports.
-/

namespace Clipse

/-- `materialize`: the bytes of each payload; one whose blob is missing is left out. -/
def Store.materialize (s : Store) : List Payload → List (ClipFormat × Bytes) × Store
  | [] => ([], s)
  | p :: payloads =>
    match p.inlineBytes with
    | some bytes =>
      let (out, s) := s.materialize payloads
      ((p.format, bytes) :: out, s)
    | none =>
      match s.readBlob p.digest with
      | .ok (bytes, s) =>
        let (out, s) := s.materialize payloads
        ((p.format, bytes) :: out, s)
      | .error _ => s.materialize payloads

namespace SyncContext

/-- `Daemon::apply` up to the write: what is to be written, if there is such a clip. -/
def apply (ctx : SyncContext) (id : ClipId) :
    Option (List (ClipFormat × Bytes)) × SyncContext :=
  match ctx.store.get id with
  | none => (none, ctx)
  | some clip =>
    let (payloads, store) := ctx.store.materialize clip.payloads
    (some payloads, { ctx with store })

/-- `apply_incoming`, under the settings `paused` and `apply_incoming_to_clipboard`. -/
def applyIncoming (ctx : SyncContext) (paused applyIncomingToClipboard : Bool) (id : ClipId) :
    Option (List (ClipFormat × Bytes)) × SyncContext :=
  if paused || !applyIncomingToClipboard then (none, ctx) else ctx.apply id

/-- One event in the loop of `run`, with the id that a clip would be given. -/
def onCaptureEvent [Blake3] (ctx : SyncContext) (paused : Bool) (id : ClipId) :
    CaptureEvent → Except StoreError SyncContext
  | .suppressed _ => .ok ctx
  | .captured capture => if paused then .ok ctx else (ctx.storeCapture id capture).map (·.2)

end SyncContext
end Clipse
