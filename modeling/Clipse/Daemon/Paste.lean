import Clipse.Daemon.Apply
import Clipse.Daemon.IpcServer

/-!
# Pasting and previewing (`clipsed/src/daemon.rs`)

The requests for the bytes of one clip: `GetPayload` for a preview, `Apply` to put the clip on the
clipboard, `Paste` to press the shortcut as well. What the clipboard and the keyboard make of it is
an argument (`Outside`).
-/

namespace Clipse

/-- `MAX_PAYLOAD_BYTES`. -/
def maxPayloadBytes : UInt64 := 24 * 1024 * 1024

/-- `ContentHash::to_hex`. -/
def ContentHash.toHex (d : ContentHash) : String :=
  String.ofList (d.bytes.toList.flatMap fun b => DeviceId.hexByte b.toNat)

/-- `read_payload`: the cap is checked before the store is asked. The error names the blob that is
missing. -/
def Store.readPayload (s : Store) (clip : Clip) (format : ClipFormat) :
    Except ContentHash (Option Bytes × Store) :=
  match clip.payloads.find? (·.format = format) with
  | none => .ok (none, s)
  | some p =>
    if maxPayloadBytes < p.size then .ok (none, s)
    else
      match p.inlineBytes with
      | some bytes => .ok (some bytes, s)
      | none =>
        match s.readBlob p.digest with
        | .ok (bytes, s) => .ok (some bytes, s)
        | .error _ => .error p.digest

/-- What becomes of a write to the clipboard, and of the keystroke after it. -/
structure Outside where
  write : Except String Unit
  keystroke : Except String Unit

inductive ClipRequest where
  | getPayload (id : ClipId) (format : ClipFormat)
  | apply (id : ClipId)
  | paste (id : ClipId)
deriving DecidableEq

inductive ClipResponse where
  | ok
  | payloadBytes (bytes : Option Bytes)
  | error (error : IpcError)
deriving DecidableEq

/-- How a request was answered, and what was done for it outside. -/
structure Answered where
  response : ClipResponse
  /-- What the clipboard took. -/
  clipboard : Option (List (ClipFormat × Bytes)) := none
  pressed : Bool := false
  ctx : SyncContext

namespace SyncContext

/-- `Daemon::apply`. -/
def applyClip (ctx : SyncContext) (outside : Outside) (id : ClipId) : Answered :=
  match ctx.apply id with
  | (none, ctx) => { response := .error { code := .notFound, message := "no such clip" }, ctx }
  | (some payloads, ctx) =>
    match outside.write with
    | .ok () => { response := .ok, clipboard := some payloads, ctx }
    | .error e => { response := .error { code := .internal, message := e }, ctx }

/-- `Daemon::handle`, of these requests. -/
def handleClip (ctx : SyncContext) (outside : Outside) : ClipRequest → Answered
  | .getPayload id format =>
    match ctx.store.get id with
    | none => { response := .payloadBytes none, ctx }
    | some clip =>
      match ctx.store.readPayload clip format with
      | .ok (bytes, store) => { response := .payloadBytes bytes, ctx := { ctx with store } }
      | .error digest =>
        let message := "blob " ++ digest.toHex ++ " not found in the blob store"
        { response := .error { code := .internal, message }, ctx }
  | .apply id => ctx.applyClip outside id
  | .paste id =>
    let applied := ctx.applyClip outside id
    if applied.response ≠ .ok then applied
    else
      match outside.keystroke with
      | .ok () => { applied with pressed := true }
      | .error e =>
        -- the content is on the clipboard all the same
        let message := "copied, but the paste keystroke failed: " ++ e
        { applied with response := .error { code := .internal, message } }

end SyncContext
end Clipse
