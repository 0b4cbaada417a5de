import Clipse.Crypto.Session
import Clipse.Lib.Chunks
import Clipse.Sync.Message

/-!
# Messages in frames (`clipse-net/src/framing.rs`)

A message is encoded, prefixed with its length and cut into segments, each of which becomes one
transport message of the session. The encoding is another crate's, so it is the parameter
`MessagePack`.
-/

namespace Clipse

/-- `rmp_serde` on sync messages: decoding undoes encoding. -/
class MessagePack where
  toVec : SyncMessage → Option Bytes
  fromSlice : Bytes → Option SyncMessage
  fromSlice_toVec : ∀ {m body}, toVec m = some body → fromSlice body = some m

/-- `LinkError`. -/
inductive LinkError where
  | closed
  | transport (reason : String)
  | crypto (e : CryptoError)
  | encode
  | decode
  | tooLarge (size max : Nat)
deriving DecidableEq

/-- `SEGMENT_BYTES`. -/
def segmentBytes : Nat := 60000

/-- `MAX_MESSAGE_BYTES`. -/
def maxMessageBytes : Nat := 32 * 1024 * 1024

/-- `u32::to_le_bytes`. -/
def le32 (n : Nat) : Bytes := (List.range 4).map fun i => UInt8.ofNat (n / 256 ^ i % 256)

/-- `u32::from_le_bytes`. -/
def ofLe32 (bytes : Bytes) : Nat := bytes.foldr (fun b n => b.toNat + 256 * n) 0

/-- What is cut into segments: the body behind its length. -/
def prefixed (body : Bytes) : Bytes := le32 body.length ++ body

section
variable [Snow]

/-- Seal segments one after the other. -/
def SecureSession.writeAll (s : SecureSession) :
    List Bytes → Except CryptoError (List Bytes × SecureSession)
  | [] => .ok ([], s)
  | segment :: segments => do
    let (frame, s) ← s.writeMessage segment
    let (frames, s) ← s.writeAll segments
    return (frame :: frames, s)

variable [MessagePack]

/-- `encode`: all frames of a message are sealed before one is written. -/
def encode (session : SecureSession) (message : SyncMessage) :
    Except LinkError (List Bytes × SecureSession) :=
  match MessagePack.toVec message with
  | none => .error .encode
  | some body =>
    if maxMessageBytes < body.length then .error (.tooLarge body.length maxMessageBytes)
    else (session.writeAll ((prefixed body).chunks segmentBytes)).mapError .crypto

/-- `Decoder`: what has arrived of a message. -/
structure Decoder where
  buffer : Bytes

namespace Decoder

/-- `Decoder::expected_len`. -/
def expectedLen (d : Decoder) : Except LinkError (Option Nat) :=
  if d.buffer.length < 4 then .ok none
  else
    let len := ofLe32 (d.buffer.take 4)
    if maxMessageBytes < len then .error (.tooLarge len maxMessageBytes) else .ok (some len)

/-- `Decoder::accept`. -/
def accept (d : Decoder) (session : SecureSession) (frame : Bytes) :
    Except LinkError (Option SyncMessage × Decoder × SecureSession) := do
  let (segment, session) ← (session.readMessage frame).mapError .crypto
  let d : Decoder := { buffer := d.buffer ++ segment }
  match ← d.expectedLen with
  | none => return (none, d, session)
  | some expected =>
    if d.buffer.length < 4 + expected then return (none, d, session)
    else
      match MessagePack.fromSlice ((d.buffer.drop 4).take expected) with
      | none => .error .decode
      -- anything past this message belongs to the next one
      | some message => return (some message, { buffer := d.buffer.drop (4 + expected) }, session)

/-- `Decoder::pending`. -/
def pending (d : Decoder) : Nat := d.buffer.length

end Decoder

end

end Clipse
