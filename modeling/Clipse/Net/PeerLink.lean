import Clipse.Net.Framing
import Clipse.Sync.Session

/-!
# Sessions over a link (`clipse-net/src/quic.rs`)

`onWire` puts the program of an end on its `PeerLink`: a message goes out as its frames, a blob as
the frames of a stream of its own, and both ways through the one Noise session of the link.
-/

namespace Clipse

/-- `MAX_FRAME_BYTES`. -/
def maxFrameBytes : Nat := 65535

/-- The segments of a blob: `bytes.chunks(48_000)`. -/
def blobSegmentBytes : Nat := 48000

section
variable [Snow]

/-- `PeerLink`: what one task drives a connection with. -/
structure PeerLink where
  session : SecureSession
  decoder : Decoder

namespace PeerLink

/-- The link of a session that has just been established. -/
def new (session : SecureSession) : PeerLink := { session, decoder := { buffer := [] } }

/-- `read_frame`: the length in front of a frame is checked before its bytes are read. -/
def readFrame (frame : Bytes) : Except LinkError Bytes :=
  if maxFrameBytes < frame.length then .error (.tooLarge frame.length maxFrameBytes) else .ok frame

/-- The sealing half of `PeerLink::send_blob`. -/
def sealBlob (link : PeerLink) (bytes : Bytes) : Except LinkError (List Bytes × PeerLink) := do
  let (frames, session) ←
    (link.session.writeAll (bytes.chunks blobSegmentBytes)).mapError LinkError.crypto
  return (frames, { link with session })

/-- `PeerLink::recv_blob`, on the frames of the stream up to its end. -/
def recvBlob (link : PeerLink) : List Bytes → Except LinkError (Bytes × PeerLink)
  | [] => .ok ([], link)
  | frame :: frames => do
    let frame ← readFrame frame
    let (segment, session) ← (link.session.readMessage frame).mapError LinkError.crypto
    let (bytes, link) ← recvBlob { link with session } frames
    return (segment ++ bytes, link)

variable [MessagePack]

/-- The frames that `PeerLink::send` writes. -/
def sealMessage (link : PeerLink) (message : SyncMessage) :
    Except LinkError (List Bytes × PeerLink) := do
  let (frames, session) ← encode link.session message
  return (frames, { link with session })

/-- One round of the loop of `PeerLink::recv`. -/
def accept (link : PeerLink) (frame : Bytes) :
    Except LinkError (Option SyncMessage × PeerLink) := do
  let frame ← readFrame frame
  let (message, decoder, session) ← link.decoder.accept link.session frame
  return (message, { session, decoder })

end PeerLink

/-- How a session over a link fails: `SyncError::Link` or one of the others. -/
inductive LinkFailure where
  | link (e : LinkError)
  | session (e : SyncError)
deriving DecidableEq

/-- The wire under a session: frames on the control stream, and streams of frames. A receiving
loop accumulates in the link and in the list of the program that runs on it. -/
abbrev linkWire : Wire where
  Msg := Bytes
  Stream := List Bytes
  State := SyncContext
  Acc := PeerLink × List ClipSummary
  Err := LinkFailure
  Call := SyncCall

section
variable {α : Type}

/-- Write frames to the control stream. -/
def writeFrames (frames : List Bytes) (k : Proc linkWire α) : Proc linkWire α :=
  frames.foldr .send k

variable [MessagePack]

/-- Read frames until they make a message, and go on while `more` extends the accumulator. -/
def recvLoop (more : List ClipSummary → SyncMessage → Option (List ClipSummary))
    (k : List ClipSummary → SyncMessage → PeerLink → Proc linkWire α) (acc : List ClipSummary)
    (link : PeerLink) : Proc linkWire α :=
  .gather (link, acc)
    (fun (link, acc) frame =>
      match link.accept frame with
      | .ok (none, link) => some (link, acc)
      | .ok (some message, link) => (more acc message).map fun acc => (link, acc)
      | .error _ => none)
    fun (link, acc) frame =>
      match link.accept frame with
      | .ok (some message, link) => k acc message link
      | .error e => .fail (.link e)
      -- the loop goes on as long as the message is not complete
      | .ok (none, _) => .fail (.link .closed)

/-- An error of the link ends the session. -/
def ofLink {β : Type} (r : Except LinkError β) (k : β → Proc linkWire α) : Proc linkWire α :=
  match r with
  | .ok b => k b
  | .error e => .fail (.link e)

/-- The program of an end on its link. Each end's link is its own: other tasks do not see it. -/
def onWire : Session α → PeerLink → Proc linkWire α
  | .done a, _ => .done a
  | .fail e, _ => .fail (.session e)
  | .send message k, link =>
    ofLink (link.sealMessage message) fun (frames, link) => writeFrames frames (onWire k link)
  -- the frames of a blob are written as they are sealed; its stream counts once it is finished
  | .sendStream bytes k, link =>
    ofLink (link.sealBlob bytes) fun (frames, link) => .sendStream frames (onWire k link)
  | .recv k, link => recvLoop (fun _ _ => none) (fun _ message => onWire (k message)) [] link
  | .gather acc more k, link => recvLoop more (fun acc message => onWire (k acc message)) acc link
  | .recvStream k, link =>
    .recvStream fun frames =>
      ofLink (link.recvBlob frames) fun (bytes, link) => onWire (k bytes) link
  | .call name f k, link => .call name f fun ctx => onWire (k ctx) link

end

end

end Clipse
