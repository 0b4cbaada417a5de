import Clipse.Daemon.IpcServer
import Clipse.Ipc.Codec

/-!
# A client and its connection (`clipse-ipc/src/client.rs`)

The client, the stream to the daemon and the daemon's `serve_connection` together. The client makes
one call at a time (`state.rs` of the app keeps it behind a mutex) and reads one frame after the
other; the daemon's end takes its own steps in between, and events can come at any time.

The payloads of requests, responses and events are arbitrary types.
-/

namespace Clipse
namespace Ipc

/-- `IPC_VERSION`. -/
def ipcVersion : UInt16 := 3

/-- `Request`, but for `Subscribe`. -/
inductive Request (Q : Type) where
  | hello (client : String) (ipcVersion : UInt16)
  | other (request : Q)
deriving DecidableEq

/-- `Response`. -/
inductive Response (R : Type) where
  | hello (daemonVersion : String) (ipcVersion : UInt16) (device : DeviceId)
  | ok
  | error (e : IpcError)
  | other (response : R)
deriving DecidableEq

/-- `ClientError`, of a client that has its stream. -/
inductive ClientError where
  | frame (e : FrameError)
  | daemon (e : IpcError)
  | versionMismatch (daemon client : UInt16)
  | unexpectedResponse (expected : String)
deriving DecidableEq

section
variable {Q R E : Type}

/-- `next_id` after a call. -/
def bump (id : UInt64) : UInt64 := max (id + 1) 1

/-- What `call` returns for a frame that it reads; `none` when it reads on. -/
def accept (id : UInt64) (frame : Frame (Request Q) (Response R) E) :
    Option (Except ClientError (Response R)) :=
  match frame.body with
  | .response (.error e) => some (.error (.daemon e))
  | .response response =>
    if frame.id = id then some (.ok response)
    else some (.error (.daemon ⟨.internal, "response id did not match the request"⟩))
  -- an event between a request and its response
  | .event _ => none
  | .request _ => some (.error (.daemon ⟨.badRequest, "daemon sent a request"⟩))

/-- `Client::connect`, of what its `call` has returned. -/
def checkHello : Except ClientError (Response R) → Except ClientError Unit
  | .ok (.hello _ version _) =>
    if version = ipcVersion then .ok () else .error (.versionMismatch version ipcVersion)
  | .ok _ => .error (.unexpectedResponse "Hello")
  | .error e => .error e

/-- `Client::subscribe`, of what its `call` has returned. -/
def checkSubscribe : Except ClientError (Response R) → Except ClientError Unit
  | .ok .ok => .ok ()
  | .ok _ => .error (.unexpectedResponse "Subscribe")
  | .error e => .error e

end

/-! ## The two ends -/

/-- Who has made the call. -/
inductive Caller where
  | connect
  | user
  | subscribe
deriving DecidableEq

/-- Where the client is. -/
inductive ClientPhase (Q : Type) where
  | idle
  /-- In `call`, of the request with the id. -/
  | waiting (id : UInt64) (request : IpcRequest (Request Q)) (caller : Caller)
  /-- It is an `EventStream`. -/
  | streaming
  /-- `connect` or `subscribe` has failed, or `next` has: the stream is dropped. -/
  | dropped
deriving DecidableEq

structure IpcLink (Q R E : Type) [Broadcast E] where
  nextId : UInt64
  phase : ClientPhase Q
  /-- What the client has written and the daemon has not read. -/
  sent : List (Frame (Request Q) (Response R) E)
  daemon : IpcConnection (Request Q) (Response R) E
  /-- How many of the frames that the daemon has written the client has read. -/
  read : Nat
  /-- What the calls have returned. -/
  returned : List (IpcRequest (Request Q) × Except ClientError (Response R))
  /-- What `EventStream::next` has returned. -/
  nexted : List E
  /-- The request in `handle`, and those that it has returned from. -/
  asked : Option (IpcRequest (Request Q))
  handled : List (IpcRequest (Request Q) × Response R)

inductive LinkOp (Q R E : Type) where
  /-- `Client::call`. -/
  | call (request : IpcRequest (Request Q))
  /-- A call that ends in `write_frame` already. -/
  | unsent (request : IpcRequest (Request Q)) (e : FrameError)
  /-- `Client::subscribe`. -/
  | subscribe
  /-- The client's `read_frame` has a frame. -/
  | receive
  /-- It is at the end of the stream. -/
  | closed
  /-- The daemon's reader task reads the next frame. -/
  | deliver
  /-- Any other step of the daemon. -/
  | daemon (op : ConnectionOp (Request Q) (Response R) E)

namespace IpcLink

open Broadcast (Channel)

variable {Q R E : Type} [Broadcast E]

/-- What the client has not read yet. -/
def unread (s : IpcLink Q R E) : List (Frame (Request Q) (Response R) E) :=
  s.daemon.written.drop s.read

/-- `serve_connection` has returned: the client will read to the end of the stream and no further. -/
def daemonGone (s : IpcLink Q R E) : Bool :=
  match s.daemon.phase with
  | .ended => true
  | _ => false

/-- Write a request and wait. -/
def write (s : IpcLink Q R E) (request : IpcRequest (Request Q)) (caller : Caller) :
    IpcLink Q R E :=
  { s with
    nextId := bump s.nextId
    phase := .waiting s.nextId request caller
    sent := s.sent ++ [⟨s.nextId, .request request⟩] }

/-- `Client::connect`, which begins with a call, on a connection that has just been accepted. -/
def connect (name : String) (channel : Channel E) : IpcLink Q R E :=
  write
    { nextId := 1, phase := .idle, sent := [], daemon := .accepted channel, read := 0,
      returned := [], nexted := [], asked := none, handled := [] }
    (.other (.hello name ipcVersion)) .connect

/-- Where the client goes on when a call has returned. -/
def resume (result : Except ClientError (Response R)) : Caller → ClientPhase Q
  | .user => .idle
  | .connect =>
    match checkHello result with
    | .ok () => .idle
    | .error _ => .dropped
  | .subscribe =>
    match checkSubscribe result with
    | .ok () => .streaming
    | .error _ => .dropped

/-- The call returns. -/
def finish (s : IpcLink Q R E) (request : IpcRequest (Request Q)) (caller : Caller)
    (result : Except ClientError (Response R)) : IpcLink Q R E :=
  { s with phase := resume result caller, returned := s.returned ++ [(request, result)] }

/-- The client has read a frame. -/
def take (s : IpcLink Q R E) (frame : Frame (Request Q) (Response R) E) : IpcLink Q R E :=
  match s.phase with
  | .waiting id request caller =>
    match accept id frame with
    | none => { s with read := s.read + 1 }
    | some result => { s with read := s.read + 1 }.finish request caller result
  | .streaming =>
    match frame.event? with
    | some event => { s with read := s.read + 1, nexted := s.nexted ++ [event] }
    -- a late response
    | none => { s with read := s.read + 1 }
  | _ => s

/-- The daemon's loop takes a request. -/
def daemonTakes (s : IpcLink Q R E) : Option (IpcRequest (Request Q)) :=
  match s.daemon.phase, s.daemon.requests with
  | .select, ⟨_, .request request⟩ :: _ => some request
  | _, _ => s.asked

/-- The daemon's `handle` returns. -/
def daemonAnswers (s : IpcLink Q R E) (response : Response R) :
    List (IpcRequest (Request Q) × Response R) :=
  match s.daemon.phase with
  | .handling _ => s.handled ++ (s.asked.map (·, response)).toList
  | _ => s.handled

/-- The daemon's end has gone on. -/
def withDaemon (s : IpcLink Q R E) (daemon : IpcConnection (Request Q) (Response R) E) :
    IpcLink Q R E :=
  { s with daemon }

/-- What cannot happen where the two are changes nothing. -/
def step (s : IpcLink Q R E) : LinkOp Q R E → IpcLink Q R E
  | .call request =>
    match s.phase with
    | .idle => s.write request .user
    | _ => s
  | .unsent request e =>
    match s.phase with
    | .idle =>
      { s with nextId := bump s.nextId, returned := s.returned ++ [(request, .error (.frame e))] }
    | _ => s
  | .subscribe =>
    match s.phase with
    | .idle => s.write .subscribe .subscribe
    | _ => s
  | .receive =>
    match s.unread with
    | frame :: _ => s.take frame
    | [] => s
  | .closed =>
    if s.daemonGone = true ∧ s.unread = [] then
      match s.phase with
      | .waiting _ request caller => s.finish request caller (.error (.frame .closed))
      | .streaming => { s with phase := .dropped }
      | _ => s
    else s
  | .deliver =>
    match s.sent with
    | frame :: sent =>
      if s.daemon.reading = true ∧ s.daemon.requests.length < 16 then
        { s with sent }.withDaemon (s.daemon.step (.read frame))
      else s
    | [] => s
  | .daemon op =>
    match op with
    | .read _ => s
    | .request => { s with asked := s.daemonTakes }.withDaemon (s.daemon.step .request)
    | .respond response =>
      { s with handled := s.daemonAnswers response }.withDaemon (s.daemon.step (.respond response))
    | op => s.withDaemon (s.daemon.step op)

/-- The calls that have returned an answer of the daemon, or an error that claims to be one. -/
def answers (s : IpcLink Q R E) : List (IpcRequest (Request Q) × Response R) :=
  s.returned.filterMap fun c =>
    match c.2 with
    | .ok response => some (c.1, response)
    | .error (.daemon e) => some (c.1, .error e)
    | .error _ => none

end IpcLink
end Ipc
end Clipse
