import Clipse.Lib.Broadcast

/-!
# A connection of the IPC server (`clipsed/src/ipc_server.rs`)

`serve_connection` in steps. The rest of the daemon emits events at any time; the reader task hands
over the client's frames; and the loop takes one frame or one event, and writes one frame, after the
other. How long the handler and the client take is a matter of what happens before `respond` and
`flushed`.

Requests, responses and events are arbitrary types here, except that `Subscribe` is one of the
requests. `tokio::sync::broadcast` is the parameter `Broadcast`.
-/

namespace Clipse

open Broadcast (Channel Receiver)

/-- `EVENT_BUFFER`. -/
def eventBuffer : Nat := 256

/-- `ErrorCode`. -/
inductive ErrorCode where
  | versionMismatch
  | notFound
  | badRequest
  | unsupported
  | internal
deriving DecidableEq

/-- `IpcError`. -/
structure IpcError where
  code : ErrorCode
  message : String
deriving DecidableEq

/-- `Request`. -/
inductive IpcRequest (Q : Type) where
  | subscribe
  | other (request : Q)
deriving DecidableEq

inductive FrameBody (Q R E : Type) where
  | request (request : IpcRequest Q)
  | response (response : R)
  | event (event : E)
deriving DecidableEq

structure Frame (Q R E : Type) where
  id : UInt64
  body : FrameBody Q R E
deriving DecidableEq

namespace Frame

variable {Q R E : Type}

/-- `Frame::response`. -/
def response (id : UInt64) (response : R) : Frame Q R E := ⟨id, .response response⟩

/-- `Frame::event`. -/
def event (event : E) : Frame Q R E := ⟨0, .event event⟩

def event? (frame : Frame Q R E) : Option E :=
  match frame.body with
  | .event event => some event
  | _ => none

end Frame

/-- Where `serve_connection` is. -/
inductive ConnectionPhase (Q R E : Type) where
  /-- At the `select!`. -/
  | select
  /-- In `handle`, of the request with the id. -/
  | handling (id : UInt64)
  /-- In `write_frame`. -/
  | writing (frame : Frame Q R E)
  /-- It has returned. -/
  | ended

structure IpcConnection (Q R E : Type) [Broadcast E] where
  /-- The server's channel, and the connection's end of it. -/
  channel : Channel E
  events : Receiver E
  /-- `req_rx`, and whether the reader task still runs. -/
  requests : List (Frame Q R E)
  reading : Bool
  subscribed : Bool
  phase : ConnectionPhase Q R E
  /-- What has been written to the client. -/
  written : List (Frame Q R E)
  /-- What has been emitted since the connection was accepted. -/
  emitted : List E

inductive ConnectionOp (Q R E : Type) where
  | emit (event : E)
  /-- The reader task has read a frame and hands it over. -/
  | read (frame : Frame Q R E)
  /-- The reader task returns. -/
  | hangUp
  /-- The loop takes what the reader task has handed over. -/
  | request
  /-- `handle` returns. -/
  | respond (response : R)
  /-- The loop takes what `events.recv()` has. -/
  | event
  /-- `write_frame` succeeds. -/
  | flushed
  /-- `write_frame` fails. -/
  | broken

namespace IpcConnection

variable {Q R E : Type} [Broadcast E]

/-- `serve` has accepted a connection. -/
def accepted (channel : Channel E) : IpcConnection Q R E where
  channel
  events := Broadcast.subscribe channel
  requests := []
  reading := true
  subscribed := false
  phase := .select
  written := []
  emitted := []

/-- The channel of `IpcServer::new`, after these events. -/
def channelAfter (events : List E) : Channel E :=
  events.foldl Broadcast.send (Broadcast.channel eventBuffer)

/-- The first branch of the `select!`, with the frame that was received. -/
def takeFrame (s : IpcConnection Q R E) (frame : Frame Q R E) : IpcConnection Q R E :=
  match frame.body with
  | .request .subscribe => { s with subscribed := true, phase := .handling frame.id }
  | .request (.other _) => { s with phase := .handling frame.id }
  | _ => s

/-- The second branch. -/
def takeEvent (s : IpcConnection Q R E) : IpcConnection Q R E :=
  match Broadcast.recv s.channel s.events with
  | (.ok event, events) => { s with events, phase := .writing (.event event) }
  -- A warning in the daemon's log.
  | (.lagged _, events) => { s with events }
  | (.pending, events) => { s with events }
  | (.closed, events) => { s with events, phase := .ended }

/-- What cannot happen where the connection is changes nothing. -/
def step (s : IpcConnection Q R E) : ConnectionOp Q R E → IpcConnection Q R E
  | .emit event =>
    { s with channel := Broadcast.send s.channel event, emitted := s.emitted ++ [event] }
  | .read frame =>
    if s.reading = true ∧ s.requests.length < 16 then { s with requests := s.requests ++ [frame] }
    else s
  | .hangUp => { s with reading := false }
  | .request =>
    match s.phase, s.requests with
    | .select, frame :: requests => { s with requests }.takeFrame frame
    | .select, [] => if s.reading = true then s else { s with phase := .ended }
    | _, _ => s
  | .respond response =>
    match s.phase with
    | .handling id => { s with phase := .writing (.response id response) }
    | _ => s
  | .event =>
    match s.phase with
    | .select => if s.subscribed = true then s.takeEvent else s
    | _ => s
  | .flushed =>
    match s.phase with
    | .writing frame => { s with phase := .select, written := s.written ++ [frame] }
    | _ => s
  | .broken =>
    match s.phase with
    | .writing _ => { s with phase := .ended }
    | _ => s

/-- The events that the client has been sent. -/
def delivered (s : IpcConnection Q R E) : List E := s.written.filterMap Frame.event?

/-- The event that is being written. -/
def inFlight (s : IpcConnection Q R E) : List E :=
  match s.phase with
  | .writing frame => frame.event?.toList
  | _ => []

end IpcConnection
end Clipse
