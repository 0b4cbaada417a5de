import Clipse.Daemon.Saved
import Clipse.Sync.Session

/-!
# A daemon with its sessions (`clipsed/src/daemon.rs`, `peers.rs`, `clipse-net/src/quic.rs`)

`accept_loop` starts a task for every inbound link and `dial_loop` runs its own. A task reads the
trust set once, in its handshake; what it does afterwards is interleaved with everything else, one
message, stream or store call at a time. `forget_device` is one step, the one in which it returns.
-/

namespace Clipse

section
variable [Snow]

/-- A task of the transport. -/
inductive SyncTask where
  /-- `handshake_as_initiator`, waiting for the reply. -/
  | dialling (initiator : HandshakeInitiator)
  /-- `run_session`. -/
  | syncing (session : SecureSession) (proc : Session SyncOutcome)

/-- The device at the other end. -/
def SyncTask.device : SyncTask → DeviceId
  | dialling initiator => initiator.remoteDeviceId
  | syncing session _ => session.remoteDeviceId

/-- A task, and when it read the trust set. -/
structure StartedTask where
  task : SyncTask
  since : Nat

structure SyncingDaemon where
  daemon : Daemon
  ctx : SyncContext
  tasks : Nat → Option StartedTask
  /-- How many steps there have been. -/
  time : Nat
  /-- When a device was forgotten, unless it has been paired again since. -/
  forgotten : DeviceId → Option Nat

end

inductive SyncingOp where
  | request (request : DaemonRequest) (outcome : WriteOutcome)
  /-- `handshake_as_initiator`, up to its first message. -/
  | dial (task : Nat) (peer : DeviceId) (ephemeral : Bytes)
  /-- The reply arrives. -/
  | reply (task : Nat) (response : Bytes)
  /-- `accept_one` reads the first message of a peer. -/
  | accept (task : Nat) (first ephemeral : Bytes)
  /-- A session goes on, with what has arrived for it. -/
  | advance (task : Nat) (messages : List SyncMessage) (streams : List Bytes)
  /-- A task ends, or its link is lost. -/
  | close (task : Nat)
  /-- Any other task has used what the tasks share. -/
  | other (ctx : SyncContext)

namespace SyncingDaemon

section
variable [Snow]

/-- A daemon that has just been started. -/
def started (daemon : Daemon) (ctx : SyncContext) : SyncingDaemon where
  daemon
  ctx
  tasks := fun _ => none
  time := 0
  forgotten := fun _ => none

/-- The task goes on as `next`, or ends. -/
def setTask (s : SyncingDaemon) (task : Nat) (next : Option StartedTask) : SyncingDaemon :=
  { s with tasks := Function.update s.tasks task next }

/-- What a request that is answered leaves of `forgotten`. -/
def noteRequest (s : SyncingDaemon) (ok : Bool) : DaemonRequest → DeviceId → Option Nat
  | .commitPairing peer => Function.update s.forgotten peer.deviceId none
  | .forgetDevice device =>
    if ok then Function.update s.forgotten device (some s.time) else s.forgotten
  | .updateSettings _ => s.forgotten

/-- The dialler's side of the trust check: `dial` has asked `is_paired` before it connected, and
`start` looks the device up again. -/
def dial (s : SyncingDaemon) (task : Nat) (peer : DeviceId) (ephemeral : Bytes) : SyncingDaemon :=
  match s.daemon.peers with
  | none => s
  | some manager =>
    match HandshakeInitiator.start manager.identity manager.trust peer ephemeral with
    | .error _ => s
    | .ok (initiator, _) => s.setTask task (some ⟨.dialling initiator, s.time⟩)

section
variable [Blake3]

/-- The dialler's session. -/
def reply (s : SyncingDaemon) (task : Nat) (response : Bytes) : SyncingDaemon :=
  match s.tasks task with
  | some ⟨.dialling initiator, since⟩ =>
    match initiator.finish response with
    | .error _ => s.setTask task none
    | .ok session =>
      let proc := Session.run session.remoteDeviceId session.epoch .dialler
      s.setTask task (some ⟨.syncing session proc, since⟩)
  | _ => s

/-- The responder's session: its handshake is over before it gives the trust set back. -/
def accept (s : SyncingDaemon) (task : Nat) (first ephemeral : Bytes) : SyncingDaemon :=
  match s.daemon.peers with
  | none => s
  | some manager =>
    let accepted := do
      let responder ← HandshakeResponder.accept manager.identity manager.trust first ephemeral
      responder.respond
    match accepted with
    | .error _ => s
    | .ok (session, _) =>
      let proc := Session.run session.remoteDeviceId session.epoch .responder
      s.setTask task (some ⟨.syncing session proc, s.time⟩)

end

/-- The next step of a session, if it does not have to wait. -/
def advance (s : SyncingDaemon) (task : Nat) (messages : List SyncMessage) (streams : List Bytes) :
    SyncingDaemon :=
  match s.tasks task with
  | some ⟨.syncing session proc, since⟩ =>
    let here : Duplex.End syncWire SyncOutcome :=
      { proc, state := s.ctx, inbox := messages, streams }
    match here.next with
    | none => s
    | some (next, _, _) =>
      { s.setTask task (some ⟨.syncing session next.proc, since⟩) with ctx := next.state }
  | _ => s

variable [Blake3] [SavedFormats]

/-- What an operation does, apart from the time that it takes. -/
def act (s : SyncingDaemon) : SyncingOp → SyncingDaemon
  | .request request outcome =>
    { s with
      daemon := (s.daemon.handle outcome request).2
      forgotten := s.noteRequest (s.daemon.handle outcome request).1 request }
  | .dial task peer ephemeral => s.dial task peer ephemeral
  | .reply task response => s.reply task response
  | .accept task first ephemeral => s.accept task first ephemeral
  | .advance task messages streams => s.advance task messages streams
  | .close task => s.setTask task none
  | .other ctx => { s with ctx }

def step (s : SyncingDaemon) (op : SyncingOp) : SyncingDaemon :=
  { s.act op with time := s.time + 1 }

end

end SyncingDaemon
end Clipse
