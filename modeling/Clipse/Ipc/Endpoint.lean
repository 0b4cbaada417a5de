import Mathlib.Data.List.Basic

/-!
# One daemon for a data directory (`clipse-ipc/src/transport.rs`, unix)

`Listener::bind` finds out whether the socket file belongs to a daemon that lives by connecting to it,
removes it if not, and binds its own. Between these calls other processes can do the same, exit or be
killed. A process is a number; the socket file is the number of the process that has bound it.
-/

namespace Clipse
namespace Ipc

/-- How far the process is with `Listener::bind`. -/
inductive BindPhase where
  | idle
  /-- `path.exists()`. -/
  | found
  /-- Nobody has answered; the file is to be removed. -/
  | stale
  /-- There is no file any more; the socket is to be bound. -/
  | clear
  | listening
  /-- `AlreadyRunning`, an I/O error, or the end of a daemon. -/
  | ended
deriving DecidableEq

/-- The socket file, and the processes. -/
structure Endpoint where
  socket : Option Nat
  phase : Nat → BindPhase
  /-- The daemons that accept connections. -/
  listening : List Nat
  /-- How often the file of a daemon that lives was removed by another process. -/
  displaced : Nat

inductive EndpointOp where
  /-- `path.exists()`. -/
  | look (p : Nat)
  /-- `UnixStream::connect`. -/
  | connect (p : Nat)
  /-- `remove_file`. -/
  | remove (p : Nat)
  /-- `UnixListener::bind`. -/
  | bind (p : Nat)
  /-- The listener is dropped, which removes the file. -/
  | drop (p : Nat)
  | kill (p : Nat)

namespace Endpoint

def move (s : Endpoint) (p : Nat) (phase : BindPhase) : Endpoint :=
  { s with phase := Function.update s.phase p phase }

def step (s : Endpoint) : EndpointOp → Endpoint
  | .look p =>
    if s.phase p = .idle then s.move p (if s.socket.isSome then .found else .clear) else s
  | .connect p =>
    if s.phase p = .found then
      match s.socket with
      | some q => s.move p (if q ∈ s.listening then .ended else .stale)
      | none => s.move p .stale
    else s
  | .remove p =>
    if s.phase p = .stale then
      match s.socket with
      | none => s.move p .ended
      | some q =>
        { s.move p .clear with
          socket := none
          displaced := s.displaced + if q ∈ s.listening then 1 else 0 }
    else s
  | .bind p =>
    if s.phase p = .clear then
      match s.socket with
      | some _ => s.move p .ended
      | none => { s.move p .listening with socket := some p, listening := p :: s.listening }
    else s
  | .drop p =>
    if s.phase p = .listening then
      { s.move p .ended with socket := none, listening := s.listening.erase p }
    else s
  | .kill p => { s.move p .ended with listening := s.listening.erase p }

def run (s : Endpoint) (ops : List EndpointOp) : Endpoint := ops.foldl step s

/-- No process has started yet. A socket file may be left over from before. -/
def initial (socket : Option Nat) : Endpoint :=
  { socket, phase := fun _ => .idle, listening := [], displaced := 0 }

/-- A start, an exit or a kill, one after the other. -/
inductive Whole where
  | start (p : Nat)
  | drop (p : Nat)
  | kill (p : Nat)

/-- `Listener::bind` in one go. -/
def Whole.ops : Whole → List EndpointOp
  | .start p => [.look p, .connect p, .remove p, .bind p]
  | .drop p => [.drop p]
  | .kill p => [.kill p]

end Endpoint
end Ipc
end Clipse
