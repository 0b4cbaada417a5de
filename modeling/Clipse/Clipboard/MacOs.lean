import Clipse.Clipboard.Watch

/-!
# The watch thread on macOS (`clipse-clipboard/src/platform/macos.rs`, `watch.rs`)

The pasteboard counts its changes; `poll_loop` compares the count with the last one that it saw and
looks at the pasteboard when they differ. `deliver` puts what it found into a bounded channel, asking
again and again while the channel is full, and gives up when the watcher is being dropped. Everything
but the thread's own steps can happen between any two of them.
-/

namespace Clipse

/-- Where the watch thread is. -/
inductive WatchThread where
  /-- Spawned; `last_change` is not seeded yet. -/
  | starting
  /-- At the top of the loop, asleep. -/
  | sleeping
  /-- The count has changed; the pasteboard is about to be read. -/
  | looking
  /-- In `deliver`. -/
  | delivering (event : CaptureEvent)
  | exited
deriving DecidableEq

/-- One look at the pasteboard: the count that prompted it, what was there, and what became of it. -/
structure Look where
  change : Nat
  poll : RawPoll
  event : CaptureEvent

/-- The watch thread, the pasteboard, the channel and the handle. -/
structure MacWatcher where
  config : WatchConfig
  guard : OwnWriteGuard
  /-- `changeCount` of the pasteboard. -/
  changeCount : Nat
  /-- What a look at the pasteboard finds (`poll_pasteboard`). -/
  contents : RawPoll
  /-- The count that `poll_loop` began with, once it has. -/
  seed : Option Nat
  lastChange : Nat
  thread : WatchThread
  /-- `channel_capacity`. -/
  capacity : Nat
  queue : List CaptureEvent
  /-- The receiver is gone. -/
  closed : Bool
  stopping : Bool
  /-- The drop of the watcher has returned. -/
  joined : Bool
  /-- What the capture loop has taken from the channel. -/
  received : List CaptureEvent
  looks : List Look

inductive WatcherOp where
  /-- An application writes to the pasteboard. -/
  | copy (contents : RawPoll)
  /-- `Clipboard::write` is done and records what it wrote. -/
  | recordWrite (hash : ContentHash) (now : Nat)
  /-- The watch thread takes a step. -/
  | thread (now : Nat)
  /-- The capture loop takes an event. -/
  | receive
  /-- The receiver is dropped. -/
  | close
  /-- The watcher is dropped: the thread is told to stop... -/
  | stop
  /-- ...and joined. -/
  | join

namespace MacWatcher

/-- `start` spawns the thread. -/
def start (config : WatchConfig) (ttl capacity changeCount : Nat) (contents : RawPoll) :
    MacWatcher where
  config
  guard := .new ttl
  changeCount
  contents
  seed := none
  lastChange := 0
  thread := .starting
  capacity
  queue := []
  closed := false
  stopping := false
  joined := false
  received := []
  looks := []

/-- One attempt of `deliver`. -/
def deliver (s : MacWatcher) (event : CaptureEvent) : MacWatcher :=
  if s.stopping then { s with thread := .exited }
  else if s.closed then { s with thread := .exited }
  else if s.queue.length < s.capacity then
    { s with thread := .sleeping, queue := s.queue ++ [event] }
  else s

section
variable [Blake3] [Regex]

/-- The look at the pasteboard. -/
def look (s : MacWatcher) (now : Nat) : MacWatcher :=
  let (event, guard) := classify s.contents s.config s.guard now
  { s with
    guard
    thread := .delivering event
    looks := s.looks ++ [⟨s.lastChange, s.contents, event⟩] }

/-- The next step of `poll_loop`. It begins with the current count: what is on the pasteboard then is
not reported. -/
def pollLoop (s : MacWatcher) (now : Nat) : MacWatcher :=
  match s.thread with
  | .starting =>
    { s with seed := some s.changeCount, lastChange := s.changeCount, thread := .sleeping }
  | .sleeping =>
    if s.stopping then { s with thread := .exited }
    else if s.changeCount = s.lastChange then s
    else { s with lastChange := s.changeCount, thread := .looking }
  | .looking => s.look now
  | .delivering event => s.deliver event
  | .exited => s

def step (s : MacWatcher) : WatcherOp → MacWatcher
  | .copy contents => { s with changeCount := s.changeCount + 1, contents }
  | .recordWrite hash now => { s with guard := s.guard.recordWrite hash now }
  | .thread now => s.pollLoop now
  | .receive =>
    match s.queue with
    | [] => s
    | event :: queue => { s with queue, received := s.received ++ [event] }
  -- A channel whose receiver is dropped drops what it holds.
  | .close => { s with closed := true, queue := [] }
  | .stop => { s with stopping := true }
  | .join => if s.stopping ∧ s.thread = .exited then { s with joined := true } else s

def run (s : MacWatcher) (ops : List WatcherOp) : MacWatcher := ops.foldl step s

end

end MacWatcher
end Clipse
