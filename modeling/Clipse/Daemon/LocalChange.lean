import Clipse.Store.Proof.Calls

/-!
# Pins and deletions by the user (`clipsed/src/daemon.rs`)

`handle` stamps a `SetPinned` or a `Delete` with `clock.now()` and then makes the store call, on
another thread; anything can come between. The clock lives as long as the daemon does. Nothing moves
it but `now`: `observe` has no caller.
-/

namespace Clipse

/-- `Request::SetPinned` and `Request::Delete`. -/
inductive LocalChange where
  | setPinned (id : ClipId) (pinned : Bool)
  | delete (id : ClipId)
deriving DecidableEq

/-- The store call. -/
def LocalChange.write (hlc : Hlc) (now : UInt64) : LocalChange → Store.Write
  | .setPinned id pinned => .setPinned id pinned hlc
  | .delete id => .delete id hlc now

/-- The row is the clip's, and the call stamps it: a tombstone keeps its timestamps. -/
def LocalChange.Hits (r : ClipRow) : LocalChange → Prop
  | .setPinned id _ => r.id = id
  | .delete id => r.id = id ∧ r.deleted = false

/-- A request that has been stamped, with the clock as it was, its reading of the wall clock, and what
the clock had stamped before. -/
structure StampedChange where
  change : LocalChange
  hlc : Hlc
  clock : HlcClock
  physical : UInt64
  stamped : List Hlc

/-- A daemon's store and its clock. -/
structure ClockedStore where
  store : Store
  clock : HlcClock
  /-- The requests between their stamp and their store call, by task. -/
  requests : Nat → Option StampedChange
  /-- What the clock has stamped since the daemon was started. -/
  stamped : List Hlc

inductive ClockedOp where
  /-- The daemon is stopped and started again. -/
  | restart
  /-- A request is stamped. -/
  | stamp (task : Nat) (change : LocalChange) (physical : UInt64)
  /-- Its store call. -/
  | serve (task : Nat) (now : UInt64)
  /-- A capture is stamped, or a session asks for the time. -/
  | now (physical : UInt64)
  /-- A store call of a capture or of a session. -/
  | call (c : Store.Call)

namespace ClockedStore

variable [Blake3]

/-- A daemon that has just been started. -/
def started (store : Store) (device : DeviceId) : ClockedStore where
  store
  clock := .new device
  requests := fun _ => none
  stamped := []

/-- `clock.now()`. -/
def tick (s : ClockedStore) (physical : UInt64) : ClockedStore :=
  { s with
    clock := (s.clock.now physical).2
    stamped := (s.clock.now physical).1 :: s.stamped }

def step (s : ClockedStore) : ClockedOp → ClockedStore
  | .restart => started s.store s.clock.device
  | .stamp task change physical =>
    let request := ⟨change, (s.clock.now physical).1, s.clock, physical, s.stamped⟩
    { s.tick physical with requests := Function.update s.requests task (some request) }
  | .serve task now =>
    match s.requests task with
    | none => s
    | some q =>
      { s with
        store := s.store.write (q.change.write q.hlc now)
        requests := Function.update s.requests task none }
  | .now physical => s.tick physical
  | .call c => { s with store := s.store.call c }

end ClockedStore
end Clipse
