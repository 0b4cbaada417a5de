import Clipse.Core.Hlc
import Clipse.Core.Hash
import Clipse.Lib.Table

/-!
# The loop guard (`clipse-sync/src/loop_guard.rs`)

Remembers which content arrived from a peer, so that the clipboard's echo of it is not broadcast
back. The map from hashes to entries is a table with the hash as key; where entries are equally
old, the map's own order decides which half survives the cap, here the order of the table.
-/

namespace Clipse

structure GuardEntry where
  hash : ContentHash
  origin : DeviceId
  atMs : UInt64
deriving DecidableEq

/-- `MAX_ENTRIES`. -/
def maxEntries : Nat := 4096

structure LoopGuard where
  windowMs : UInt64
  seen : Table GuardEntry.hash

/-- `RebroadcastVerdict`. -/
inductive RebroadcastVerdict where
  | send
  | suppressOrigin
  | suppressEcho
deriving DecidableEq

namespace LoopGuard

/-- `LoopGuard::new`. -/
def new (windowMs : UInt64) : LoopGuard := { windowMs, seen := .empty }

/-- `LoopGuard::default`, with `DEFAULT_ECHO_WINDOW`. -/
def default_ : LoopGuard := { windowMs := 30000, seen := .empty }

/-- `u64::saturating_sub`. -/
def saturatingSub (a b : UInt64) : UInt64 := if a < b then 0 else a - b

/-- `LoopGuard::prune`. -/
def prune (g : LoopGuard) (now : UInt64) : LoopGuard :=
  let seen := g.seen.erase (fun e => g.windowMs < saturatingSub now e.atMs)
  if maxEntries ≤ seen.rows.length then
    -- the newest half is kept: an empty guard would let an echo through
    let byAge := seen.rows.insertionSort (fun a b => b.atMs ≤ a.atMs)
    let keep := (byAge.take (maxEntries / 2)).map (·.hash)
    { g with seen := seen.erase (·.hash ∉ keep) }
  else { g with seen }

/-- `LoopGuard::record_received`. -/
def recordReceived (g : LoopGuard) (hash : ContentHash) (origin : DeviceId) (now : UInt64) :
    LoopGuard :=
  let g := g.prune now
  let others := g.seen.erase (·.hash = hash)
  { g with seen := (others.insert? ⟨hash, origin, now⟩).getD others }

/-- `LoopGuard::verdict`. -/
def verdict (g : LoopGuard) (hash : ContentHash) (peer : DeviceId) (now : UInt64) :
    RebroadcastVerdict :=
  match g.seen.find? hash with
  | none => .send
  | some entry =>
    if g.windowMs < saturatingSub now entry.atMs then .send
    else if entry.origin = peer then .suppressOrigin
    else .suppressEcho

end LoopGuard
end Clipse
