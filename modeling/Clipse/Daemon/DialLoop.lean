import Clipse.Daemon.Peers

/-!
# The dial loop (`clipsed/src/peers.rs`)

`dial_loop`, with the `sync_all` and the `sync_one` that it calls, as the steps of one task. The
table is not held while a device is dialled, so a session that a peer opened, pairing and forgetting
can come between any two steps. Time is what `sleep` measures, in milliseconds; how a dial ends is in
the operation.
-/

namespace Clipse

/-- `DIAL_TICK` in milliseconds. -/
def dialTick : Nat := 30000

/-- What `dial`, and `run_session` where there is a link, returned to `sync_one`. -/
inductive Dialled where
  | synced (addr : SocketAddr) (reachability : Reachability) (now now' : UInt64)
  /-- The session did not complete. -/
  | broken
  | failed (e : DialError)

/-- Why a pass is made. -/
inductive Trigger where
  | nudge
  | tick
deriving DecidableEq

/-- Where `dial_loop` is. -/
inductive Phase where
  /-- Before its first pass. -/
  | starting
  /-- In `select!`, since that time. -/
  | waiting (since : Nat)
  /-- On the way to the list of the devices that are due. -/
  | called (trigger : Trigger)
  /-- In a pass that has these devices before it. -/
  | pass (trigger : Trigger) (due : List DeviceId)
  /-- `sync_one` is dialling `peer`. -/
  | dialling (trigger : Trigger) (peer : DeviceId) (due : List DeviceId)

/-- `PeerManager` and its `dial_loop`. -/
structure DialLoop where
  manager : PeerManager
  phase : Phase
  /-- `Notify` holds a permit. -/
  nudged : Bool
  clock : Nat

inductive DialOp where
  /-- `nudge`. -/
  | nudge
  /-- `notified` is the branch of `select!`. -/
  | notified
  /-- The sleep is the branch, or the loop starts: the sweep has reported this. -/
  | tick (events : List DiscoveryEvent) (now : UInt64)
  /-- `sync_all` has collected the devices that are due. -/
  | begin (due : List DeviceId)
  /-- `sync_one` looks the next device up. -/
  | turn
  /-- `sync_one` records how the dial ended. -/
  | ended (outcome : Dialled)
  /-- `sync_all` returns. -/
  | rest
  /-- A session that a peer opened has completed. -/
  | inbound (peer : DeviceId) (addr : SocketAddr) (reachability : Reachability) (now now' : UInt64)
  /-- `reload_from_trust`. -/
  | reload
  /-- Pairing or forgetting changes the trust set, before the reload. -/
  | trust (op : TrustOp)

/-- The second half of `sync_one`. -/
def PeerManager.dialEnded (m : PeerManager) (peer : DeviceId) : Dialled → PeerManager
  | .synced addr reachability now now' => m.noteSuccess peer addr reachability now now'
  | .broken => m
  | .failed e => m.update peer (·.noteFailure e)

section
variable [Snow]

/-- What the network, and the session, return to `sync_one`. -/
def Dialler.outcome (d : Dialler) (hosts : SocketAddr → Host) (peer : DeviceId)
    (candidates : CandidateList) (completed : Option (UInt64 × UInt64)) : Dialled :=
  match d.dial hosts peer candidates with
  | .ok (info, _) =>
    match completed with
    | some (now, now') => .synced info.addr info.reachability now now'
    | none => .broken
  | .error e => .failed e

/-- `sync_one` with nothing between its halves. -/
theorem PeerManager.syncOne_eq {m : PeerManager} {peer : DeviceId} {state : PeerState}
    (hs : m.peers peer = some state) (hr : state.refused = none) (hosts : SocketAddr → Host)
    (ephemeral : Bytes) (completed : Option (UInt64 × UInt64)) :
    m.syncOne peer hosts ephemeral completed = m.dialEnded peer
      (Dialler.outcome ⟨m.identity, m.trust, ephemeral⟩ hosts peer state.candidates completed) := by
  have hsome : state.refused.isSome = false := by rw [hr]; rfl
  unfold PeerManager.syncOne Dialler.outcome
  simp only [hs, hsome, Bool.false_eq_true, if_false]
  cases Dialler.dial ⟨m.identity, m.trust, ephemeral⟩ hosts peer state.candidates with
  | error e => rfl
  | ok link => cases completed <;> rfl

end

namespace DialLoop

/-- One step of the loop, or of what runs beside it, at the time `now`. -/
inductive Step (s : DialLoop) (now : Nat) : DialOp → DialLoop → Prop where
  | nudge (hnow : s.clock ≤ now) : Step s now .nudge { s with nudged := true, clock := now }
  | notified {since : Nat} (hnow : s.clock ≤ now) (hphase : s.phase = .waiting since)
      (hnudged : s.nudged = true) :
      Step s now .notified { s with phase := .called .nudge, nudged := false, clock := now }
  | tick (hnow : s.clock ≤ now)
      (hphase : s.phase = .starting ∨ ∃ since, s.phase = .waiting since ∧ since + dialTick ≤ now)
      (events : List DiscoveryEvent) (nowMs : UInt64) :
      Step s now (.tick events nowMs)
        { s with
          manager := s.manager.refreshFromDiscovery events nowMs
          phase := .called .tick
          clock := now }
  | begin {trigger : Trigger} {due : List DeviceId} (hnow : s.clock ≤ now)
      (hphase : s.phase = .called trigger) (hnodup : due.Nodup)
      (hdue : ∀ peer, peer ∈ due ↔ s.manager.Due peer) :
      Step s now (.begin due) { s with phase := .pass trigger due, clock := now }
  | dial {trigger : Trigger} {peer : DeviceId} {due : List DeviceId} (hnow : s.clock ≤ now)
      (hphase : s.phase = .pass trigger (peer :: due)) (hdue : s.manager.Due peer) :
      Step s now .turn { s with phase := .dialling trigger peer due, clock := now }
  | skip {trigger : Trigger} {peer : DeviceId} {due : List DeviceId} (hnow : s.clock ≤ now)
      (hphase : s.phase = .pass trigger (peer :: due)) (hdue : ¬ s.manager.Due peer) :
      Step s now .turn { s with phase := .pass trigger due, clock := now }
  | ended {trigger : Trigger} {peer : DeviceId} {due : List DeviceId} (hnow : s.clock ≤ now)
      (hphase : s.phase = .dialling trigger peer due) (outcome : Dialled) :
      Step s now (.ended outcome)
        { s with
          manager := s.manager.dialEnded peer outcome
          phase := .pass trigger due
          clock := now }
  | rest {trigger : Trigger} (hnow : s.clock ≤ now) (hphase : s.phase = .pass trigger []) :
      Step s now .rest { s with phase := .waiting now, clock := now }
  | inbound (hnow : s.clock ≤ now) (peer : DeviceId) (addr : SocketAddr)
      (reachability : Reachability) (nowMs nowMs' : UInt64) :
      Step s now (.inbound peer addr reachability nowMs nowMs')
        { s with
          manager := s.manager.noteSuccess peer addr reachability nowMs nowMs'
          clock := now }
  | reload (hnow : s.clock ≤ now) :
      Step s now .reload { s with manager := s.manager.reloadFromTrust, clock := now }
  | trust (hnow : s.clock ≤ now) (op : TrustOp) :
      Step s now (.trust op)
        { s with manager := { s.manager with trust := s.manager.trust.apply op }, clock := now }

/-- The daemon starts its `dial_loop`. -/
def start (identity : DeviceIdentity) (trust : Trust) : DialLoop :=
  { manager := .new identity trust, phase := .starting, nudged := false, clock := 0 }

end DialLoop
end Clipse
