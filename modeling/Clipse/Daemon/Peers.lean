import Clipse.Net.Dial

/-!
# The paired devices (`clipsed/src/peers.rs`)

The table of the devices to sync with. A dial either ends in a session or says why not, and what it
says decides whether the device is dialled again. What the network does, and whether a session
completes, is in the operations.
-/

namespace Clipse

/-- `DiscoveryEvent`, with what the table reads of it. An advertisement without a usable address is
not reported. -/
inductive DiscoveryEvent where
  | found (device : DeviceId) (addresses : List SocketAddr) (hne : addresses ≠ [])
  | lost (device : DeviceId)
  | incompatible (instanceName reason : String)

/-- `PeerState`. -/
structure PeerState where
  candidates : CandidateList
  backoff : Backoff
  /-- Set when the peer refused us. -/
  refused : Option String
  lastSeenMs : Option UInt64
  lastReachability : Option Reachability

namespace PeerState

/-- `PeerState::new`. -/
def new (candidates : CandidateList) : PeerState :=
  { candidates, backoff := .default_, refused := none, lastSeenMs := none,
    lastReachability := none }

/-- What `note_success` records: `now` and `now'` are its two readings of the clock. -/
def noteSuccess (s : PeerState) (addr : SocketAddr) (reachability : Reachability)
    (now now' : UInt64) : PeerState where
  candidates := s.candidates.upsert ((Candidate.lan addr).seenAt now')
  backoff := s.backoff.reset
  refused := none
  lastSeenMs := some now
  lastReachability := some reachability

/-- What a dial that failed leaves. -/
def noteFailure (s : PeerState) (e : DialError) : PeerState :=
  if e.isRetryable then { s with backoff := s.backoff.nextDelayMs.2 }
  else { s with refused := some e.text }

/-- A sighting by discovery. -/
def refresh (s : PeerState) (addresses : List SocketAddr) (now : UInt64) : PeerState :=
  { s with candidates := s.candidates.refreshLan addresses now, backoff := s.backoff.reset }

/-- What `reload_from_trust` does to a device that it knew. -/
def reload (s : PeerState) (candidates : CandidateList) : PeerState :=
  { s with
    refused := none
    candidates := candidates.candidates.rows.foldl CandidateList.upsert s.candidates }

end PeerState

/-- `candidates_of`. -/
def candidatesOf (addresses : List CandidateAddress) : CandidateList :=
  .new (addresses.map fun
    | .lan addr => Candidate.lan addr
    | .tailnet addr => Candidate.tailnet addr)

/-- `PeerManager`: what its loops share. -/
structure PeerManager where
  identity : DeviceIdentity
  trust : Trust
  peers : DeviceId → Option PeerState

/-- What happens to the table. -/
inductive PeerOp where
  /-- `sync_one`: what every address leads to, the key that the handshake draws, and the readings of
  the clock when the session completes, if it does. -/
  | syncOne (peer : DeviceId) (hosts : SocketAddr → Host) (ephemeral : Bytes)
      (completed : Option (UInt64 × UInt64))
  /-- `refresh_from_discovery`. -/
  | sweep (events : List DiscoveryEvent) (now : UInt64)
  /-- A session that a peer opened has completed. -/
  | inbound (peer : DeviceId) (addr : SocketAddr) (reachability : Reachability) (now now' : UInt64)
  /-- `reload_from_trust`. -/
  | reload
  /-- Pairing or forgetting changes the trust set, before the reload. -/
  | trust (op : TrustOp)

namespace PeerManager

/-- `get_mut`. -/
def update (m : PeerManager) (peer : DeviceId) (f : PeerState → PeerState) : PeerManager :=
  { m with peers := fun d => if d = peer then (m.peers d).map f else m.peers d }

/-- `note_success`. -/
def noteSuccess (m : PeerManager) (peer : DeviceId) (addr : SocketAddr)
    (reachability : Reachability) (now now' : UInt64) : PeerManager :=
  m.update peer (·.noteSuccess addr reachability now now')

/-- One event of `refresh_from_discovery`: discovery never adds a peer. -/
def handleEvent (now : UInt64) (m : PeerManager) : DiscoveryEvent → PeerManager
  | .found device addresses _ => m.update device (·.refresh addresses now)
  | .lost _ => m
  | .incompatible _ _ => m

/-- `refresh_from_discovery`. -/
def refreshFromDiscovery (m : PeerManager) (events : List DiscoveryEvent) (now : UInt64) :
    PeerManager := events.foldl (handleEvent now) m

/-- `reload_from_trust`. -/
def reloadFromTrust (m : PeerManager) : PeerManager :=
  { m with
    peers := fun d =>
      match m.trust.peer d with
      | none => none
      | some record =>
        let candidates := candidatesOf record.addresses
        match m.peers d with
        | some s => some (s.reload candidates)
        | none => some (.new candidates) }

/-- `PeerManager::new`. -/
def new (identity : DeviceIdentity) (trust : Trust) : PeerManager :=
  reloadFromTrust { identity, trust, peers := fun _ => none }

section
variable [Snow]

/-- `sync_one`. -/
def syncOne (m : PeerManager) (peer : DeviceId) (hosts : SocketAddr → Host) (ephemeral : Bytes)
    (completed : Option (UInt64 × UInt64)) : PeerManager :=
  match m.peers peer with
  | none => m
  | some state =>
    if state.refused.isSome then m
    else
      let dialler : Dialler := { identity := m.identity, trust := m.trust, ephemeral }
      match dialler.dial hosts peer state.candidates with
      | .ok (info, _) =>
        match completed with
        | some (now, now') => m.noteSuccess peer info.addr info.reachability now now'
        | none => m
      | .error e => m.update peer (·.noteFailure e)

def step (m : PeerManager) : PeerOp → PeerManager
  | .syncOne peer hosts ephemeral completed => m.syncOne peer hosts ephemeral completed
  | .sweep events now => m.refreshFromDiscovery events now
  | .inbound peer addr reachability now now' => m.noteSuccess peer addr reachability now now'
  | .reload => m.reloadFromTrust
  | .trust op => { m with trust := m.trust.apply op }

end

/-- `sync_all` dials the device. -/
def Due (m : PeerManager) (peer : DeviceId) : Prop :=
  ∃ state, m.peers peer = some state ∧ state.refused = none

/-- The device is marked as refusing us. -/
def Refused (m : PeerManager) (peer : DeviceId) : Prop :=
  ∃ state reason, m.peers peer = some state ∧ state.refused = some reason

end PeerManager
end Clipse
