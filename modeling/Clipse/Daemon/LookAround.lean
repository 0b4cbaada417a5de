import Clipse.Daemon.Pairing
import Mathlib.Data.List.Sort
import Mathlib.Logic.Function.Basic

/-!
# Looking for a code (`clipsed/src/peers.rs`, `clipsed/src/daemon.rs`)

`pairing_targets` collects the addresses that may lead to the device that shows the code, and
`run_pairing_ceremony` calls one after the other and asks, up to the first answer that is an offer.
Which device is reached under an address, how its clock stands and what gets lost on the way is up
to the `Network`.
-/

namespace Clipse

/-- What the `Ord` of `SocketAddr` compares: IPv4 before IPv6, then the fields in their order. -/
def SocketAddr.key : SocketAddr → List Nat
  | .v4 ip port => 0 :: ip.toList.map UInt8.toNat ++ [port.toNat]
  | .v6 ip port flowinfo scopeId =>
    1 :: ip.toList.map UInt8.toNat ++ [port.toNat, flowinfo.toNat, scopeId.toNat]

/-- `pairing_targets`, from what discovery, the tailnet and the recorded candidates name. `dedup`
drops an address only where it stands next to itself. -/
def pairingTargets (found tailnet recorded : List SocketAddr) : List SocketAddr :=
  ((found ++ tailnet ++ recorded).insertionSort fun a b => a.key ≤ b.key).eraseReps

structure Network (ι : Type) where
  /-- The device that is reached under an address. -/
  device : SocketAddr → Option ι
  /-- The clock of the device that the `n`-th call asks, unless the call breaks off before. -/
  clock : Nat → Option UInt64
  /-- Does the answer to the `n`-th call come back? -/
  answered : Nat → Bool

/-- A lookup that comes to a device. -/
structure LookupCall (ι : Type) where
  device : ι
  now : UInt64
  answered : Bool

variable {ι : Type}

/-- The lookups that calling the targets leads to, as far as the calls go. -/
def Network.calls (net : Network ι) (targets : List SocketAddr) : List (LookupCall ι) :=
  targets.zipIdx.filterMap fun target => do
    let device ← net.device target.1
    let now ← net.clock target.2
    return { device, now, answered := net.answered target.2 }

/-- What a request leaves: the state of every device, the devices that counted a wrong lookup, once
for each time, and the offer that was found. -/
structure LookAround (ι : Type) where
  states : ι → PairingState
  wrong : List ι
  found : Option (ι × PairingOffer)

variable [Blake3]

/-- The lookup is counted as a wrong one: it meets an offer that it does not name. -/
def PairingState.countsWrong (s : PairingState) (tag : Tag) (now : UInt64) : Bool :=
  match (s.expireIfStale now).2 with
  | offering i _ _ => !i.answers tag
  | _ => false

variable [DecidableEq ι]

/-- The loop of `run_pairing_ceremony`, up to the device that it goes on with. -/
def lookAround (tag : Tag) (states : ι → PairingState) : List (LookupCall ι) → LookAround ι
  | [] => { states, wrong := [], found := none }
  | call :: calls =>
    let s := states call.device
    let (outcome, s') := s.lookup tag call.now
    let states := Function.update states call.device s'
    match outcome with
    | .offer offer =>
      if call.answered then { states, wrong := [], found := some (call.device, offer) }
      else lookAround tag states calls
    | .refuse =>
      let rest := lookAround tag states calls
      if s.countsWrong tag call.now then { rest with wrong := call.device :: rest.wrong } else rest

/-- `run_pairing_ceremony`, up to the device that it goes on with. -/
def runPairingCeremony (net : Network ι) (targets : List SocketAddr) (code : PairingCode)
    (states : ι → PairingState) : LookAround ι :=
  lookAround code.tag states (net.calls targets)

end Clipse
