import Clipse.Crypto.Trust
import Clipse.Daemon.Pairing

/-!
# Pairing on one daemon (`clipsed/src/daemon.rs`, `clipsed/src/peers.rs`)

One `PairingState` is shared by the requests of the user and by every inbound pairing connection.
A task holds its lock for one call at a time, and anything may happen between two calls: a task is
where it is in `pair_with_code` (`Typing`) or in `serve_pairing` (`Inbound`), and
`PairingDaemon.Step` lets any of them go on.

What comes over the network, clock readings and random values are arguments of the step that takes
them. Three counters are not in the program and no step looks at them: they number the ceremonies,
so that one can say which ceremony a state, a task or a device belongs to.
-/

namespace Clipse

/-- Where an inbound connection is in `serve_pairing` and `pairing_ceremony`. `of` is the ceremony
of this daemon whose offer the connection was given. -/
inductive Inbound where
  /-- The first frame was read, and may not even decode. -/
  | opened (first : Option PairingWire)
  /-- Writing `Refused`. -/
  | refusing
  /-- Writing the offer. -/
  | offering (of : Nat)
  | awaitingAccept (of : Nat)
  /-- About to take the lock for `answer_accept`. -/
  | accepted (of : Nat) (accept : PairingAccept)
  /-- Writing the confirm. -/
  | confirming (of : Nat)
  | awaitingFinish (of : Nat)
  /-- About to take the lock for `finish`. -/
  | finished (of : Nat) (finish : PairingFinish)
  /-- The proof verified, the lock is released, `commit_pairing` not yet called. -/
  | committing (of : Nat) (peer : PairedDevice)
  /-- Writing `Done`. -/
  | acknowledging (of : Nat)
  /-- The 20 seconds are over; about to take the lock for `cancel`. -/
  | stalled (of : Nat)

namespace Inbound

/-- The ceremony whose offer the connection was given, 0 for none. -/
def of : Inbound → Nat
  | opened _ | refusing => 0
  | offering of | awaitingAccept of | accepted of _ | confirming of | awaitingFinish of
  | finished of _ | committing of _ | acknowledging of | stalled of => of

/-- May the connection end here with an error: a dropped link, a frame that does not decode or is
not the one expected? -/
def canFail : Inbound → Bool
  | opened (some (.lookup _)) => false
  | opened _ | refusing | offering _ | awaitingAccept _ | confirming _ | awaitingFinish _
  | acknowledging _ => true
  | accepted .. | finished .. | committing .. | stalled _ => false

/-- May the 20 seconds run out here? Only where the task waits: not where its first frame is
rejected, nor between the proof and its commit. -/
def canStall : Inbound → Bool
  | opened (some (.lookup _)) => true
  | opened _ | committing .. | stalled _ => false
  | _ => true

/-- Is the connection between the answer to its accept and the end of its proof? -/
def awaitsProof : Inbound → Bool
  | .confirming _ | .awaitingFinish _ | .finished .. | .stalled _ => true
  | _ => false

end Inbound

/-- Where a request is in `pair_with_code` and `run_pairing_ceremony`. -/
inductive Typing where
  /-- Asking the devices around, one after the other. -/
  | looking (code : PairingCode) (of : Nat)
  /-- The accept is sent. -/
  | answering (responder : PairingResponder) (of : Nat)
  /-- The far side's proof verified, our own is sent. -/
  | acknowledging (peer : PairedDevice) (of : Nat)
  /-- The ceremony is over; about to take the lock for `cancel`. -/
  | ended (outcome : Except PairingError PairedDevice) (of : Nat)
  /-- The lock is released, `commit_pairing` not yet called. -/
  | committing (peer : PairedDevice) (of : Nat)

namespace Typing

def of : Typing → Nat
  | looking _ of | answering _ of | acknowledging _ of | ended _ of | committing _ of => of

/-- Does the task still have to release the state? -/
def claims : Typing → Bool
  | committing .. => false
  | _ => true

/-- The device whose proof the task has verified. -/
def verified : Typing → Option PairedDevice
  | acknowledging peer _ | ended (.ok peer) _ | committing peer _ => some peer
  | _ => none

end Typing

structure PairingDaemon where
  identity : DeviceIdentity
  label : String
  platform : Platform
  addresses : List CandidateAddress
  state : PairingState
  trust : Trust
  inbound : Nat → Option Inbound
  typing : Nat → Option Typing
  /-- How many ceremonies were begun. -/
  begun : Nat
  /-- The ceremony that `state` is about. -/
  owner : Nat
  /-- How many had been begun when `CancelPairing` was answered last. -/
  cancelled : Nat

/-- What an inbound connection does in a step. -/
inductive InboundKind where
  | io
  | lookup (now : UInt64)
  | answer (ok : Bool)
  | prove
  | commit
  | fail
  | timeout
  | release
deriving DecidableEq

/-- Does the step take the state out, or reset it? -/
def InboundKind.takes : InboundKind → Bool
  | answer _ | prove | release => true
  | _ => false

/-- What a `PairWithCode` request does in a step. -/
inductive TypingKind where
  | io
  | verified
  | release
  | commit
deriving DecidableEq

/-- Who takes a step. -/
inductive PairingLabel where
  | beginPairing (r : Except PairingError (PairingCode × UInt64))
  | pairWithCode (r : Except PairingError Unit)
  | cancelPairing
  | inbound (n : Nat) (kind : InboundKind)
  | typing (n : Nat) (kind : TypingKind)

namespace PairingDaemon

/-- A daemon at its start. -/
def start (identity : DeviceIdentity) (label : String) (platform : Platform)
    (addresses : List CandidateAddress) (trust : Trust) : PairingDaemon :=
  { identity, label, platform, addresses, state := .idle, trust, inbound := fun _ => none,
    typing := fun _ => none, begun := 0, owner := 0, cancelled := 0 }

/-- Put the connection `n` at `c`; `none` is the end of it. -/
def setInbound (d : PairingDaemon) (n : Nat) (c : Option Inbound) : PairingDaemon :=
  { d with inbound := Function.update d.inbound n c }

def setTyping (d : PairingDaemon) (n : Nat) (t : Option Typing) : PairingDaemon :=
  { d with typing := Function.update d.typing n t }

def setState (d : PairingDaemon) (s : PairingState) : PairingDaemon := { d with state := s }

/-- A new ceremony holds the state. -/
def claim (d : PairingDaemon) (s : PairingState) : PairingDaemon :=
  { d with state := s, begun := d.begun + 1, owner := d.begun + 1 }

/-- `commit_pairing`: the device enters the trust set. -/
def commitPairing (d : PairingDaemon) (peer : PairedDevice) : PairingDaemon :=
  { d with trust := d.trust.addPeer peer }

section
variable [Blake3]

/-- `Daemon::begin_pairing`. -/
def beginPairing (d : PairingDaemon) (now now' : UInt64) (nonceA : Nonce) (code : PairingCode) :
    Except PairingError (PairingCode × UInt64) × PairingDaemon :=
  match (d.state.expireIfStale now).2.begin d.identity d.label d.platform d.addresses now' nonceA
      code with
  | (.ok r, s) => (.ok r, d.claim s)
  | (.error e, s) => (.error e, d.setState s)

/-- The step relation: one call under the lock, one message, or one end of waiting. -/
inductive Step (d : PairingDaemon) : PairingLabel → PairingDaemon → Prop
  -- the requests of the user
  | beginPairing (now now' : UInt64) (nonceA : Nonce) (code : PairingCode) :
      Step d (.beginPairing (d.beginPairing now now' nonceA code).1)
        (d.beginPairing now now' nonceA code).2
  | cancelPairing :
      Step d .cancelPairing { d with state := d.state.cancel, cancelled := d.begun }
  | pairWithCode {n : Nat} (code : PairingCode) (hn : d.typing n = none)
      (h : d.state.beginAnswering.1 = .ok ()) :
      Step d (.pairWithCode (.ok ()))
        ((d.claim d.state.beginAnswering.2).setTyping n (some (.looking code (d.begun + 1))))
  | pairWithCodeRefused {e : PairingError} (h : d.state.beginAnswering.1 = .error e) :
      Step d (.pairWithCode (.error e)) (d.setState d.state.beginAnswering.2)
  -- `run_pairing_ceremony`
  | offered {n of : Nat} {code : PairingCode} (ht : d.typing n = some (.looking code of))
      {offer : PairingOffer} {now : UInt64} {nonce : Nonce} {r : PairingResponder}
      {accept : PairingAccept}
      (h : PairingResponder.fromOffer offer code d.identity d.label d.platform d.addresses now
        nonce = .ok (r, accept)) :
      Step d (.typing n .io) (d.setTyping n (some (.answering r of)))
  | offerRejected {n of : Nat} {code : PairingCode} (ht : d.typing n = some (.looking code of))
      {offer : PairingOffer} {now : UInt64} {nonce : Nonce} {e : CryptoError}
      (h : PairingResponder.fromOffer offer code d.identity d.label d.platform d.addresses now
        nonce = .error e) :
      Step d (.typing n .io) (d.setTyping n (some (.ended (.error .failed) of)))
  | exhausted {n of : Nat} {code : PairingCode} (ht : d.typing n = some (.looking code of)) :
      Step d (.typing n .io) (d.setTyping n (some (.ended (.error .notFound) of)))
  | confirmed {n of : Nat} {r : PairingResponder} (ht : d.typing n = some (.answering r of))
      {confirm : PairingConfirm} {now : UInt64} {finish : PairingFinish} {peer : PairedDevice}
      (h : r.verify confirm now = .ok (finish, peer)) :
      Step d (.typing n .verified) (d.setTyping n (some (.acknowledging peer of)))
  | unconfirmed {n of : Nat} {r : PairingResponder} (ht : d.typing n = some (.answering r of)) :
      Step d (.typing n .io) (d.setTyping n (some (.ended (.error .failed) of)))
  | acknowledged {n of : Nat} {peer : PairedDevice}
      (ht : d.typing n = some (.acknowledging peer of)) :
      Step d (.typing n .io) (d.setTyping n (some (.ended (.ok peer) of)))
  -- the end of `pair_with_code`: the state is released first, whoever holds it
  | released {n of : Nat} {peer : PairedDevice} (ht : d.typing n = some (.ended (.ok peer) of)) :
      Step d (.typing n .release)
        ((d.setState d.state.cancel).setTyping n (some (.committing peer of)))
  | gaveUp {n of : Nat} {e : PairingError} (ht : d.typing n = some (.ended (.error e) of)) :
      Step d (.typing n .release) ((d.setState d.state.cancel).setTyping n none)
  | typed {n of : Nat} {peer : PairedDevice} (ht : d.typing n = some (.committing peer of)) :
      Step d (.typing n .commit) ((d.commitPairing peer).setTyping n none)
  -- `pairing_ceremony`
  | opened {n : Nat} (hn : d.inbound n = none) (first : Option PairingWire) :
      Step d (.inbound n .io) (d.setInbound n (some (.opened first)))
  | lookup {n : Nat} {tag : Tag} (hn : d.inbound n = some (.opened (some (.lookup tag))))
      {now : UInt64} {o : PairingOffer} {s : PairingState}
      (h : d.state.lookup tag now = (.offer o, s)) :
      Step d (.inbound n (.lookup now)) ((d.setState s).setInbound n (some (.offering d.owner)))
  | lookupRefused {n : Nat} {tag : Tag} (hn : d.inbound n = some (.opened (some (.lookup tag))))
      {now : UInt64} {s : PairingState} (h : d.state.lookup tag now = (.refuse, s)) :
      Step d (.inbound n (.lookup now)) ((d.setState s).setInbound n (some .refusing))
  | refused {n : Nat} (hn : d.inbound n = some .refusing) :
      Step d (.inbound n .io) (d.setInbound n none)
  | offerSent {n of : Nat} (hn : d.inbound n = some (.offering of)) :
      Step d (.inbound n .io) (d.setInbound n (some (.awaitingAccept of)))
  | acceptReceived {n of : Nat} (hn : d.inbound n = some (.awaitingAccept of))
      (accept : PairingAccept) :
      Step d (.inbound n .io) (d.setInbound n (some (.accepted of accept)))
  | answered {n of : Nat} {accept : PairingAccept} (hn : d.inbound n = some (.accepted of accept))
      {now now' : UInt64} {confirm : PairingConfirm} {s : PairingState}
      (h : d.state.answerAccept accept now now' = (.ok confirm, s)) :
      Step d (.inbound n (.answer true))
        ((d.setState s).setInbound n (some (.confirming of)))
  | unanswered {n of : Nat} {accept : PairingAccept}
      (hn : d.inbound n = some (.accepted of accept)) {now now' : UInt64} {e : PairingError}
      {s : PairingState} (h : d.state.answerAccept accept now now' = (.error e, s)) :
      Step d (.inbound n (.answer false)) ((d.setState s).setInbound n none)
  | confirmSent {n of : Nat} (hn : d.inbound n = some (.confirming of)) :
      Step d (.inbound n .io) (d.setInbound n (some (.awaitingFinish of)))
  | finishReceived {n of : Nat} (hn : d.inbound n = some (.awaitingFinish of))
      (finish : PairingFinish) :
      Step d (.inbound n .io) (d.setInbound n (some (.finished of finish)))
  | proved {n of : Nat} {f : PairingFinish} (hn : d.inbound n = some (.finished of f))
      {peer : PairedDevice} {s : PairingState} (h : d.state.finish f = (.ok peer, s)) :
      Step d (.inbound n .prove)
        ((d.setState s).setInbound n (some (.committing d.owner peer)))
  | unproved {n of : Nat} {f : PairingFinish} (hn : d.inbound n = some (.finished of f))
      {e : PairingError} {s : PairingState} (h : d.state.finish f = (.error e, s)) :
      Step d (.inbound n .prove) ((d.setState s).setInbound n none)
  | committed {n of : Nat} {peer : PairedDevice}
      (hn : d.inbound n = some (.committing of peer)) :
      Step d (.inbound n .commit) ((d.commitPairing peer).setInbound n (some (.acknowledging of)))
  | doneSent {n of : Nat} (hn : d.inbound n = some (.acknowledging of)) :
      Step d (.inbound n .io) (d.setInbound n none)
  | failed {n : Nat} {c : Inbound} (hn : d.inbound n = some c) (hc : c.canFail = true) :
      Step d (.inbound n .fail) (d.setInbound n none)
  -- `serve_pairing`, when the 20 seconds are over
  | timedOut {n : Nat} {c : Inbound} (hn : d.inbound n = some c) (hc : c.canStall = true) :
      Step d (.inbound n .timeout) (d.setInbound n (some (.stalled c.of)))
  | stallReleased {n of : Nat} (hn : d.inbound n = some (.stalled of)) :
      Step d (.inbound n .release) ((d.setState d.state.cancel).setInbound n none)

/-- What a daemon can come to when every step meets `P`. -/
inductive ReachableBy (P : PairingDaemon → PairingLabel → Prop) : PairingDaemon → Prop
  | start (identity : DeviceIdentity) (label : String) (platform : Platform)
      (addresses : List CandidateAddress) (trust : Trust) :
      ReachableBy P (start identity label platform addresses trust)
  | step {d d' : PairingDaemon} {l : PairingLabel} (h : ReachableBy P d) (hp : P d l)
      (hs : d.Step l d') : ReachableBy P d'

/-- What a daemon can come to. -/
abbrev Reachable (d : PairingDaemon) : Prop := ReachableBy (fun _ _ => True) d

theorem ReachableBy.mono {P Q : PairingDaemon → PairingLabel → Prop} {d : PairingDaemon}
    (h : ReachableBy P d) (hPQ : ∀ d l, P d l → Q d l) : ReachableBy Q d := by
  induction h with
  | start identity label platform addresses trust =>
    exact .start identity label platform addresses trust
  | step _ hp hs ih => exact .step ih (hPQ _ _ hp) hs

end

/-! ## Fields after an update -/

section
variable (d : PairingDaemon) (n m : Nat) (c : Option Inbound) (t : Option Typing)
  (s : PairingState) (peer : PairedDevice)

@[simp] theorem state_setInbound : (d.setInbound n c).state = d.state := rfl
@[simp] theorem typing_setInbound : (d.setInbound n c).typing = d.typing := rfl
@[simp] theorem begun_setInbound : (d.setInbound n c).begun = d.begun := rfl
@[simp] theorem owner_setInbound : (d.setInbound n c).owner = d.owner := rfl
@[simp] theorem cancelled_setInbound : (d.setInbound n c).cancelled = d.cancelled := rfl
@[simp] theorem state_setTyping : (d.setTyping n t).state = d.state := rfl
@[simp] theorem inbound_setTyping : (d.setTyping n t).inbound = d.inbound := rfl
@[simp] theorem begun_setTyping : (d.setTyping n t).begun = d.begun := rfl
@[simp] theorem owner_setTyping : (d.setTyping n t).owner = d.owner := rfl
@[simp] theorem cancelled_setTyping : (d.setTyping n t).cancelled = d.cancelled := rfl
@[simp] theorem state_setState : (d.setState s).state = s := rfl
@[simp] theorem inbound_setState : (d.setState s).inbound = d.inbound := rfl
@[simp] theorem typing_setState : (d.setState s).typing = d.typing := rfl
@[simp] theorem begun_setState : (d.setState s).begun = d.begun := rfl
@[simp] theorem owner_setState : (d.setState s).owner = d.owner := rfl
@[simp] theorem cancelled_setState : (d.setState s).cancelled = d.cancelled := rfl
@[simp] theorem state_claim : (d.claim s).state = s := rfl
@[simp] theorem inbound_claim : (d.claim s).inbound = d.inbound := rfl
@[simp] theorem typing_claim : (d.claim s).typing = d.typing := rfl
@[simp] theorem begun_claim : (d.claim s).begun = d.begun + 1 := rfl
@[simp] theorem owner_claim : (d.claim s).owner = d.begun + 1 := rfl
@[simp] theorem cancelled_claim : (d.claim s).cancelled = d.cancelled := rfl
@[simp] theorem state_commitPairing : (d.commitPairing peer).state = d.state := rfl
@[simp] theorem inbound_commitPairing : (d.commitPairing peer).inbound = d.inbound := rfl
@[simp] theorem typing_commitPairing : (d.commitPairing peer).typing = d.typing := rfl
@[simp] theorem begun_commitPairing : (d.commitPairing peer).begun = d.begun := rfl
@[simp] theorem owner_commitPairing : (d.commitPairing peer).owner = d.owner := rfl
@[simp] theorem cancelled_commitPairing : (d.commitPairing peer).cancelled = d.cancelled := rfl

@[simp] theorem inbound_setInbound :
    (d.setInbound n c).inbound m = if m = n then c else d.inbound m := by
  simp [setInbound, Function.update_apply]

@[simp] theorem typing_setTyping :
    (d.setTyping n t).typing m = if m = n then t else d.typing m := by
  simp [setTyping, Function.update_apply]

end

end PairingDaemon
end Clipse
