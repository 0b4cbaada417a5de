import Clipse.Net.Candidate
import Clipse.Net.PeerLink

/-!
# Dialling (`clipse-net/src/quic.rs`, `transport.rs`)

`dial` walks the candidate addresses in order and makes the handshake at the first that takes the
connection. What each address leads to is an argument (`Host`), so is the ephemeral key.
-/

namespace Clipse

/-- The `Display` texts of `LinkError`, without what the codec adds to its own. -/
def LinkError.text : LinkError → String
  | closed => "the peer closed the connection"
  | transport reason => "transport: " ++ reason
  | crypto e => "crypto: " ++ e.text
  | encode => "could not encode a message"
  | decode => "malformed message from peer"
  | tooLarge size max =>
    "message of " ++ toString size ++ " bytes exceeds the " ++ toString max ++ " byte limit"

/-- `AttemptFailure`. -/
structure AttemptFailure where
  addr : SocketAddr
  reachability : Reachability
  reason : String
deriving DecidableEq

inductive DialError where
  | unreachable (attempts : List AttemptFailure)
  | rejected (source : CryptoError)
  | notPaired
  | noCandidates
deriving DecidableEq

namespace DialError

/-- The `Display` texts. -/
def text : DialError → String
  | unreachable attempts =>
    "no candidate address answered (" ++ toString attempts.length ++ " tried)"
  | rejected source => "the peer refused our identity: " ++ source.text
  | notPaired => "that device is not paired"
  | noCandidates => "peer has no known addresses"

/-- `DialError::is_retryable`. -/
def isRetryable : DialError → Bool
  | unreachable _ => true
  | _ => false

end DialError

/-- `LinkInfo`. -/
structure LinkInfo where
  device : DeviceId
  addr : SocketAddr
  reachability : Reachability
deriving DecidableEq

/-- What an address leads to. -/
inductive Host where
  /-- `Endpoint::connect` does not take the address. -/
  | unroutable (reason : String)
  /-- Nobody answers within `DIAL_TIMEOUT`. -/
  | silent
  | refusing (reason : String)
  /-- The connection stands and is closed before there is a reply. -/
  | closing
  /-- The connection stands and fails before there is a reply. -/
  | failing (reason : String)
  /-- A Clipse device, which draws this ephemeral key. -/
  | device (identity : DeviceIdentity) (trust : Trust) (ephemeral : Bytes)
  /-- Whatever it is, it replies. -/
  | stranger (reply : Bytes)

section
variable [Snow]

/-- The session half of `QuicTransport::accept_one`: what is replied to the first message. -/
def acceptOne (identity : DeviceIdentity) (trust : Trust) (ephemeral first : Bytes) :
    Except LinkError Bytes := do
  let first ← PeerLink.readFrame first
  let responder ←
    (HandshakeResponder.accept identity trust first ephemeral).mapError LinkError.crypto
  let (_, reply) ← responder.respond.mapError LinkError.crypto
  return reply

namespace Host

/-- Whether a connection comes about, and why not. -/
def connect : Host → Except String Unit
  | unroutable reason => .error reason
  | silent => .error "timed out"
  | refusing reason => .error reason
  | _ => .ok ()

/-- What `read_frame` gets when the first message has been written. A device that refuses only
drops the connection. -/
def reply (h : Host) (first : Bytes) : Except LinkError Bytes :=
  match h with
  | failing reason => .error (.transport reason)
  | device identity trust ephemeral =>
    match acceptOne identity trust ephemeral first with
    | .ok reply => PeerLink.readFrame reply
    | .error _ => .error .closed
  | stranger reply => PeerLink.readFrame reply
  | _ => .error .closed

end Host

/-- The device that dials, and the key that its handshake will draw. -/
structure Dialler where
  identity : DeviceIdentity
  trust : Trust
  ephemeral : Bytes

namespace Dialler

/-- `QuicTransport::handshake_as_initiator`. -/
def handshakeAsInitiator (d : Dialler) (host : Host) (peer : DeviceId) (addr : SocketAddr)
    (reachability : Reachability) : Except DialError (LinkInfo × PeerLink) :=
  match HandshakeInitiator.start d.identity d.trust peer d.ephemeral with
  | .error source => .error (.rejected source)
  | .ok (initiator, first) =>
    match host.reply first with
    | .error e => .error (.unreachable [⟨addr, reachability, e.text⟩])
    | .ok reply =>
      match initiator.finish reply with
      | .error source => .error (.rejected source)
      | .ok session => .ok (⟨session.remoteDeviceId, addr, reachability⟩, .new session)

/-- The loop of `QuicTransport::dial`: the first address that takes the connection decides. -/
def tryEach (d : Dialler) (hosts : SocketAddr → Host) (peer : DeviceId) :
    List Candidate → List AttemptFailure → Except DialError (LinkInfo × PeerLink)
  | [], attempts => .error (.unreachable attempts)
  | c :: candidates, attempts =>
    match (hosts c.addr).connect with
    | .error reason =>
      tryEach d hosts peer candidates (attempts ++ [⟨c.addr, c.reachability, reason⟩])
    | .ok () => d.handshakeAsInitiator (hosts c.addr) peer c.addr c.reachability

/-- `QuicTransport::dial`. -/
def dial (d : Dialler) (hosts : SocketAddr → Host) (peer : DeviceId)
    (candidates : CandidateList) : Except DialError (LinkInfo × PeerLink) :=
  if !d.trust.isPaired peer then .error .notPaired
  else if candidates.isEmpty then .error .noCandidates
  else d.tryEach hosts peer candidates.dialOrder []

end Dialler

end

/-! ## Waiting between dials -/

/-- `Backoff`. -/
structure Backoff where
  baseMs : Nat
  maxMs : Nat
  attempt : Nat
deriving DecidableEq

namespace Backoff

/-- `Backoff::default`. -/
def default_ : Backoff := { baseMs := 500, maxMs := 60000, attempt := 0 }

/-- `next_delay_ms`; shifting, multiplying and counting saturate. -/
def nextDelayMs (b : Backoff) : Nat × Backoff :=
  let factor := if b.attempt < 64 then 2 ^ b.attempt else 2 ^ 64 - 1
  (min (min (b.baseMs * factor) (2 ^ 64 - 1)) b.maxMs,
    { b with attempt := min (b.attempt + 1) (2 ^ 32 - 1) })

def reset (b : Backoff) : Backoff := { b with attempt := 0 }

end Backoff

end Clipse
