import Clipse.Core.Hash
import Clipse.Crypto.Trust

/-!
# Encrypted sessions (`clipse-crypto/src/session.rs`)

The Noise handshake and its transport ciphers are another crate's, so they are the parameter
`Snow`. What this file adds to them is modelled: whom a handshake is with and under which trust
epoch it began, and how much a session may carry before it has to be rekeyed.
-/

namespace Clipse

/-- `snow`. A builder takes the ephemeral key that the handshake will draw. -/
class Snow where
  HandshakeState : Type
  TransportState : Type
  buildInitiator (secret : DeviceSecretKey) (remote : DevicePublicKey) (ephemeral : Bytes) :
    Option HandshakeState
  buildResponder (secret : DeviceSecretKey) (ephemeral : Bytes) : Option HandshakeState
  writeHandshake (state : HandshakeState) : Option (Bytes × HandshakeState)
  readHandshake (state : HandshakeState) (message : Bytes) : Option HandshakeState
  remoteStatic (state : HandshakeState) : Option (Vector UInt8 32)
  intoTransport (state : HandshakeState) : Option TransportState
  write (state : TransportState) (plaintext : Bytes) : Option (Bytes × TransportState)
  read (state : TransportState) (ciphertext : Bytes) : Option (Bytes × TransportState)
  rekeyOutgoing (state : TransportState) : TransportState
  rekeyIncoming (state : TransportState) : TransportState

variable [Snow]

/-- `REKEY_AFTER_MESSAGES`. -/
def rekeyAfterMessages : Nat := 10000

/-- `REKEY_AFTER_BYTES`. -/
def rekeyAfterBytes : Nat := 64 * 1024 * 1024

/-- `TAG_LEN`. -/
def tagLen : Nat := 16

/-- An authenticated, encrypted channel to one paired device. -/
structure SecureSession where
  remoteDeviceId : DeviceId
  remoteStatic : DevicePublicKey
  epoch : UInt64
  transport : Snow.TransportState
  messagesSinceRekey : Nat
  bytesSinceRekey : Nat

/-- The initiator's half of a handshake. -/
structure HandshakeInitiator where
  state : Snow.HandshakeState
  remoteDeviceId : DeviceId
  remoteStatic : DevicePublicKey
  epoch : UInt64

/-- The responder's half of a handshake. -/
structure HandshakeResponder where
  state : Snow.HandshakeState
  remoteDeviceId : DeviceId
  remoteStatic : DevicePublicKey
  epoch : UInt64

namespace SecureSession

/-- `Session::new`. -/
def new (remoteDeviceId : DeviceId) (remoteStatic : DevicePublicKey) (epoch : UInt64)
    (transport : Snow.TransportState) : SecureSession :=
  { remoteDeviceId, remoteStatic, epoch, transport, messagesSinceRekey := 0, bytesSinceRekey := 0 }

def needsRekey (s : SecureSession) : Bool :=
  s.messagesSinceRekey ≥ rekeyAfterMessages || s.bytesSinceRekey ≥ rekeyAfterBytes

/-- `Session::rekey`: the local half only; nobody calls it. -/
def rekey (s : SecureSession) : SecureSession :=
  { s with
    transport := Snow.rekeyIncoming (Snow.rekeyOutgoing s.transport)
    messagesSinceRekey := 0
    bytesSinceRekey := 0 }

/-- `Session::write_message`. -/
def writeMessage (s : SecureSession) (plaintext : Bytes) :
    Except CryptoError (Bytes × SecureSession) :=
  if s.needsRekey then .error .rekeyRequired
  else do
    let (ciphertext, transport) ← orError .handshakeFailed (Snow.write s.transport plaintext)
    return (ciphertext,
      { s with
        transport
        messagesSinceRekey := s.messagesSinceRekey + 1
        bytesSinceRekey := s.bytesSinceRekey + ciphertext.length })

/-- `Session::read_message`. -/
def readMessage (s : SecureSession) (ciphertext : Bytes) :
    Except CryptoError (Bytes × SecureSession) :=
  if s.needsRekey then .error .rekeyRequired
  else do
    let (plaintext, transport) ← orError .decryptFailed (Snow.read s.transport ciphertext)
    return (plaintext,
      { s with
        transport
        messagesSinceRekey := s.messagesSinceRekey + 1
        bytesSinceRekey := s.bytesSinceRekey + ciphertext.length })

end SecureSession

namespace HandshakeInitiator

/-- `HandshakeInitiator::start`: only towards a paired device, with the key and the epoch that
the trust set has now. -/
def start (identity : DeviceIdentity) (trust : Trust) (remote : DeviceId) (ephemeral : Bytes) :
    Except CryptoError (HandshakeInitiator × Bytes) := do
  let peer ← orError .notTrusted (trust.peer remote)
  let state ← orError .handshakeFailed
    (Snow.buildInitiator identity.secret peer.staticPublic ephemeral)
  let (message, state) ← orError .handshakeFailed (Snow.writeHandshake state)
  return ({ state, remoteDeviceId := remote, remoteStatic := peer.staticPublic,
            epoch := trust.epoch }, message)

/-- `HandshakeInitiator::finish`. -/
def finish (i : HandshakeInitiator) (response : Bytes) : Except CryptoError SecureSession := do
  let state ← orError .handshakeFailed (Snow.readHandshake i.state response)
  let transport ← orError .handshakeFailed (Snow.intoTransport state)
  return .new i.remoteDeviceId i.remoteStatic i.epoch transport

end HandshakeInitiator

namespace HandshakeResponder

/-- `HandshakeResponder::accept`: the key that the first message proves must be trusted. -/
def accept (identity : DeviceIdentity) (trust : Trust) (firstMessage ephemeral : Bytes) :
    Except CryptoError HandshakeResponder := do
  let state ← orError .handshakeFailed (Snow.buildResponder identity.secret ephemeral)
  let state ← orError .handshakeFailed (Snow.readHandshake state firstMessage)
  let bytes ← orError .handshakeFailed (Snow.remoteStatic state)
  let peer ← trust.authorizeStaticKey ⟨bytes⟩
  return { state, remoteDeviceId := peer.deviceId, remoteStatic := ⟨bytes⟩, epoch := trust.epoch }

/-- `HandshakeResponder::respond`. -/
def respond (r : HandshakeResponder) : Except CryptoError (SecureSession × Bytes) := do
  let (message, state) ← orError .handshakeFailed (Snow.writeHandshake r.state)
  let transport ← orError .handshakeFailed (Snow.intoTransport state)
  return (.new r.remoteDeviceId r.remoteStatic r.epoch transport, message)

end HandshakeResponder

namespace Trust

/-- `Trust::authorize_session`. -/
def authorizeSession (t : Trust) (session : SecureSession) : Except CryptoError Unit :=
  if session.epoch ≠ t.epoch then .error .notTrusted
  else if !t.isPaired session.remoteDeviceId then .error .notTrusted
  else .ok ()

end Trust

/-- The lengths of Noise IK, with nothing encrypted: what the worked examples run on. -/
@[reducible] def Snow.examples : Snow where
  HandshakeState := Nat
  TransportState := Unit
  buildInitiator _ _ _ := some 0
  buildResponder _ _ := some 0
  writeHandshake n := some (.replicate (if n = 0 then 96 else 48) 0, n + 1)
  readHandshake n message := if message.length = (if n = 0 then 96 else 48) then some (n + 1) else none
  remoteStatic n := if n = 1 then some (.replicate 32 1) else none
  intoTransport n := if n = 2 then some () else none
  write _ plaintext := some (plaintext ++ .replicate tagLen 0, ())
  read _ ciphertext :=
    if tagLen ≤ ciphertext.length then some (ciphertext.take (ciphertext.length - tagLen), ())
    else none
  rekeyOutgoing := id
  rekeyIncoming := id

end Clipse
