import Clipse.Core.Id

/-!
# Devices and their keys (`clipse-crypto/src/identity.rs`, `pairing.rs`, `rotation.rs`)

What a device is to itself (`DeviceIdentity`) and to the devices it is paired with
(`PairedDevice`). Keys are opaque: the curve they belong to is another crate's.
-/

namespace Clipse

/-- `DevicePublicKey([u8; 32])`. -/
structure DevicePublicKey where
  bytes : Vector UInt8 32
deriving DecidableEq

/-- `DeviceSecretKey`. -/
structure DeviceSecretKey where
  bytes : Vector UInt8 32
deriving DecidableEq

/-- `DeviceIdentity`. -/
structure DeviceIdentity where
  deviceId : DeviceId
  secret : DeviceSecretKey
  publicKey : DevicePublicKey
deriving DecidableEq

inductive Platform where
  | windows | macOs | linux
  | other (name : String)
deriving DecidableEq

/-- `std::net::SocketAddr`. -/
inductive SocketAddr where
  | v4 (ip : Vector UInt8 4) (port : UInt16)
  | v6 (ip : Vector UInt8 16) (port : UInt16) (flowinfo scopeId : UInt32)
deriving DecidableEq

inductive CandidateAddress where
  | lan (addr : SocketAddr)
  | tailnet (addr : SocketAddr)
deriving DecidableEq

/-- `PairedDevice`: what a ceremony leaves behind, and an entry of the trust set. -/
structure PairedDevice where
  deviceId : DeviceId
  staticPublic : DevicePublicKey
  label : String
  platform : Platform
  addresses : List CandidateAddress
  pairedAtMs : UInt64
deriving DecidableEq

/-- `clipse_crypto::Error`. -/
inductive CryptoError where
  | handshakeFailed
  | decryptFailed
  | notTrusted
  | pairingFailed
  | pairingExpired
  | malformedPayload
  | rekeyRequired
deriving DecidableEq

namespace CryptoError

/-- The `Display` texts. -/
def text : CryptoError → String
  | handshakeFailed => "handshake failed"
  | decryptFailed => "decrypt failed"
  | notTrusted => "peer is not trusted"
  | pairingFailed => "pairing failed"
  | pairingExpired => "pairing offer expired"
  | malformedPayload => "malformed pairing payload"
  | rekeyRequired => "session needs rekeying"

end CryptoError

/-! ## Two devices -/

/-- The laptop of the worked examples. -/
def DeviceIdentity.laptop : DeviceIdentity :=
  { deviceId := .repeated 1, secret := ⟨.replicate 32 7⟩, publicKey := ⟨.replicate 32 8⟩ }

/-- The phone of the worked examples. -/
def DeviceIdentity.phone : DeviceIdentity :=
  { deviceId := .repeated 2, secret := ⟨.replicate 32 6⟩, publicKey := ⟨.replicate 32 9⟩ }

/-- What a ceremony leaves behind on the other device. -/
def recordOf (device : DeviceIdentity) : PairedDevice :=
  { deviceId := device.deviceId, staticPublic := device.publicKey, label := "desktop",
    platform := .linux, addresses := [], pairedAtMs := 0 }

/-! ## Fallible steps -/

/-- `map_err(|_| error)`. -/
def orError {α : Type} (error : CryptoError) : Option α → Except CryptoError α
  | some a => .ok a
  | none => .error error

@[simp] theorem orError_eq_ok {α : Type} {error : CryptoError} {o : Option α} {a : α} :
    orError error o = .ok a ↔ o = some a := by
  cases o <;> simp [orError]

/-- A fallible sequence succeeds when both of its steps do. -/
theorem bind_eq_ok {ε α β : Type} {x : Except ε α} {f : α → Except ε β} {b : β} :
    x >>= f = .ok b ↔ ∃ a, x = .ok a ∧ f a = .ok b := by
  cases x <;> simp [bind, Except.bind]

end Clipse
