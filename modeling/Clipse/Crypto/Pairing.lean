import Clipse.Core.Clip
import Clipse.Crypto.Device
import Clipse.Lib.Prefixed

/-!
# The pairing ceremony (`clipse-crypto/src/pairing.rs`)

Device A shows six digits, the user types them on device B, and each side proves to the other
that it hashed the same transcript: both ids, both static keys, both nonces and the code. The
nonces and the digits that the code draws at random are arguments here.
-/

namespace Clipse

/-- `PAIRING_PROTOCOL_VERSION`. -/
def pairingProtocolVersion : UInt16 := 2

/-- `PAIRING_OFFER_TTL_SECS`. -/
def pairingOfferTtlSecs : UInt64 := 180

/-- `MAX_LOOKUP_ATTEMPTS`. -/
def maxLookupAttempts : Nat := 8

def commitLabel : Bytes := utf8 "clipse-pairing-commit-v2"
def tagLabel : Bytes := utf8 "clipse-pairing-tag-v2"
def macALabel : Bytes := utf8 "clipse-pairing-mac-initiator-v2"
def macBLabel : Bytes := utf8 "clipse-pairing-mac-responder-v2"

abbrev Digest := Vector UInt8 32
abbrev Nonce := Vector UInt8 32
abbrev Tag := Vector UInt8 16

/-- What `transcript_hash` feeds to the hasher. -/
def transcriptInput (parts : List Bytes) : Bytes :=
  Prefixed.encode (fun n => le64 (UInt64.ofNat n)) parts

/-- `transcript_hash`. -/
def transcriptHash [Blake3] (parts : List Bytes) : Digest :=
  (Blake3.hash (transcriptInput parts)).bytes

/-- `u16::to_le_bytes`. -/
def le16 (n : UInt16) : Bytes := [UInt8.ofNat (n.toNat % 256), UInt8.ofNat (n.toNat / 256)]

/-! ## The code -/

/-- `PairingCode([u8; 6])`: six decimal digits. -/
structure PairingCode where
  digits : Vector UInt8 6
  decimal : ∀ d ∈ digits.toList, d < 10
deriving DecidableEq

namespace PairingCode

/-- `char::to_digit(10)`. -/
def toDigit (c : Char) : Option UInt8 :=
  if '0' ≤ c ∧ c ≤ '9' then some (UInt8.ofNat (c.toNat - 48)) else none

theorem toDigit_lt {c : Char} {d : UInt8} (h : toDigit c = some d) : d < 10 := by
  unfold toDigit at h
  split at h
  next hc =>
    obtain rfl := Option.some.inj h
    have hle : c.toNat ≤ 57 := hc.2
    rw [UInt8.lt_iff_toNat_lt, UInt8.toNat_ofNat']
    show (c.toNat - 48) % 256 < 10
    omega
  next => cases h

/-- The loop of `parse`: the digits of a text, separators left out, at most `room` of them. -/
def digitsOf : Nat → List Char → Except CryptoError (List UInt8)
  | _, [] => .ok []
  | room, c :: cs =>
    if isWhitespace c || c = '-' || c = '_' then digitsOf room cs
    else
      match toDigit c, room with
      | none, _ => .error .malformedPayload
      | some _, 0 => .error .malformedPayload
      | some d, room + 1 => do
        let ds ← digitsOf room cs
        return d :: ds

theorem digitsOf_lt : ∀ {room : Nat} {cs : List Char} {ds : List UInt8},
    digitsOf room cs = .ok ds → ∀ d ∈ ds, d < 10
  | _, [], ds, h => by
    cases h
    simp
  | room, c :: cs, ds, h => by
    unfold digitsOf at h
    split at h
    next => exact digitsOf_lt h
    next =>
      split at h
      next => cases h
      next => cases h
      next d room hd =>
        rw [bind_eq_ok] at h
        obtain ⟨ds', hds', h⟩ := h
        cases h
        exact List.forall_mem_cons.2 ⟨toDigit_lt hd, digitsOf_lt hds'⟩

/-- `PairingCode::parse`: what the user typed, with spaces, dashes and underscores ignored. -/
def parse (text : String) : Except CryptoError PairingCode :=
  match h : digitsOf 6 text.toList with
  | .error e => .error e
  | .ok ds =>
    if hl : ds.length = 6 then
      .ok { digits := ⟨ds.toArray, by simpa using hl⟩, decimal := by simpa using digitsOf_lt h }
    else .error .malformedPayload

variable [Blake3]

/-- `PairingCode::tag`: which offer the code is for. -/
def tag (code : PairingCode) : Tag :=
  (transcriptHash [tagLabel, code.digits.toList]).take 16

/-- `PairingCode::matches_tag`. Both sides are padded in the same way before they are compared. -/
def matchesTag (code : PairingCode) (candidate : Tag) : Bool :=
  code.tag ++ Vector.replicate 16 (0 : UInt8) = candidate ++ Vector.replicate 16 (0 : UInt8)

end PairingCode

/-! ## Messages -/

/-- `PairingOffer`: what A hands to whoever presents the right tag. -/
structure PairingOffer where
  version : UInt16
  deviceId : DeviceId
  staticPublic : DevicePublicKey
  label : String
  platform : Platform
  addresses : List CandidateAddress
  commitment : Digest
  expiresAtMs : UInt64
deriving DecidableEq

/-- `PairingAccept`: B's identity and its half of the nonces. -/
structure PairingAccept where
  deviceId : DeviceId
  staticPublic : DevicePublicKey
  label : String
  platform : Platform
  addresses : List CandidateAddress
  nonce : Nonce
deriving DecidableEq

/-- The record of B that A keeps if the ceremony succeeds. -/
def PairingAccept.peer (accept : PairingAccept) (nowMs : UInt64) : PairedDevice where
  deviceId := accept.deviceId
  staticPublic := accept.staticPublic
  label := accept.label
  platform := accept.platform
  addresses := accept.addresses
  pairedAtMs := nowMs

/-- The record of A that B keeps if the ceremony succeeds. -/
def PairingOffer.peer (offer : PairingOffer) (nowMs : UInt64) : PairedDevice where
  deviceId := offer.deviceId
  staticPublic := offer.staticPublic
  label := offer.label
  platform := offer.platform
  addresses := offer.addresses
  pairedAtMs := nowMs

/-- `PairingConfirm`: A's nonce and A's proof. -/
structure PairingConfirm where
  nonceA : Nonce
  mac : Digest
deriving DecidableEq

/-- `PairingFinish`: B's proof. -/
structure PairingFinish where
  mac : Digest
deriving DecidableEq

/-- `PairingWire`: a frame of the ceremony. -/
inductive PairingWire where
  | lookup (tag : Tag)
  | offer (offer : PairingOffer)
  | accept (accept : PairingAccept)
  | confirm (confirm : PairingConfirm)
  | finish (finish : PairingFinish)
  | done
  | refused
deriving DecidableEq

/-- `Transcript`: everything that both sides hash. -/
structure Transcript where
  version : UInt16
  initiator : DeviceId
  initiatorKey : DevicePublicKey
  responder : DeviceId
  responderKey : DevicePublicKey
  nonceA : Nonce
  nonceB : Nonce
  code : PairingCode
deriving DecidableEq

namespace Transcript

/-- The parts that `Transcript::mac` hashes behind its label. -/
def parts (t : Transcript) : List Bytes :=
  [le16 t.version, t.initiator.bytes.toList, t.initiatorKey.bytes.toList,
    t.responder.bytes.toList, t.responderKey.bytes.toList, t.nonceA.toList, t.nonceB.toList,
    t.code.digits.toList]

/-- `Transcript::mac`. -/
def mac [Blake3] (t : Transcript) (label : Bytes) : Digest := transcriptHash (label :: t.parts)

end Transcript

/-! ## Device A -/

/-- `PairingInitiator`. -/
structure PairingInitiator where
  offer : PairingOffer
  nonceA : Nonce
  code : PairingCode
deriving DecidableEq

/-- `PairingAwaitingProof`: A has answered and waits for B's proof. -/
structure PairingAwaitingProof where
  expected : Digest
  peer : PairedDevice
deriving DecidableEq

section
variable [Blake3]

namespace PairingInitiator

/-- `PairingInitiator::create`. -/
def create (identity : DeviceIdentity) (label : String) (platform : Platform)
    (addresses : List CandidateAddress) (nowMs : UInt64) (nonceA : Nonce) (code : PairingCode) :
    PairingInitiator where
  offer :=
    { version := pairingProtocolVersion
      deviceId := identity.deviceId
      staticPublic := identity.publicKey
      label, platform, addresses
      commitment := transcriptHash [commitLabel, nonceA.toList]
      expiresAtMs := saturatingAdd nowMs (pairingOfferTtlSecs * 1000) }
  nonceA
  code

/-- `PairingInitiator::answers`. -/
def answers (i : PairingInitiator) (tag : Tag) : Bool := i.code.matchesTag tag

/-- A's view of the ceremony. -/
def transcript (i : PairingInitiator) (accept : PairingAccept) : Transcript where
  version := i.offer.version
  initiator := i.offer.deviceId
  initiatorKey := i.offer.staticPublic
  responder := accept.deviceId
  responderKey := accept.staticPublic
  nonceA := i.nonceA
  nonceB := accept.nonce
  code := i.code

/-- `PairingInitiator::accept`. -/
def accept (i : PairingInitiator) (accept : PairingAccept) (nowMs : UInt64) :
    Except CryptoError (PairingConfirm × PairingAwaitingProof) :=
  if nowMs > i.offer.expiresAtMs then .error .pairingExpired
  else
    .ok
      ({ nonceA := i.nonceA, mac := (i.transcript accept).mac macALabel },
       { expected := (i.transcript accept).mac macBLabel, peer := accept.peer nowMs })

theorem accept_eq_ok {i : PairingInitiator} {accept : PairingAccept} {nowMs : UInt64}
    {confirm : PairingConfirm} {awaiting : PairingAwaitingProof} :
    i.accept accept nowMs = .ok (confirm, awaiting) ↔
      nowMs ≤ i.offer.expiresAtMs ∧
        confirm = ⟨i.nonceA, (i.transcript accept).mac macALabel⟩ ∧
        awaiting = ⟨(i.transcript accept).mac macBLabel, accept.peer nowMs⟩ := by
  unfold PairingInitiator.accept
  by_cases h : nowMs > i.offer.expiresAtMs
  · simp [h, UInt64.not_le.2 h]
  · simp [h, UInt64.not_lt.1 h, eq_comm]

end PairingInitiator

end

/-- `PairingAwaitingProof::verify`. -/
def PairingAwaitingProof.verify (awaiting : PairingAwaitingProof) (finish : PairingFinish) :
    Except CryptoError PairedDevice :=
  if finish.mac ≠ awaiting.expected then .error .pairingFailed else .ok awaiting.peer

theorem PairingAwaitingProof.verify_eq_ok {awaiting : PairingAwaitingProof}
    {finish : PairingFinish} {device : PairedDevice} :
    awaiting.verify finish = .ok device ↔
      finish.mac = awaiting.expected ∧ device = awaiting.peer := by
  unfold PairingAwaitingProof.verify
  by_cases h : finish.mac = awaiting.expected <;> simp [h, eq_comm]

/-! ## Device B -/

/-- `PairingResponder`. -/
structure PairingResponder where
  offer : PairingOffer
  nonceB : Nonce
  accept : PairingAccept
  code : PairingCode
deriving DecidableEq

namespace PairingResponder

/-- `PairingResponder::from_offer`. -/
def fromOffer (offer : PairingOffer) (code : PairingCode) (identity : DeviceIdentity)
    (label : String) (platform : Platform) (addresses : List CandidateAddress) (nowMs : UInt64)
    (nonce : Nonce) : Except CryptoError (PairingResponder × PairingAccept) :=
  if offer.version ≠ pairingProtocolVersion then .error .malformedPayload
  else if nowMs > offer.expiresAtMs then .error .pairingExpired
  else
    let accept : PairingAccept :=
      { deviceId := identity.deviceId, staticPublic := identity.publicKey, label, platform,
        addresses, nonce }
    .ok ({ offer, nonceB := accept.nonce, accept, code }, accept)

/-- B's view of the ceremony, once it has seen A's nonce. -/
def transcript (r : PairingResponder) (nonceA : Nonce) : Transcript where
  version := r.offer.version
  initiator := r.offer.deviceId
  initiatorKey := r.offer.staticPublic
  responder := r.accept.deviceId
  responderKey := r.accept.staticPublic
  nonceA
  nonceB := r.nonceB
  code := r.code

/-- `PairingResponder::verify`: expiry, the commitment, A's proof, in this order. -/
def verify [Blake3] (r : PairingResponder) (confirm : PairingConfirm) (nowMs : UInt64) :
    Except CryptoError (PairingFinish × PairedDevice) :=
  if nowMs > r.offer.expiresAtMs then .error .pairingExpired
  else if transcriptHash [commitLabel, confirm.nonceA.toList] ≠ r.offer.commitment then
    .error .pairingFailed
  else if confirm.mac ≠ (r.transcript confirm.nonceA).mac macALabel then .error .pairingFailed
  else
    .ok
      ({ mac := (r.transcript confirm.nonceA).mac macBLabel }, r.offer.peer nowMs)

theorem verify_eq_ok [Blake3] {r : PairingResponder} {confirm : PairingConfirm} {nowMs : UInt64}
    {finish : PairingFinish} {device : PairedDevice} :
    r.verify confirm nowMs = .ok (finish, device) ↔
      nowMs ≤ r.offer.expiresAtMs ∧
        transcriptHash [commitLabel, confirm.nonceA.toList] = r.offer.commitment ∧
        confirm.mac = (r.transcript confirm.nonceA).mac macALabel ∧
        finish = ⟨(r.transcript confirm.nonceA).mac macBLabel⟩ ∧ device = r.offer.peer nowMs := by
  unfold PairingResponder.verify
  by_cases he : nowMs > r.offer.expiresAtMs
  · simp [he, UInt64.not_le.2 he]
  by_cases hc : transcriptHash [commitLabel, confirm.nonceA.toList] = r.offer.commitment
  · by_cases hm : confirm.mac = (r.transcript confirm.nonceA).mac macALabel <;>
      simp [he, hc, hm, UInt64.not_lt.1 he, eq_comm]
  · simp [he, hc]

end PairingResponder

/-! ## The digests of one ceremony -/

/-- The digits on the laptop's screen. -/
def PairingCode.onScreen : PairingCode := ⟨#v[4, 8, 2, 9, 1, 3], by decide +kernel⟩

/-- The nonces that the laptop and the phone draw. -/
def Nonce.ofLaptop : Nonce := .replicate 32 0xA1
def Nonce.ofPhone : Nonce := .replicate 32 0xB2

/-- What the laptop and the phone both see when nobody interferes. -/
def Transcript.undisturbed : Transcript where
  version := pairingProtocolVersion
  initiator := DeviceIdentity.laptop.deviceId
  initiatorKey := DeviceIdentity.laptop.publicKey
  responder := DeviceIdentity.phone.deviceId
  responderKey := DeviceIdentity.phone.publicKey
  nonceA := .ofLaptop
  nonceB := .ofPhone
  code := .onScreen

/-- BLAKE3 on what the two devices hash in that ceremony. -/
@[reducible] def Blake3.ceremony : Blake3 where
  hash bytes :=
    if bytes = transcriptInput [commitLabel, Nonce.ofLaptop.toList] then
      { bytes :=
        #v[0x22, 0x76, 0x7b, 0xa5, 0x7c, 0x06, 0x90, 0x88, 0xa2, 0x46, 0x1d, 0x83, 0xe1, 0xc3, 0x7b,
      0xbe, 0x7a, 0xb5, 0x61, 0x66, 0x55, 0xdf, 0xf8, 0x86, 0x4e, 0x39, 0x22, 0xe2, 0x05, 0x77,
      0x5c, 0xf4] }
    else if bytes = transcriptInput [tagLabel, PairingCode.onScreen.digits.toList] then
      { bytes :=
        #v[0x8a, 0x00, 0x55, 0x68, 0xbf, 0xbf, 0xe5, 0x9e, 0xb9, 0xa8, 0x63, 0xae, 0xf2, 0x76, 0x81,
      0x93, 0x79, 0xcc, 0xe3, 0xcb, 0xa5, 0x44, 0xaf, 0x48, 0xe5, 0xf7, 0x9f, 0xf6, 0x66, 0xc6,
      0x24, 0x27] }
    else if bytes = transcriptInput (macALabel :: Transcript.undisturbed.parts) then
      { bytes :=
        #v[0x5b, 0x29, 0xf7, 0x8a, 0x55, 0x6a, 0xec, 0x67, 0x9d, 0x32, 0x18, 0x6e, 0xc2, 0xe6, 0x1a,
      0x62, 0x81, 0xec, 0xbd, 0x93, 0x8d, 0x3d, 0xe3, 0x9d, 0xd5, 0x3e, 0x6c, 0x1e, 0xa2, 0xd2,
      0xdb, 0xc9] }
    else if bytes = transcriptInput (macBLabel :: Transcript.undisturbed.parts) then
      { bytes :=
        #v[0x8e, 0x4c, 0x4d, 0x08, 0xcb, 0x6f, 0xbb, 0x13, 0x05, 0xad, 0x07, 0xd1, 0x3a, 0xee, 0xdf,
      0x4f, 0xd8, 0xb8, 0x58, 0x81, 0xfe, 0x01, 0x90, 0xeb, 0xa8, 0xbb, 0x0a, 0x86, 0x98, 0x14,
      0xde, 0xb2] }
    else { bytes := .replicate 32 0 }

section
variable [Blake3]

/-- The laptop's ceremony. -/
def PairingInitiator.onLaptop : PairingInitiator :=
  .create .laptop "laptop" .linux [] 0 .ofLaptop .onScreen

theorem expires_onLaptop : PairingInitiator.onLaptop.offer.expiresAtMs = 180000 := rfl

/-- The phone's answer to it. -/
def PairingAccept.ofPhone : PairingAccept :=
  { deviceId := DeviceIdentity.phone.deviceId, staticPublic := DeviceIdentity.phone.publicKey,
    label := "phone", platform := .macOs, addresses := [], nonce := .ofPhone }

/-- The phone's ceremony. -/
def PairingResponder.onPhone : PairingResponder :=
  { offer := PairingInitiator.onLaptop.offer, nonceB := .ofPhone, accept := .ofPhone,
    code := .onScreen }

theorem transcript_onPhone : PairingResponder.onPhone.transcript .ofLaptop = .undisturbed := rfl

/-- The phone accepts the laptop's proof in time. -/
theorem verify_onPhone {nowMs : UInt64} (h : nowMs ≤ 180000) :
    PairingResponder.onPhone.verify ⟨.ofLaptop, Transcript.undisturbed.mac macALabel⟩ nowMs =
      .ok (⟨Transcript.undisturbed.mac macBLabel⟩, PairingInitiator.onLaptop.offer.peer nowMs) := by
  rw [PairingResponder.verify_eq_ok, transcript_onPhone]
  exact ⟨h, rfl, rfl, rfl, rfl⟩

/-- A code answers to its own tag. -/
theorem PairingInitiator.answers_tag (i : PairingInitiator) : i.answers i.code.tag = true := by
  simp [PairingInitiator.answers, PairingCode.matchesTag]

end

end Clipse
