import Clipse.Crypto.Proof.Agreement

/-!
# What a pairing record is worth (`clipse-crypto/src/pairing.rs`)

The record of a peer is put together from its offer or from its accept message. Of these the proofs
cover the version, the id and the static key. Label, platform, addresses and expiry are what the
attacker delivers: the record is the peer's own exactly if these fields came through unaltered
(`records_genuine_iff`).
-/

namespace Clipse

/-- B's record of A, and the offer that it holds, say what A offered. -/
structure PairingOffer.Genuine (sent seen : PairingOffer) (device : PairedDevice) : Prop where
  deviceId : device.deviceId = sent.deviceId
  staticPublic : device.staticPublic = sent.staticPublic
  label : device.label = sent.label
  platform : device.platform = sent.platform
  addresses : device.addresses = sent.addresses
  version : seen.version = sent.version
  expiresAtMs : seen.expiresAtMs = sent.expiresAtMs

/-- A's record of B says what B sent. -/
structure PairingAccept.Genuine (sent : PairingAccept) (device : PairedDevice) : Prop where
  deviceId : device.deviceId = sent.deviceId
  staticPublic : device.staticPublic = sent.staticPublic
  label : device.label = sent.label
  platform : device.platform = sent.platform
  addresses : device.addresses = sent.addresses

/-- The fields of an offer that no proof covers. -/
def PairingOffer.unproved (o : PairingOffer) : String × Platform × List CandidateAddress × UInt64 :=
  (o.label, o.platform, o.addresses, o.expiresAtMs)

/-- The fields of an accept message that no proof covers. -/
def PairingAccept.unproved (a : PairingAccept) : String × Platform × List CandidateAddress :=
  (a.label, a.platform, a.addresses)

section
variable [Blake3]

theorem Verification.device_eq (v : Verification) : v.device = v.responder.offer.peer v.nowMs :=
  (PairingResponder.verify_eq_ok.1 v.ok).2.2.2.2

theorem Completion.device_eq (f : Completion) :
    f.device = f.answer.accept.peer f.answer.nowMs := by
  rw [(PairingAwaitingProof.verify_eq_ok.1 f.ok).2, (PairingInitiator.accept_eq_ok.1 f.answer.ok).2.2]

/-- B's view is A's: the rest of the record decides. -/
theorem Verification.genuine_iff {v : Verification} {a : Answer} (h : v.transcript = a.transcript) :
    a.initiator.offer.Genuine v.responder.offer v.device ↔
      v.responder.offer.unproved = a.initiator.offer.unproved := by
  have hid : v.responder.offer.deviceId = a.initiator.offer.deviceId :=
    congrArg Transcript.initiator h
  have hkey : v.responder.offer.staticPublic = a.initiator.offer.staticPublic :=
    congrArg Transcript.initiatorKey h
  have hversion : v.responder.offer.version = a.initiator.offer.version :=
    congrArg Transcript.version h
  rw [v.device_eq, PairingOffer.unproved, PairingOffer.unproved]
  constructor
  · intro hg
    rw [Prod.mk.injEq, Prod.mk.injEq, Prod.mk.injEq]
    exact ⟨hg.label, hg.platform, hg.addresses, hg.expiresAtMs⟩
  · intro hu
    rw [Prod.mk.injEq, Prod.mk.injEq, Prod.mk.injEq] at hu
    obtain ⟨hlabel, hplatform, haddresses, hexpires⟩ := hu
    exact ⟨hid, hkey, hlabel, hplatform, haddresses, hversion, hexpires⟩

/-- A's view is B's. -/
theorem Completion.genuine_iff {f : Completion} {v : Verification}
    (h : f.answer.transcript = v.transcript) :
    v.responder.accept.Genuine f.device ↔
      f.answer.accept.unproved = v.responder.accept.unproved := by
  have hid : f.answer.accept.deviceId = v.responder.accept.deviceId :=
    congrArg Transcript.responder h
  have hkey : f.answer.accept.staticPublic = v.responder.accept.staticPublic :=
    congrArg Transcript.responderKey h
  rw [f.device_eq, PairingAccept.unproved, PairingAccept.unproved]
  constructor
  · intro hg
    rw [Prod.mk.injEq, Prod.mk.injEq]
    exact ⟨hg.label, hg.platform, hg.addresses⟩
  · intro hu
    rw [Prod.mk.injEq, Prod.mk.injEq] at hu
    obtain ⟨hlabel, hplatform, haddresses⟩ := hu
    exact ⟨hid, hkey, hlabel, hplatform, haddresses⟩

namespace Ceremonies

/-- Every record that was returned on the proof of an honest peer says what that peer sent. -/
def RecordsGenuine (c : Ceremonies) : Prop :=
  (∀ v ∈ c.verified, ∀ a ∈ c.answered, v.confirm.mac = a.confirm.mac →
    a.initiator.offer.Genuine v.responder.offer v.device) ∧
  ∀ f ∈ c.completed, ∀ v ∈ c.verified, f.finish.mac = v.finish.mac →
    v.responder.accept.Genuine f.device

/-- The attacker leaves the fields alone that no proof covers. -/
def Unaltered (c : Ceremonies) : Prop :=
  (∀ v ∈ c.verified, ∀ a ∈ c.answered, v.confirm.mac = a.confirm.mac →
    v.responder.offer.unproved = a.initiator.offer.unproved) ∧
  ∀ f ∈ c.completed, ∀ v ∈ c.verified, f.finish.mac = v.finish.mac →
    f.answer.accept.unproved = v.responder.accept.unproved

end Ceremonies

/-- **The pairing records** of any run under an active attacker are what the honest peers sent
exactly if the fields that no proof covers came through unaltered. -/
theorem records_genuine_iff {c : Ceremonies} (h : c.Reachable) (hc : CollisionFree c.hashed) :
    (c.RecordsGenuine ↔ c.Unaltered) ∧ (c.Unforged → c.Accompanied) := by
  refine ⟨and_congr ?_ ?_, Ceremonies.accompanied h hc⟩
  · refine forall₂_congr fun v hv => forall₂_congr fun a ha => forall_congr' fun he => ?_
    exact Verification.genuine_iff (Ceremonies.confirm_agrees hc hv ha he)
  · refine forall₂_congr fun f hf => forall₂_congr fun v hv => forall_congr' fun he => ?_
    exact Completion.genuine_iff (Ceremonies.finish_agrees h hc hf hv he)

/-! ## A relabelled offer -/

/-- The laptop's offer under another name, with an address that leads elsewhere. -/
def PairingOffer.relabelled : PairingOffer :=
  { PairingInitiator.onLaptop.offer with
    label := "printer"
    addresses := [.lan (.v4 #v[192, 168, 1, 66] 7700)] }

/-- The phone's ceremony with that offer. -/
def PairingResponder.misled : PairingResponder :=
  { PairingResponder.onPhone with offer := .relabelled }

/-- The laptop's proof is good all the same. -/
def Verification.misled : Verification where
  responder := .misled
  confirm := ⟨.ofLaptop, Transcript.undisturbed.mac macALabel⟩
  nowMs := 3
  finish := ⟨Transcript.undisturbed.mac macBLabel⟩
  device := PairingOffer.relabelled.peer 3
  ok := by
    have hexpires : PairingResponder.misled.offer.expiresAtMs = 180000 := rfl
    rw [PairingResponder.verify_eq_ok, hexpires]
    exact ⟨by decide, rfl, rfl, rfl, rfl⟩

def Ceremonies.relabelled : Ceremonies :=
  { proving := [.ofLaptop], answered := [.ofLaptop], verified := [.misled] }

theorem reachable_relabelled : Ceremonies.relabelled.Reachable := by
  have h1 := Ceremonies.Reachable.nil.step
    (.create .laptop "laptop" .linux [] 0 .ofLaptop .onScreen)
  have hr : PairingResponder.fromOffer .relabelled .onScreen .phone "phone" .macOs [] 1 .ofPhone =
      .ok (.misled, .ofPhone) := rfl
  have h2 := h1.step (.fromOffer hr)
  have h3 := h2.step (@Ceremonies.Step.accept _ _ [] [] .ofLaptop rfl)
  exact h3.step (@Ceremonies.Step.verify _ _ [] [] .misled rfl)

end

section
attribute [local instance] Blake3.ceremony

/-- The phone stores the laptop under a name and an address that the laptop never sent. -/
theorem not_records_genuine :
    ¬ ∀ c : Ceremonies, c.Reachable → CollisionFree c.hashed → c.Unforged → c.RecordsGenuine := by
  intro h
  have hc : CollisionFree Ceremonies.relabelled.hashed := by decide +kernel
  have hu : Ceremonies.relabelled.Unforged := by
    refine ⟨fun v hv => ?_, fun f hf => by cases hf⟩
    obtain rfl := List.mem_singleton.1 hv
    exact List.mem_append_left _ (List.mem_singleton_self _)
  have hg := (h _ reachable_relabelled hc hu).1 .misled (List.mem_singleton_self _) .ofLaptop
    (List.mem_singleton_self _) rfl
  have hlabel : "printer" = "laptop" := hg.label
  exact absurd hlabel (by decide)

/-- In the undisturbed ceremony both records are what the other sent. -/
theorem records_genuine_undisturbed : Ceremonies.undisturbed.RecordsGenuine := by
  have hc : CollisionFree Ceremonies.undisturbed.hashed := by decide +kernel
  refine (records_genuine_iff reachable_undisturbed hc).1.2 ⟨fun v hv a ha _ => ?_,
    fun f hf v hv _ => ?_⟩
  · obtain rfl := List.mem_singleton.1 hv
    obtain rfl := List.mem_singleton.1 ha
    rfl
  · obtain rfl := List.mem_singleton.1 hf
    obtain rfl := List.mem_singleton.1 hv
    rfl

end
end Clipse
