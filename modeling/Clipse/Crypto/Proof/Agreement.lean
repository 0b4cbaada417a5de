import Clipse.Core.Proof.Hash
import Clipse.Crypto.Pairing

/-!
# Agreement of the pairing ceremony

Any number of ceremonies run at once and an attacker carries their messages: whatever reaches a
device is an argument of the step it takes (`Ceremonies.Step`). What the devices computed is kept
in the run: answers, verifications, completions and tags that were accepted.

`pairing_agreement`: where BLAKE3 does not collide on what the devices of the run hashed, a proof
that one device accepts from the other binds both to one transcript, and a proof serves in no
other role. It rests on `Prefixed.encode_inj`, for the hash input is length-prefixed, and on the
four labels being different.
-/

namespace Clipse

/-! ## The transcript is hashed injectively -/

theorem le16_inj {m n : UInt16} (h : le16 m = le16 n) : m = n := by
  have hm := m.toNat_lt
  have hn := n.toNat_lt
  simp only [le16, List.cons.injEq, and_true] at h
  have h0 := congrArg UInt8.toNat h.1
  have h1 := congrArg UInt8.toNat h.2
  rw [UInt8.toNat_ofNat', UInt8.toNat_ofNat'] at h0 h1
  apply UInt16.toNat_inj.1
  omega

/-- **The hash input determines the parts.** -/
theorem transcriptInput_inj {parts parts' : List Bytes} (h : Short parts) (h' : Short parts')
    (he : transcriptInput parts = transcriptInput parts') : parts = parts' :=
  Prefixed.encode_inj (fun _ => length_le64 _) (fun _ _ => le64_inj) h h' he

/-- **Hash inputs are injective**, of content and of transcripts: lists of any length that feed the
same bytes to the hasher are the same, whatever their parts contain. -/
theorem hash_inputs_injective :
    (∀ parts parts' : List (String × Bytes), ShortParts parts → ShortParts parts' →
      partsInput parts = partsInput parts' → parts = parts') ∧
      ∀ parts parts' : List Bytes, Short parts → Short parts' →
        transcriptInput parts = transcriptInput parts' → parts = parts' :=
  ⟨fun _ _ h h' he => partsInput_inj h h' he, fun _ _ h h' he => transcriptInput_inj h h' he⟩

/-- A text with its HTML, and a transcript of three parts; and a part that looks like the framing of
another. -/
theorem hash_inputs_injective_hi :
    [("text/html", utf8 "<b>hi</b>"), ("text/plain", utf8 "hi")] =
        [("text/html", utf8 "<b>" ++ utf8 "hi</b>"), ("text/" ++ "plain", utf8 "hi")] ∧
      [tagLabel, utf8 "123456", []] = [tagLabel, utf8 "123" ++ utf8 "456", []] ∧
      partsInput [("a", ContentHash.framed "b" (utf8 "hi"))] ≠
        partsInput [("a", []), ("b", utf8 "hi")] := by
  refine ⟨hash_inputs_injective.1 _ _ ?_ ?_ (by decide),
    hash_inputs_injective.2 _ _ ?_ ?_ (by decide), fun h => ?_⟩
  · exact List.forall_mem_cons.2 ⟨by decide, List.forall_mem_singleton.2 (by decide)⟩
  · exact List.forall_mem_cons.2 ⟨by decide, List.forall_mem_singleton.2 (by decide)⟩
  · exact List.forall_mem_cons.2
      ⟨by decide, List.forall_mem_cons.2 ⟨by decide, List.forall_mem_singleton.2 (by decide)⟩⟩
  · exact List.forall_mem_cons.2
      ⟨by decide, List.forall_mem_cons.2 ⟨by decide, List.forall_mem_singleton.2 (by decide)⟩⟩
  · have hlists := hash_inputs_injective.1 _ _ (List.forall_mem_singleton.2 (by decide))
      (List.forall_mem_cons.2 ⟨by decide, List.forall_mem_singleton.2 (by decide)⟩) h
    exact absurd (congrArg List.length hlists) (by decide)

namespace Transcript

theorem parts_inj {t t' : Transcript} (h : t.parts = t'.parts) : t = t' := by
  obtain ⟨version, ⟨initiator⟩, ⟨initiatorKey⟩, ⟨responder⟩, ⟨responderKey⟩, nonceA, nonceB,
    ⟨digits, _⟩⟩ := t
  obtain ⟨version', ⟨initiator'⟩, ⟨initiatorKey'⟩, ⟨responder'⟩, ⟨responderKey'⟩, nonceA', nonceB',
    ⟨digits', _⟩⟩ := t'
  simp only [parts, List.cons.injEq, Vector.toList_inj, and_true] at h
  obtain ⟨hv, rfl, rfl, rfl, rfl, rfl, rfl, rfl⟩ := h
  obtain rfl := le16_inj hv
  rfl

theorem short_parts (t : Transcript) {label : Bytes} (hl : label.length < 2 ^ 64) :
    Short (label :: t.parts) := by
  intro p hp
  rw [List.mem_cons] at hp
  rcases hp with rfl | hp
  · exact hl
  · simp only [parts, List.mem_cons, List.not_mem_nil, or_false] at hp
    rcases hp with rfl | rfl | rfl | rfl | rfl | rfl | rfl | rfl <;> simp [le16]

end Transcript

theorem length_macALabel : macALabel.length < 2 ^ 64 := by decide

theorem length_macBLabel : macBLabel.length < 2 ^ 64 := by decide

theorem short_commit (nonce : Nonce) : Short [commitLabel, nonce.toList] := by
  have hl : commitLabel.length < 2 ^ 64 := by decide
  refine List.forall_mem_cons.2 ⟨hl, List.forall_mem_cons.2 ⟨?_, by simp⟩⟩
  simp

theorem short_tag (code : PairingCode) : Short [tagLabel, code.digits.toList] := by
  have hl : tagLabel.length < 2 ^ 64 := by decide
  refine List.forall_mem_cons.2 ⟨hl, List.forall_mem_cons.2 ⟨?_, by simp⟩⟩
  simp

section
variable [Blake3]

/-- BLAKE3 tells the inputs apart by the 16 bytes that a tag keeps. -/
def TagsCollisionFree (inputs : List Bytes) : Prop :=
  ∀ x ∈ inputs, ∀ y ∈ inputs,
    (Blake3.hash x).bytes.take 16 = (Blake3.hash y).bytes.take 16 → x = y

/-- Without a collision, equal hashes are hashes of equal parts. -/
theorem CollisionFree.parts_eq {inputs : List Bytes} (hc : CollisionFree inputs)
    {parts parts' : List Bytes} (hm : transcriptInput parts ∈ inputs)
    (hm' : transcriptInput parts' ∈ inputs) (hs : Short parts) (hs' : Short parts')
    (h : transcriptHash parts = transcriptHash parts') : parts = parts' := by
  apply transcriptInput_inj hs hs'
  apply hc _ hm _ hm'
  unfold transcriptHash at h
  cases hx : Blake3.hash (transcriptInput parts)
  cases hy : Blake3.hash (transcriptInput parts')
  rw [hx, hy] at h
  simpa using h

/-! ## Ceremonies under attack -/

/-- A call of `PairingInitiator::accept` that succeeded. -/
structure Answer where
  initiator : PairingInitiator
  accept : PairingAccept
  nowMs : UInt64
  confirm : PairingConfirm
  awaiting : PairingAwaitingProof
  ok : initiator.accept accept nowMs = .ok (confirm, awaiting)

/-- A call of `PairingResponder::verify` that succeeded. -/
structure Verification where
  responder : PairingResponder
  confirm : PairingConfirm
  nowMs : UInt64
  finish : PairingFinish
  device : PairedDevice
  ok : responder.verify confirm nowMs = .ok (finish, device)

/-- A call of `PairingAwaitingProof::verify` that succeeded. -/
structure Completion where
  answer : Answer
  finish : PairingFinish
  device : PairedDevice
  ok : answer.awaiting.verify finish = .ok device

/-- A tag that `PairingInitiator::answers` took for its own. -/
structure Hit where
  initiator : PairingInitiator
  tag : Tag
  ok : initiator.answers tag = true

/-- A's view when it answered. -/
def Answer.transcript (a : Answer) : Transcript := a.initiator.transcript a.accept

/-- B's view when it verified A's proof. -/
def Verification.transcript (v : Verification) : Transcript :=
  v.responder.transcript v.confirm.nonceA

/-- The ceremonies under way, and what the devices have computed so far. -/
structure Ceremonies where
  offering : List PairingInitiator := []
  proving : List Answer := []
  answering : List PairingResponder := []
  hits : List Hit := []
  answered : List Answer := []
  verified : List Verification := []
  completed : List Completion := []

namespace Ceremonies

/-- One step of a device. The attacker chooses every message that comes in, and may lose any
message or break a ceremony off. A value that a step consumes is gone. -/
inductive Step (c : Ceremonies) : Ceremonies → Prop
  | create (identity : DeviceIdentity) (label : String) (platform : Platform)
      (addresses : List CandidateAddress) (nowMs : UInt64) (nonceA : Nonce) (code : PairingCode) :
      c.Step { c with
        offering :=
          .create identity label platform addresses nowMs nonceA code :: c.offering }
  | lookup (h : Hit) (hi : h.initiator ∈ c.offering) : c.Step { c with hits := h :: c.hits }
  | fromOffer {offer : PairingOffer} {code : PairingCode} {identity : DeviceIdentity}
      {label : String} {platform : Platform} {addresses : List CandidateAddress} {nowMs : UInt64}
      {nonce : Nonce} {r : PairingResponder} {accept : PairingAccept}
      (h : PairingResponder.fromOffer offer code identity label platform addresses nowMs nonce =
        .ok (r, accept)) :
      c.Step { c with answering := r :: c.answering }
  | accept {l l' : List PairingInitiator} (a : Answer) (hi : c.offering = l ++ a.initiator :: l') :
      c.Step { c with
        offering := l ++ l'
        proving := a :: c.proving
        answered := a :: c.answered }
  | verify {l l' : List PairingResponder} (v : Verification)
      (hr : c.answering = l ++ v.responder :: l') :
      c.Step { c with answering := l ++ l', verified := v :: c.verified }
  | complete {l l' : List Answer} (f : Completion) (hp : c.proving = l ++ f.answer :: l') :
      c.Step { c with proving := l ++ l', completed := f :: c.completed }
  | abandon {o : List PairingInitiator} {p : List Answer} {r : List PairingResponder}
      (ho : o.Sublist c.offering) (hp : p.Sublist c.proving) (hr : r.Sublist c.answering) :
      c.Step { c with offering := o, proving := p, answering := r }

/-- What any number of ceremonies can come to. -/
inductive Reachable : Ceremonies → Prop
  | nil : Reachable {}
  | step {c c' : Ceremonies} (h : Reachable c) (hs : c.Step c') : Reachable c'

/-- What the devices hashed in the calls that succeeded. -/
def hashed (c : Ceremonies) : List Bytes :=
  (c.hits.map fun h => transcriptInput [tagLabel, h.initiator.code.digits.toList]) ++
  (c.answered.flatMap fun a =>
    [transcriptInput (macALabel :: a.transcript.parts),
      transcriptInput (macBLabel :: a.transcript.parts)]) ++
  c.verified.flatMap fun v =>
    [transcriptInput [commitLabel, v.confirm.nonceA.toList],
      transcriptInput (macALabel :: v.transcript.parts),
      transcriptInput (macBLabel :: v.transcript.parts)]

/-- The proofs that the devices sent. -/
def macs (c : Ceremonies) : List Digest :=
  c.answered.map (·.confirm.mac) ++ c.verified.map (·.finish.mac)

/-- The attacker, who does not know the code, makes up no proof: what a device accepted, a device
has sent. -/
structure Unforged (c : Ceremonies) : Prop where
  confirm : ∀ v ∈ c.verified, v.confirm.mac ∈ c.macs
  finish : ∀ f ∈ c.completed, f.finish.mac ∈ c.macs

/-! ## The invariant -/

/-- Only an answer that was given waits for a proof or is completed by one. -/
structure Answered (c : Ceremonies) : Prop where
  proving : ∀ a ∈ c.proving, a ∈ c.answered
  completed : ∀ f ∈ c.completed, f.answer ∈ c.answered

theorem answered_step {c c' : Ceremonies} (h : c.Answered) (hs : c.Step c') : c'.Answered := by
  cases hs with
  | create | lookup | fromOffer | verify => exact ⟨h.proving, h.completed⟩
  | accept a hi =>
    refine ⟨fun b hb => ?_, fun f hf => List.mem_cons_of_mem _ (h.completed f hf)⟩
    rcases List.mem_cons.1 hb with rfl | hb
    · exact List.mem_cons_self
    · exact List.mem_cons_of_mem _ (h.proving b hb)
  | complete f hp =>
    refine ⟨fun b hb => h.proving b ?_, List.forall_mem_cons.2 ⟨h.proving _ ?_, h.completed⟩⟩
    · rw [hp]
      rcases List.mem_append.1 hb with hb | hb <;> simp [hb]
    · simp [hp]
  | abandon ho hp hr => exact ⟨fun b hb => h.proving b (hp.subset hb), h.completed⟩

theorem Reachable.answered {c : Ceremonies} (h : c.Reachable) : c.Answered := by
  induction h with
  | nil => exact ⟨by simp, by simp⟩
  | step _ hs ih => exact answered_step ih hs

end Ceremonies

/-! ## What a proof binds -/

theorem Answer.confirm_mac (a : Answer) : a.confirm.mac = a.transcript.mac macALabel := by
  rw [(PairingInitiator.accept_eq_ok.1 a.ok).2.1]
  rfl

theorem Answer.expected (a : Answer) : a.awaiting.expected = a.transcript.mac macBLabel := by
  rw [(PairingInitiator.accept_eq_ok.1 a.ok).2.2]
  rfl

theorem Verification.commitment (v : Verification) :
    transcriptHash [commitLabel, v.confirm.nonceA.toList] = v.responder.offer.commitment :=
  (PairingResponder.verify_eq_ok.1 v.ok).2.1

theorem Verification.confirm_mac (v : Verification) :
    v.confirm.mac = v.transcript.mac macALabel :=
  (PairingResponder.verify_eq_ok.1 v.ok).2.2.1

theorem Verification.finish_mac (v : Verification) : v.finish.mac = v.transcript.mac macBLabel := by
  rw [(PairingResponder.verify_eq_ok.1 v.ok).2.2.2.1]
  rfl

theorem Completion.finish_mac (f : Completion) :
    f.finish.mac = f.answer.transcript.mac macBLabel := by
  rw [(PairingAwaitingProof.verify_eq_ok.1 f.ok).1, Answer.expected]

namespace Ceremonies

variable {c : Ceremonies}

theorem hashed_of_answered {a : Answer} (h : a ∈ c.answered) {label : Bytes}
    (hl : label = macALabel ∨ label = macBLabel) :
    transcriptInput (label :: a.transcript.parts) ∈ c.hashed := by
  refine List.mem_append_left _ (List.mem_append_right _ (List.mem_flatMap.2 ⟨a, h, ?_⟩))
  rcases hl with rfl | rfl <;> simp

theorem hashed_of_verified {v : Verification} (h : v ∈ c.verified) {label : Bytes}
    (hl : label = macALabel ∨ label = macBLabel) :
    transcriptInput (label :: v.transcript.parts) ∈ c.hashed := by
  refine List.mem_append_right _ (List.mem_flatMap.2 ⟨v, h, ?_⟩)
  rcases hl with rfl | rfl <;> simp

theorem hashed_commit {v : Verification} (h : v ∈ c.verified) :
    transcriptInput [commitLabel, v.confirm.nonceA.toList] ∈ c.hashed :=
  List.mem_append_right _ (List.mem_flatMap.2 ⟨v, h, by simp⟩)

theorem hashed_tag {h : Hit} (hm : h ∈ c.hits) :
    transcriptInput [tagLabel, h.initiator.code.digits.toList] ∈ c.hashed :=
  List.mem_append_left _ (List.mem_append_left _ (List.mem_map.2 ⟨h, hm, rfl⟩))

/-- A proof that was sent is the MAC, under one of the two labels, of a transcript that was
hashed. -/
theorem mem_macs {mac : Digest} (h : mac ∈ c.macs) :
    ∃ (t : Transcript) (label : Bytes), (label = macALabel ∨ label = macBLabel) ∧
      mac = t.mac label ∧ transcriptInput (label :: t.parts) ∈ c.hashed := by
  rcases List.mem_append.1 h with h | h
  · obtain ⟨a, ha, rfl⟩ := List.mem_map.1 h
    exact ⟨a.transcript, macALabel, .inl rfl, a.confirm_mac, hashed_of_answered ha (.inl rfl)⟩
  · obtain ⟨v, hv, rfl⟩ := List.mem_map.1 h
    exact ⟨v.transcript, macBLabel, .inr rfl, v.finish_mac, hashed_of_verified hv (.inr rfl)⟩

omit [Blake3] in
theorem length_label {label : Bytes} (h : label = macALabel ∨ label = macBLabel) :
    label.length < 2 ^ 64 := by
  rcases h with rfl | rfl
  · exact length_macALabel
  · exact length_macBLabel

/-- **A MAC determines its label and its transcript.** -/
theorem mac_inj (hc : CollisionFree c.hashed) {t t' : Transcript} {label label' : Bytes}
    (hl : label = macALabel ∨ label = macBLabel) (hl' : label' = macALabel ∨ label' = macBLabel)
    (ht : transcriptInput (label :: t.parts) ∈ c.hashed)
    (ht' : transcriptInput (label' :: t'.parts) ∈ c.hashed) (h : t.mac label = t'.mac label') :
    label = label' ∧ t = t' := by
  have hp := hc.parts_eq ht ht' (t.short_parts (length_label hl)) (t'.short_parts (length_label hl'))
    h
  rw [List.cons.injEq] at hp
  exact ⟨hp.1, Transcript.parts_inj hp.2⟩

omit [Blake3] in
theorem labels_ne : macALabel ≠ macBLabel := by decide

/-- No MAC is the commitment to a nonce. -/
theorem mac_ne_commitment (hc : CollisionFree c.hashed) {v : Verification} (hv : v ∈ c.verified)
    {mac : Digest} (hm : mac ∈ c.macs) : v.responder.offer.commitment ≠ mac := by
  intro h
  obtain ⟨t, label, hl, rfl, ht⟩ := mem_macs hm
  rw [← v.commitment] at h
  have hp := hc.parts_eq (hashed_commit hv) ht (short_commit _) (t.short_parts (length_label hl)) h
  rw [List.cons.injEq] at hp
  rcases hl with rfl | rfl
  · exact absurd hp.1 (by decide)
  · exact absurd hp.1 (by decide)

theorem tag_eq_of_hit (h : Hit) : h.tag = h.initiator.code.tag := by
  have hk := h.ok
  unfold PairingInitiator.answers PairingCode.matchesTag at hk
  simp only [decide_eq_true_eq, Vector.append_left_inj] at hk
  exact hk.symm

/-- The first half of a MAC is no tag. -/
theorem mac_ne_tag (hc : TagsCollisionFree c.hashed) {h : Hit} (hh : h ∈ c.hits) {mac : Digest}
    (hm : mac ∈ c.macs) : h.tag ≠ mac.take 16 := by
  intro he
  obtain ⟨t, label, hl, rfl, ht⟩ := mem_macs hm
  rw [tag_eq_of_hit h] at he
  have hi := hc _ (hashed_tag hh) _ ht he
  have hp := transcriptInput_inj (short_tag _) (t.short_parts (length_label hl)) hi
  rw [List.cons.injEq] at hp
  rcases hl with rfl | rfl
  · exact absurd hp.1 (by decide)
  · exact absurd hp.1 (by decide)

/-! ## Agreement -/

/-- A proof of A that B accepts binds B to A's transcript. -/
theorem confirm_agrees (hc : CollisionFree c.hashed) {v : Verification} (hv : v ∈ c.verified)
    {a : Answer} (ha : a ∈ c.answered) (he : v.confirm.mac = a.confirm.mac) :
    v.transcript = a.transcript := by
  rw [v.confirm_mac, a.confirm_mac] at he
  exact (mac_inj hc (.inl rfl) (.inl rfl) (hashed_of_verified hv (.inl rfl))
    (hashed_of_answered ha (.inl rfl)) he).2

/-- A proof of B that A accepts binds A to B's transcript. -/
theorem finish_agrees (h : c.Reachable) (hc : CollisionFree c.hashed) {f : Completion}
    (hf : f ∈ c.completed) {v : Verification} (hv : v ∈ c.verified)
    (he : f.finish.mac = v.finish.mac) : f.answer.transcript = v.transcript := by
  rw [f.finish_mac, v.finish_mac] at he
  exact (mac_inj hc (.inr rfl) (.inr rfl)
    (hashed_of_answered (h.answered.completed f hf) (.inr rfl))
    (hashed_of_verified hv (.inr rfl)) he).2

/-- B accepts no proof that was computed by a B. -/
theorem confirm_ne_finish (hc : CollisionFree c.hashed) {v : Verification} (hv : v ∈ c.verified)
    {v' : Verification} (hv' : v' ∈ c.verified) : v.confirm.mac ≠ v'.finish.mac := by
  intro he
  rw [v.confirm_mac, v'.finish_mac] at he
  exact labels_ne (mac_inj hc (.inl rfl) (.inr rfl) (hashed_of_verified hv (.inl rfl))
    (hashed_of_verified hv' (.inr rfl)) he).1

/-- A accepts no proof that was computed by an A. -/
theorem finish_ne_confirm (h : c.Reachable) (hc : CollisionFree c.hashed) {f : Completion}
    (hf : f ∈ c.completed) {a : Answer} (ha : a ∈ c.answered) :
    f.finish.mac ≠ a.confirm.mac := by
  intro he
  rw [f.finish_mac, a.confirm_mac] at he
  exact labels_ne.symm (mac_inj hc (.inr rfl) (.inl rfl)
    (hashed_of_answered (h.answered.completed f hf) (.inr rfl))
    (hashed_of_answered ha (.inl rfl)) he).1

/-- Whoever accepted a proof that was not made up has an honest peer at the other end. -/
def Accompanied (c : Ceremonies) : Prop :=
  (∀ v ∈ c.verified, ∃ a ∈ c.answered, v.confirm.mac = a.confirm.mac) ∧
  ∀ f ∈ c.completed, ∃ v ∈ c.verified, f.finish.mac = v.finish.mac

theorem accompanied (h : c.Reachable) (hc : CollisionFree c.hashed)
    (hu : c.Unforged) : c.Accompanied := by
  refine ⟨fun v hv => ?_, fun f hf => ?_⟩
  · rcases List.mem_append.1 (hu.confirm v hv) with hm | hm
    · obtain ⟨a, ha, he⟩ := List.mem_map.1 hm
      exact ⟨a, ha, he.symm⟩
    · obtain ⟨v', hv', he⟩ := List.mem_map.1 hm
      exact absurd he.symm (confirm_ne_finish hc hv hv')
  · rcases List.mem_append.1 (hu.finish f hf) with hm | hm
    · obtain ⟨a, ha, he⟩ := List.mem_map.1 hm
      exact absurd he.symm (finish_ne_confirm h hc hf ha)
    · obtain ⟨v, hv, he⟩ := List.mem_map.1 hm
      exact ⟨v, hv, he.symm⟩

/-- Where no proof is forged, B has a partner. -/
theorem exists_answer (h : c.Reachable) (hc : CollisionFree c.hashed) (hu : c.Unforged)
    {v : Verification} (hv : v ∈ c.verified) : ∃ a ∈ c.answered, v.transcript = a.transcript := by
  obtain ⟨a, ha, he⟩ := (accompanied h hc hu).1 v hv
  exact ⟨a, ha, confirm_agrees hc hv ha he⟩

/-- Where no proof is forged, A has a partner. -/
theorem exists_verification (h : c.Reachable) (hc : CollisionFree c.hashed) (hu : c.Unforged)
    {f : Completion} (hf : f ∈ c.completed) :
    ∃ v ∈ c.verified, f.answer.transcript = v.transcript := by
  obtain ⟨v, hv, he⟩ := (accompanied h hc hu).2 f hf
  exact ⟨v, hv, finish_agrees h hc hf hv he⟩

end Ceremonies

/-- **Pairing agreement.** In any run of any number of ceremonies under an active attacker, where
BLAKE3 does not collide on what the devices hashed: B and A hold one transcript (version, ids,
keys, nonces, code) as soon as either accepts a proof that the other computed; a proof computed in
one role is accepted neither in the other role nor as a commitment nor as a tag; and where no proof
is forged, every device that accepts one has such a partner. -/
theorem pairing_agreement {c : Ceremonies} (h : c.Reachable) (hc : CollisionFree c.hashed) :
    (∀ v ∈ c.verified, ∀ a ∈ c.answered, v.confirm.mac = a.confirm.mac →
      v.transcript = a.transcript) ∧
    (∀ f ∈ c.completed, ∀ v ∈ c.verified, f.finish.mac = v.finish.mac →
      f.answer.transcript = v.transcript) ∧
    (∀ v ∈ c.verified, ∀ v' ∈ c.verified, v.confirm.mac ≠ v'.finish.mac) ∧
    (∀ f ∈ c.completed, ∀ a ∈ c.answered, f.finish.mac ≠ a.confirm.mac) ∧
    (∀ v ∈ c.verified, ∀ mac ∈ c.macs, v.responder.offer.commitment ≠ mac) ∧
    (TagsCollisionFree c.hashed → ∀ t ∈ c.hits, ∀ mac ∈ c.macs, t.tag ≠ mac.take 16) ∧
    (c.Unforged →
      (∀ v ∈ c.verified, ∃ a ∈ c.answered, v.transcript = a.transcript) ∧
      ∀ f ∈ c.completed, ∃ v ∈ c.verified, f.answer.transcript = v.transcript) := by
  refine ⟨fun v hv a ha => ?_, fun f hf v hv => ?_, fun v hv v' hv' => ?_, fun f hf a ha => ?_,
    fun v hv mac hm => ?_, fun ht t hh mac hm => ?_, fun hu => ⟨fun v hv => ?_, fun f hf => ?_⟩⟩
  · exact Ceremonies.confirm_agrees hc hv ha
  · exact Ceremonies.finish_agrees h hc hf hv
  · exact Ceremonies.confirm_ne_finish hc hv hv'
  · exact Ceremonies.finish_ne_confirm h hc hf ha
  · exact Ceremonies.mac_ne_commitment hc hv hm
  · exact Ceremonies.mac_ne_tag ht hh hm
  · exact Ceremonies.exists_answer h hc hu hv
  · exact Ceremonies.exists_verification h hc hu hf

/-! ## One undisturbed ceremony -/

def Answer.ofLaptop : Answer where
  initiator := .onLaptop
  accept := .ofPhone
  nowMs := 2
  confirm := ⟨.ofLaptop, Transcript.undisturbed.mac macALabel⟩
  awaiting := ⟨Transcript.undisturbed.mac macBLabel, PairingAccept.ofPhone.peer 2⟩
  ok := by
    rw [PairingInitiator.accept_eq_ok, expires_onLaptop]
    exact ⟨by decide, rfl, rfl⟩

def Verification.ofPhone : Verification where
  responder := .onPhone
  confirm := ⟨.ofLaptop, Transcript.undisturbed.mac macALabel⟩
  nowMs := 3
  finish := ⟨Transcript.undisturbed.mac macBLabel⟩
  device := PairingInitiator.onLaptop.offer.peer 3
  ok := verify_onPhone (by decide)

def Completion.ofLaptop : Completion where
  answer := .ofLaptop
  finish := ⟨Transcript.undisturbed.mac macBLabel⟩
  device := PairingAccept.ofPhone.peer 2
  ok := PairingAwaitingProof.verify_eq_ok.2 ⟨rfl, rfl⟩

def Hit.ofPhone : Hit where
  initiator := .onLaptop
  tag := PairingCode.onScreen.tag
  ok := PairingInitiator.answers_tag .onLaptop

def Ceremonies.undisturbed : Ceremonies :=
  { hits := [.ofPhone], answered := [.ofLaptop], verified := [.ofPhone], completed := [.ofLaptop] }

theorem reachable_undisturbed : Ceremonies.undisturbed.Reachable := by
  have h1 := Ceremonies.Reachable.nil.step
    (.create .laptop "laptop" .linux [] 0 .ofLaptop .onScreen)
  have h2 := h1.step (.lookup .ofPhone List.mem_cons_self)
  have hr : PairingResponder.fromOffer PairingInitiator.onLaptop.offer .onScreen .phone "phone"
      .macOs [] 1 .ofPhone = .ok (.onPhone, .ofPhone) := rfl
  have h3 := h2.step (.fromOffer hr)
  have h4 := h3.step (@Ceremonies.Step.accept _ _ [] [] .ofLaptop rfl)
  have h5 := h4.step (@Ceremonies.Step.verify _ _ [] [] .ofPhone rfl)
  exact h5.step (@Ceremonies.Step.complete _ _ [] [] .ofLaptop rfl)

end

section
attribute [local instance] Blake3.ceremony

/-- The laptop and the phone of the undisturbed ceremony agree. -/
theorem pairing_agreement_undisturbed :
    Completion.ofLaptop.answer.transcript = Verification.ofPhone.transcript := by
  have hc : CollisionFree Ceremonies.undisturbed.hashed := by decide +kernel
  exact (pairing_agreement reachable_undisturbed hc).2.1 _ List.mem_cons_self _ List.mem_cons_self
    rfl

end
end Clipse
