import Clipse.Daemon.Ceremony

/-!
# Who lets go of the pairing state

Every task of the daemon works on one `PairingState`, which records no owner.

* `begin_pairing_iff`: when every task has ended, a new pairing is refused exactly while the state
  still waits for the proof of a connection that is gone; no connection that breaks off while its
  proof is awaited, no refusal.
* `cancel_trusts_nobody`: a cancel keeps a ceremony from adding its device, and an ending ceremony
  leaves a later one alone, as far as nothing was verified before the cancel or is verified after
  it, and as far as the state is not a later ceremony's.
* `stranger_keeps_iff`: a connection that has no part in the ceremony leaves its state alone unless
  it takes the state out: by an accept or a proof of an earlier ceremony, or by stalling.
-/

namespace Clipse
namespace PairingDaemon

section
variable [Blake3]

/-! ## `BeginPairing` -/

theorem beginPairing_cases (d : PairingDaemon) (now now' : UInt64) (nonceA : Nonce)
    (code : PairingCode) :
    (∃ r i, (d.state.expireIfStale now).2 = .idle ∧
        d.beginPairing now now' nonceA code = (.ok r, d.claim (.offering i r.2 0))) ∨
      ∃ e, (d.state.expireIfStale now).2 ≠ .idle ∧
        d.beginPairing now now' nonceA code =
          (.error e, d.setState (d.state.expireIfStale now).2) := by
  unfold beginPairing
  cases hb : (d.state.expireIfStale now).2.begin d.identity d.label d.platform d.addresses now'
    nonceA code with
  | mk r s =>
    cases r with
    | ok r =>
      obtain ⟨hs, -, rfl⟩ := PairingState.begin_eq_ok hb
      exact .inl ⟨r, _, hs, rfl⟩
    | error e =>
      obtain ⟨hs, -, rfl⟩ := PairingState.begin_eq_error hb
      exact .inr ⟨e, hs, rfl⟩

/-! ## The typing side holds its claim -/

/-- Some request still has to release the state. -/
def Claimed (d : PairingDaemon) : Prop := ∃ n t, d.typing n = some t ∧ t.claims = true

omit [Blake3] in
theorem Claimed.setTyping {d : PairingDaemon} {n : Nat} {t : Typing} (h : d.Claimed)
    (ht : t.claims = true) : (d.setTyping n (some t)).Claimed := by
  obtain ⟨m, t', hm, ht'⟩ := h
  by_cases hmn : m = n
  · exact ⟨n, t, by simp, ht⟩
  · exact ⟨m, t', by simp [hmn, hm], ht'⟩

/-- The state is claimed by a request that types only while such a request runs. -/
theorem claimed_step {d d' : PairingDaemon} {l : PairingLabel}
    (hi : d.state = .answering → d.Claimed) (hs : d.Step l d') (ha : d'.state = .answering) :
    d'.Claimed := by
  cases hs with
  | beginPairing now now' nonceA code =>
    rcases beginPairing_cases d now now' nonceA code with ⟨r, i, -, hb⟩ | ⟨e, -, hb⟩
    · simp [hb] at ha
    · rw [hb] at ha ⊢
      rcases PairingState.expireIfStale_snd d.state now with he | he
      · exact hi (he ▸ ha)
      · simp [he] at ha
  | cancelPairing | released | gaveUp | stallReleased => simp [PairingState.cancel] at ha
  | @pairWithCode n code hn h => exact ⟨n, .looking code (d.begun + 1), by simp, rfl⟩
  | pairWithCodeRefused h =>
    rcases PairingState.beginAnswering_cases d.state with ⟨-, hb⟩ | ⟨-, hb⟩
    · simp [hb] at h
    · rw [hb] at ha ⊢
      exact hi ha
  | offered | offerRejected | exhausted | confirmed | unconfirmed | acknowledged =>
    exact (hi ha).setTyping rfl
  | typed ht =>
    obtain ⟨m, t, hm, ht'⟩ := hi ha
    refine ⟨m, t, ?_, ht'⟩
    have hmn : m ≠ _ := fun he => by
      rw [he, ht] at hm
      cases hm
      cases ht'
    simp [hmn, hm]
  | lookup hn h | lookupRefused hn h =>
    have hs := PairingState.lookup_eq_of_not_offering h (by simp_all) (by simp_all)
    exact hi (hs ▸ ha)
  | answered hn h =>
    obtain ⟨awaiting, hs⟩ := (PairingState.answerAccept_eq_ok h).2
    simp [hs] at ha
  | unanswered hn h =>
    have hs := PairingState.answerAccept_eq_error h
    simp [hs] at ha
  | proved hn h | unproved hn h =>
    have hs := PairingState.finish_eq h
    simp [hs] at ha
  | opened | refused | offerSent | acceptReceived | confirmSent | finishReceived | committed
  | doneSent | failed | timedOut => exact hi ha

theorem ReachableBy.claimed {P : PairingDaemon → PairingLabel → Prop} {d : PairingDaemon}
    (h : d.ReachableBy P) : d.state = .answering → d.Claimed := by
  induction h with
  | start => exact fun h => by cases h
  | step _ _ hs ih => exact claimed_step ih hs

/-! ## A proof is awaited by a connection -/

/-- Some connection is still there to deliver the proof, or to give up waiting for it. -/
def Awaited (d : PairingDaemon) : Prop := ∃ n c, d.inbound n = some c ∧ c.awaitsProof = true

/-- No connection breaks off while the daemon waits for its proof. -/
def NoneBreaksOff (d : PairingDaemon) (l : PairingLabel) : Prop :=
  ∀ n c awaiting, l = .inbound n .fail → d.inbound n = some c → c.awaitsProof = true →
    d.state ≠ .proving awaiting

omit [Blake3] in
theorem Awaited.setInbound {d : PairingDaemon} {n : Nat} {c : Option Inbound} (h : d.Awaited)
    (hc : (∃ c', c = some c' ∧ c'.awaitsProof = true) ∨
      ∀ c', d.inbound n = some c' → c'.awaitsProof = false) : (d.setInbound n c).Awaited := by
  obtain ⟨m, c', hm, hc'⟩ := h
  rcases hc with ⟨c'', rfl, hc''⟩ | hc
  · by_cases hmn : m = n
    · exact ⟨n, c'', by simp, hc''⟩
    · exact ⟨m, c', by simp [hmn, hm], hc'⟩
  · have hmn : m ≠ n := fun he => by
      rw [hc c' (he ▸ hm)] at hc'
      cases hc'
    exact ⟨m, c', by simp [hmn, hm], hc'⟩

/-- The daemon waits for a proof only while a connection may bring it. -/
theorem awaited_step {d d' : PairingDaemon} {l : PairingLabel}
    (hi : (∃ a, d.state = .proving a) → d.Awaited) (hs : d.Step l d') (hp : d.NoneBreaksOff l)
    (ha : ∃ a, d'.state = .proving a) : d'.Awaited := by
  obtain ⟨a, ha⟩ := ha
  cases hs with
  | beginPairing now now' nonceA code =>
    rcases beginPairing_cases d now now' nonceA code with ⟨r, i, -, hb⟩ | ⟨e, -, hb⟩
    · simp [hb] at ha
    · rw [hb] at ha ⊢
      rcases PairingState.expireIfStale_snd d.state now with he | he
      · exact hi ⟨a, he ▸ ha⟩
      · simp [he] at ha
  | cancelPairing | released | gaveUp | stallReleased => simp [PairingState.cancel] at ha
  | pairWithCode code hn h =>
    rcases PairingState.beginAnswering_cases d.state with ⟨-, hb⟩ | ⟨-, hb⟩
    · simp [hb] at ha
    · simp [hb] at h
  | pairWithCodeRefused h =>
    rcases PairingState.beginAnswering_cases d.state with ⟨-, hb⟩ | ⟨-, hb⟩
    · simp [hb] at h
    · rw [hb] at ha ⊢
      exact hi ⟨a, ha⟩
  | offered | offerRejected | exhausted | confirmed | unconfirmed | acknowledged | typed =>
    exact hi ⟨a, ha⟩
  | lookup hn h | lookupRefused hn h =>
    have hs := PairingState.lookup_eq_of_not_offering h (by simp_all) (by simp_all)
    refine Awaited.setInbound (hi ⟨a, hs ▸ ha⟩) (.inr fun c hc => ?_)
    rw [inbound_setState, hn] at hc
    cases hc
    rfl
  | @answered n of _ hn _ _ _ _ h => exact ⟨n, .confirming of, by simp, rfl⟩
  | unanswered hn h =>
    have hs := PairingState.answerAccept_eq_error h
    simp [hs] at ha
  | proved hn h | unproved hn h =>
    have hs := PairingState.finish_eq h
    simp [hs] at ha
  | opened hn => exact (hi ⟨a, ha⟩).setInbound (.inr fun c hc => by simp [hn] at hc)
  | refused hn | offerSent hn | acceptReceived hn | doneSent hn =>
    refine (hi ⟨a, ha⟩).setInbound (.inr fun c hc => ?_)
    rw [hn] at hc
    cases hc
    rfl
  | committed hn =>
    refine Awaited.setInbound (hi ⟨a, ha⟩) (.inr fun c hc => ?_)
    rw [inbound_commitPairing, hn] at hc
    cases hc
    rfl
  | confirmSent | finishReceived | timedOut =>
    exact (hi ⟨a, ha⟩).setInbound (.inl ⟨_, rfl, rfl⟩)
  | failed hn hc =>
    refine (hi ⟨a, ha⟩).setInbound (.inr fun c' hc' => ?_)
    cases hw : c'.awaitsProof with
    | false => rfl
    | true => exact absurd ha (hp _ c' a rfl hc' hw)

theorem ReachableBy.awaited {d : PairingDaemon} (h : d.ReachableBy NoneBreaksOff) :
    (∃ a, d.state = .proving a) → d.Awaited := by
  induction h with
  | start => exact fun ⟨_, h⟩ => by cases h
  | step _ hp hs ih => exact awaited_step ih hs hp

/-! ## A new pairing after a broken one -/

/-- No pairing connection is open and no `PairWithCode` is running. -/
structure Quiet (d : PairingDaemon) : Prop where
  inbound : ∀ n, d.inbound n = none
  typing : ∀ n, d.typing n = none

/-- The offer that is still up, if there is one, has expired. -/
def Late (d : PairingDaemon) (now : UInt64) : Prop :=
  ∀ i e w, d.state = .offering i e w → now > e

/-- **When everything has ended, a new pairing begins exactly unless the daemon still waits for a
proof**; and it never does when no connection broke off while its proof was awaited. -/
theorem begin_pairing_iff {d : PairingDaemon} (hq : d.Quiet) {now : UInt64} (hl : d.Late now)
    (now' : UInt64) (nonceA : Nonce) (code : PairingCode) :
    (d.Reachable → ((∃ r, (d.beginPairing now now' nonceA code).1 = .ok r) ↔
      ∀ awaiting, d.state ≠ .proving awaiting)) ∧
    (d.ReachableBy NoneBreaksOff → ∃ r, (d.beginPairing now now' nonceA code).1 = .ok r) := by
  have hiff : d.Reachable → ((∃ r, (d.beginPairing now now' nonceA code).1 = .ok r) ↔
      ∀ awaiting, d.state ≠ .proving awaiting) := by
    intro h
    have hidle : (d.state.expireIfStale now).2 = .idle ↔ ∀ a, d.state ≠ .proving a := by
      cases hs : d.state with
      | idle => simp [PairingState.expireIfStale]
      | offering i e w => simp [PairingState.expireIfStale, hl i e w hs]
      | proving a => simp [PairingState.expireIfStale]
      | answering =>
        obtain ⟨n, t, ht, -⟩ := h.claimed hs
        rw [hq.typing n] at ht
        cases ht
    rw [← hidle]
    rcases beginPairing_cases d now now' nonceA code with ⟨r, i, hi, hb⟩ | ⟨e, hi, hb⟩
    · simp [hb, hi]
    · simp [hb, hi]
  refine ⟨hiff, fun h => (hiff (h.mono fun _ _ _ => trivial)).2 fun awaiting hs => ?_⟩
  obtain ⟨n, c, hn, -⟩ := h.awaited ⟨awaiting, hs⟩
  rw [hq.inbound n] at hn
  cases hn

/-- The laptop's daemon, paired with nobody. -/
def onLaptop : PairingDaemon :=
  start .laptop "laptop" .linux [] (.new DeviceIdentity.laptop.deviceId)

/-- The laptop shows its code. -/
theorem step_begin_onLaptop :
    onLaptop.Step (.beginPairing (.ok (.onScreen, 180000)))
      (onLaptop.claim (.offering .onLaptop 180000 0)) :=
  .beginPairing 0 0 .ofLaptop .onScreen

omit [Blake3] in
theorem noneBreaksOff_of_ne {d : PairingDaemon} {l : PairingLabel}
    (h : ∀ n, l ≠ .inbound n .fail) : d.NoneBreaksOff l := fun n _ _ hl => absurd hl (h n)

/-- The phone is given the offer and answers it. -/
theorem reachable_answered :
    ∃ d : PairingDaemon, d.ReachableBy NoneBreaksOff ∧
      d.state = .proving ⟨Transcript.undisturbed.mac macBLabel, PairingAccept.ofPhone.peer 2⟩ ∧
      d.inbound 0 = some (.confirming 1) ∧ (d.setInbound 0 none).Quiet := by
  have hl : (PairingState.offering .onLaptop 180000 0).lookup PairingCode.onScreen.tag 1 =
      (.offer PairingInitiator.onLaptop.offer, .offering .onLaptop 180000 0) := by
    have ht : PairingInitiator.onLaptop.answers PairingCode.onScreen.tag = true :=
      PairingInitiator.answers_tag .onLaptop
    simp [PairingState.lookup, PairingState.expireIfStale, ht]
  have ha : (PairingState.offering .onLaptop 180000 0).answerAccept .ofPhone 2 2 =
      (.ok ⟨.ofLaptop, Transcript.undisturbed.mac macALabel⟩,
        .proving ⟨Transcript.undisturbed.mac macBLabel, PairingAccept.ofPhone.peer 2⟩) := rfl
  have hgo : ∀ {d : PairingDaemon} {l : PairingLabel}, (∀ n, l ≠ .inbound n .fail) →
      d.NoneBreaksOff l := noneBreaksOff_of_ne
  have h0 : onLaptop.ReachableBy NoneBreaksOff := .start ..
  have h1 := h0.step (hgo (by simp)) step_begin_onLaptop
  have h2 := h1.step (hgo (by simp))
    (.opened (n := 0) rfl (some (.lookup PairingCode.onScreen.tag)))
  have h3 := h2.step (hgo (by simp)) (.lookup (n := 0) rfl hl)
  have h4 := h3.step (hgo (by simp)) (.offerSent (n := 0) rfl)
  have h5 := h4.step (hgo (by simp)) (.acceptReceived (n := 0) rfl .ofPhone)
  have h6 := h5.step (hgo (by simp)) (.answered (n := 0) rfl ha)
  refine ⟨_, h6, rfl, rfl, fun n => ?_, fun n => rfl⟩
  by_cases hn : n = 0 <;> simp [hn, onLaptop, start]

/-- The phone's link drops before its proof is sent. -/
theorem reachable_dropped :
    ∃ (d : PairingDaemon) (awaiting : PairingAwaitingProof),
      d.Reachable ∧ d.Quiet ∧ d.state = .proving awaiting := by
  obtain ⟨d, h, hs, hn, hq⟩ := reachable_answered
  exact ⟨d.setInbound 0 none, _, (h.mono fun _ _ _ => trivial).step trivial (.failed hn rfl), hq, hs⟩

/-- The phone's proof comes, and the laptop adds it. -/
theorem reachable_paired :
    ∃ d : PairingDaemon, d.ReachableBy NoneBreaksOff ∧ d.Quiet ∧ d.state = .idle ∧
      d.trust.isPaired DeviceIdentity.phone.deviceId := by
  obtain ⟨d, h, hs, hn, hq⟩ := reachable_answered
  have hgo : ∀ {d : PairingDaemon} {l : PairingLabel}, (∀ n, l ≠ .inbound n .fail) →
      d.NoneBreaksOff l := noneBreaksOff_of_ne
  have hf : d.state.finish ⟨Transcript.undisturbed.mac macBLabel⟩ =
      (.ok (PairingAccept.ofPhone.peer 2), .idle) := by
    simp [hs, PairingState.finish, PairingAwaitingProof.verify, Except.mapError]
  have h1 := h.step (hgo (by simp)) (.confirmSent hn)
  have h2 := h1.step (hgo (by simp))
    (.finishReceived (Function.update_self ..) ⟨Transcript.undisturbed.mac macBLabel⟩)
  have h3 := h2.step (hgo (by simp)) (.proved (Function.update_self ..) hf)
  have h4 := h3.step (hgo (by simp)) (.committed (Function.update_self ..))
  have h5 := h4.step (hgo (by simp)) (.doneSent (Function.update_self ..))
  refine ⟨_, h5, ⟨fun n => ?_, fun n => hq.typing n⟩, rfl, ?_⟩
  · have hn' := hq.inbound n
    by_cases h0 : n = 0
    · simp [h0]
    · simpa [h0] using hn'
  · exact Trust.isPaired_iff.2 ⟨_, (Trust.peer_addPeer ..).trans (if_pos rfl)⟩

end

section
attribute [local instance] Blake3.ceremony

/-- The laptop refuses every pairing after the phone's link dropped. -/
theorem not_begin_pairing :
    ¬ ∀ (d : PairingDaemon) now now' nonceA code, d.Reachable → d.Quiet → d.Late now →
      ∃ r, (d.beginPairing now now' nonceA code).1 = .ok r := by
  intro h
  obtain ⟨d, awaiting, hd, hq, hs⟩ := reachable_dropped
  have hl : d.Late 180001 := by
    intro i e w he
    rw [hs] at he
    cases he
  obtain ⟨r, hr⟩ := h d 180001 180001 .ofLaptop .onScreen hd hq hl
  simp [beginPairing, hs, PairingState.expireIfStale, PairingState.begin, PairingState.isBusy] at hr

/-- The laptop, paired with the phone, begins the next pairing. -/
theorem begin_pairing_iff_paired :
    ∃ d : PairingDaemon, d.Reachable ∧ d.trust.isPaired DeviceIdentity.phone.deviceId ∧
      ∃ r, (d.beginPairing 5 5 .ofLaptop .onScreen).1 = .ok r := by
  obtain ⟨d, h, hq, hs, hp⟩ := reachable_paired
  have hl : d.Late 5 := by
    intro i e w he
    rw [hs] at he
    cases he
  exact ⟨d, h.mono fun _ _ _ => trivial, hp,
    (begin_pairing_iff hq hl 5 .ofLaptop .onScreen).2 h⟩

end

section
variable [Blake3]

/-! ## Cancelling -/

/-- Some task of the ceremony `of` holds a device whose proof it has verified. -/
def Verified (d : PairingDaemon) (of : Nat) : Prop :=
  (∃ n t peer, d.typing n = some t ∧ t.verified = some peer ∧ t.of = of) ∨
    ∃ n peer, d.inbound n = some (.committing of peer)

/-- The step adds the device of the ceremony `of` to the trust set. -/
def Commits (d : PairingDaemon) (l : PairingLabel) (of : Nat) : Prop :=
  (∃ n t, l = .typing n .commit ∧ d.typing n = some t ∧ t.of = of) ∨
    ∃ n c, l = .inbound n .commit ∧ d.inbound n = some c ∧ c.of = of

/-- In the step a task of the ceremony `of` ends it: `pair_with_code` returns, a connection stalled,
its proof is looked at, or its accept is refused. -/
def Ends (d : PairingDaemon) (l : PairingLabel) (of : Nat) : Prop :=
  (∃ n t, l = .typing n .release ∧ d.typing n = some t ∧ t.of = of) ∨
    ∃ n c kind, l = .inbound n kind ∧ kind ∈ [.release, .prove, .answer false] ∧
      d.inbound n = some c ∧ c.of = of

/-- When a cancel is answered, no device is verified and not yet added; no request verifies one
after its ceremony was cancelled; and a task that ends finds no later ceremony at the state. -/
structure CancelInTime (d : PairingDaemon) (l : PairingLabel) : Prop where
  cancel : l = .cancelPairing → ∀ of, ¬ d.Verified of
  verify : ∀ n t, l = .typing n .verified → d.typing n = some t → d.cancelled < t.of
  ending : ∀ of, 0 < of → d.Ends l of → d.state = .idle ∨ d.owner ≤ of

/-- No ceremony that was begun before the last answered cancel adds a device, and a ceremony that
ends leaves the state of one begun after it as it is. -/
structure Respects (d : PairingDaemon) (l : PairingLabel) (d' : PairingDaemon) : Prop where
  commit : ∀ of, d.Commits l of → d.cancelled < of
  ending : ∀ of, 0 < of → d.Ends l of → of < d.owner → d'.state = d.state

/-- Whatever holds the state or a verified device was begun after the last cancel. -/
structure Uncancelled (d : PairingDaemon) : Prop where
  le : d.cancelled ≤ d.begun
  state : d.state ≠ .idle → d.cancelled < d.owner
  verified : ∀ of, d.Verified of → d.cancelled < of

omit [Blake3] in
theorem Verified.of_setTyping {d : PairingDaemon} {n of : Nat} {t : Option Typing}
    (h : (d.setTyping n t).Verified of) :
    d.Verified of ∨ ∃ t' peer, t = some t' ∧ t'.verified = some peer ∧ t'.of = of := by
  rcases h with ⟨m, t', peer, hm, hv, ho⟩ | ⟨m, peer, hm⟩
  · rw [typing_setTyping] at hm
    split at hm
    next => exact .inr ⟨t', peer, hm, hv, ho⟩
    next => exact .inl (.inl ⟨m, t', peer, hm, hv, ho⟩)
  · exact .inl (.inr ⟨m, peer, hm⟩)

omit [Blake3] in
theorem Verified.of_setInbound {d : PairingDaemon} {n of : Nat} {c : Option Inbound}
    (h : (d.setInbound n c).Verified of) :
    d.Verified of ∨ ∃ peer, c = some (.committing of peer) := by
  rcases h with h | ⟨m, peer, hm⟩
  · exact .inl (.inl h)
  · rw [inbound_setInbound] at hm
    split at hm
    next => exact .inr ⟨peer, hm⟩
    next => exact .inl (.inr ⟨m, peer, hm⟩)

omit [Blake3] in
/-- A task that steps on without a device changes nothing. -/
theorem Uncancelled.setTyping {d : PairingDaemon} {n : Nat} {t : Option Typing}
    (h : d.Uncancelled)
    (ht : ∀ t' peer, t = some t' → t'.verified = some peer → d.cancelled < t'.of) :
    (d.setTyping n t).Uncancelled :=
  ⟨h.le, h.state, fun of hv => by
    rcases hv.of_setTyping with hv | ⟨t', peer, he, hv', rfl⟩
    · exact h.verified of hv
    · exact ht t' peer he hv'⟩

omit [Blake3] in
theorem Uncancelled.setInbound {d : PairingDaemon} {n : Nat} {c : Option Inbound}
    (h : d.Uncancelled) (hc : ∀ of peer, c = some (.committing of peer) → d.cancelled < of) :
    (d.setInbound n c).Uncancelled :=
  ⟨h.le, h.state, fun of hv => by
    rcases hv.of_setInbound with hv | ⟨peer, he⟩
    · exact h.verified of hv
    · exact hc of peer he⟩

omit [Blake3] in
theorem Uncancelled.setState {d : PairingDaemon} {s : PairingState} (h : d.Uncancelled)
    (hs : s ≠ .idle → d.state ≠ .idle) : (d.setState s).Uncancelled :=
  ⟨h.le, fun hi => h.state (hs hi), h.verified⟩

omit [Blake3] in
theorem Uncancelled.claim {d : PairingDaemon} (h : d.Uncancelled) (s : PairingState) :
    (d.claim s).Uncancelled :=
  ⟨Nat.le_succ_of_le h.le, fun _ => Nat.lt_succ_of_le h.le, h.verified⟩

omit [Blake3] in
theorem Uncancelled.commitPairing {d : PairingDaemon} (h : d.Uncancelled) (peer : PairedDevice) :
    (d.commitPairing peer).Uncancelled :=
  ⟨h.le, h.state, h.verified⟩

theorem uncancelled_step {d d' : PairingDaemon} {l : PairingLabel} (h : d.Uncancelled)
    (hs : d.Step l d') (hp : d.CancelInTime l) : d'.Uncancelled := by
  cases hs with
  | beginPairing now now' nonceA code =>
    rcases beginPairing_cases d now now' nonceA code with ⟨r, i, -, hb⟩ | ⟨e, -, hb⟩
    · rw [hb]
      exact h.claim _
    · rw [hb]
      refine h.setState fun hi => ?_
      rcases PairingState.expireIfStale_snd d.state now with he | he
      · rwa [he] at hi
      · exact absurd he hi
  | cancelPairing =>
    exact ⟨Nat.le_refl _, fun hi => absurd rfl hi, fun of hv => absurd hv (hp.cancel rfl of)⟩
  | pairWithCode code hn hb =>
    refine (h.claim _).setTyping fun t' peer he hv => ?_
    cases he
    cases hv
  | pairWithCodeRefused hb =>
    refine h.setState fun hi => ?_
    rcases PairingState.beginAnswering_cases d.state with ⟨-, he⟩ | ⟨hne, -⟩
    · simp [he] at hb
    · exact hne
  | offered | offerRejected | exhausted | unconfirmed =>
    refine h.setTyping fun t' peer he hv => ?_
    cases he
    cases hv
  | confirmed ht =>
    refine h.setTyping fun t' peer he _ => ?_
    cases he
    have hlt := hp.verify _ _ rfl ht
    exact hlt
  | acknowledged ht =>
    refine h.setTyping fun t' peer he _ => ?_
    cases he
    exact h.verified _ (.inl ⟨_, _, _, ht, rfl, rfl⟩)
  | released ht =>
    refine (h.setState (fun hi => absurd rfl hi)).setTyping fun t' peer he _ => ?_
    cases he
    exact h.verified _ (.inl ⟨_, _, _, ht, rfl, rfl⟩)
  | gaveUp ht => exact (h.setState (fun hi => absurd rfl hi)).setTyping (by simp)
  | typed ht => exact (h.commitPairing _).setTyping (by simp)
  | lookup hn hl | lookupRefused hn hl =>
    refine (h.setState fun hi hd => ?_).setInbound (by simp)
    rw [hd] at hl
    cases hl <;> exact hi rfl
  | answered hn ha =>
    obtain ⟨⟨i, e, w, hd⟩, -⟩ := PairingState.answerAccept_eq_ok ha
    exact (h.setState fun _ => by simp [hd]).setInbound (by simp)
  | unanswered hn ha =>
    obtain rfl := PairingState.answerAccept_eq_error ha
    exact (h.setState fun hi => absurd rfl hi).setInbound (by simp)
  | proved hn hf =>
    obtain ⟨awaiting, hd⟩ := PairingState.finish_eq_ok hf
    obtain rfl := PairingState.finish_eq hf
    refine (h.setState fun hi => absurd rfl hi).setInbound fun of peer he => ?_
    cases he
    exact h.state (by simp [hd])
  | unproved hn hf =>
    obtain rfl := PairingState.finish_eq hf
    exact (h.setState fun hi => absurd rfl hi).setInbound (by simp)
  | committed hn => exact (h.commitPairing _).setInbound (by simp)
  | stallReleased hn => exact (h.setState fun hi => absurd rfl hi).setInbound (by simp)
  | opened | refused | offerSent | acceptReceived | confirmSent | finishReceived | doneSent
  | failed | timedOut => exact h.setInbound (by simp)

theorem ReachableBy.uncancelled {d : PairingDaemon} (h : d.ReachableBy CancelInTime) :
    d.Uncancelled := by
  induction h with
  | start => exact ⟨Nat.le_refl 0, fun h => absurd rfl h, by simp [Verified, PairingDaemon.start]⟩
  | step _ hp hs ih => exact uncancelled_step ih hs hp

/-- A step that ends a ceremony leaves `idle`. -/
theorem Ends.state_eq {d d' : PairingDaemon} {l : PairingLabel} {of : Nat} (h : d.Ends l of)
    (hs : d.Step l d') : d'.state = .idle := by
  rcases h with ⟨n, t, rfl, -, -⟩ | ⟨n, c, kind, rfl, hk, -, -⟩
  · cases hs with
    | released | gaveUp => rfl
  · simp only [List.mem_cons, List.not_mem_nil, or_false] at hk
    rcases hk with rfl | rfl | rfl
    · cases hs with
      | stallReleased => rfl
    · cases hs with
      | proved _ hf | unproved _ hf => exact PairingState.finish_eq hf
    · cases hs with
      | unanswered _ ha => exact PairingState.answerAccept_eq_error ha

/-- The device that a step adds was verified. -/
theorem Commits.verified {d d' : PairingDaemon} {l : PairingLabel} {of : Nat} (h : d.Commits l of)
    (hs : d.Step l d') : d.Verified of := by
  rcases h with ⟨n, t, rfl, ht, rfl⟩ | ⟨n, c, rfl, hc, rfl⟩
  · cases hs with
    | typed ht' =>
      rw [ht'] at ht
      cases ht
      exact .inl ⟨n, _, _, ht', rfl, rfl⟩
  · cases hs with
    | committed hn =>
      rw [hn] at hc
      cases hc
      exact .inr ⟨n, _, hn⟩

/-- **Cancelling in time means that nobody is trusted**: in every run whose steps all are
`CancelInTime`, every step respects the cancels answered and the ceremonies begun later. -/
theorem cancel_trusts_nobody {d d' : PairingDaemon} {l : PairingLabel}
    (h : d.ReachableBy CancelInTime) (hp : d.CancelInTime l) (hs : d.Step l d') :
    d.Respects l d' where
  commit of hc := h.uncancelled.verified of (hc.verified hs)
  ending of h0 he hlt := by
    rcases hp.ending of h0 he with hi | hle
    · rw [he.state_eq hs, hi]
    · omega

/-- The phone's daemon, paired with nobody. -/
def onPhone : PairingDaemon :=
  start .phone "phone" .macOs [] (.new DeviceIdentity.phone.deviceId)

theorem fromOffer_onLaptop :
    PairingResponder.fromOffer PairingInitiator.onLaptop.offer .onScreen onPhone.identity
      onPhone.label onPhone.platform onPhone.addresses 1 .ofPhone = .ok (.onPhone, .ofPhone) := rfl

/-- The user types the code and cancels at once; the laptop's proof comes after that. -/
theorem reachable_cancelled :
    ∃ d d' : PairingDaemon, d.Reachable ∧ d.Step (.typing 0 .commit) d' ∧ d.cancelled = 1 ∧
      d.Commits (.typing 0 .commit) 1 := by
  have h0 : onPhone.Reachable := .start ..
  have h1 := h0.step trivial (.pairWithCode (n := 0) .onScreen rfl rfl)
  have h2 := h1.step trivial (.offered (n := 0) rfl fromOffer_onLaptop)
  have h3 := h2.step trivial .cancelPairing
  have h4 := h3.step trivial (.confirmed (n := 0) rfl (@verify_onPhone _ 2 (by decide)))
  have h5 := h4.step trivial (.acknowledged (n := 0) rfl)
  have h6 := h5.step trivial (.released (n := 0) rfl)
  exact ⟨_, _, h6, .typed (n := 0) rfl, rfl, .inl ⟨0, _, rfl, rfl, rfl⟩⟩

omit [Blake3] in
/-- A step in which nothing is cancelled, verified or ended. -/
theorem cancelInTime_of_ne {d : PairingDaemon} {l : PairingLabel} (hc : l ≠ .cancelPairing)
    (hv : ∀ n, l ≠ .typing n .verified) (hr : ∀ n, l ≠ .typing n .release)
    (hi : ∀ n kind, l ≠ .inbound n kind) : d.CancelInTime l where
  cancel h := absurd h hc
  verify n _ h := absurd h (hv n)
  ending of _ he := by
    rcases he with ⟨n, t, h, -⟩ | ⟨n, c, kind, h, -⟩
    · exact absurd h (hr n)
    · exact absurd h (hi n kind)

/-- The user types the code and waits for the laptop. -/
theorem reachable_waited :
    ∃ d d' : PairingDaemon, d.ReachableBy CancelInTime ∧ d.CancelInTime (.typing 0 .commit) ∧
      d.Step (.typing 0 .commit) d' ∧ d.Commits (.typing 0 .commit) 1 := by
  have h0 : onPhone.ReachableBy CancelInTime := .start ..
  have h1 := h0.step (cancelInTime_of_ne (by simp) (by simp) (by simp) (by simp))
    (.pairWithCode (n := 0) .onScreen rfl rfl)
  have h2 := h1.step (cancelInTime_of_ne (by simp) (by simp) (by simp) (by simp))
    (.offered (n := 0) rfl fromOffer_onLaptop)
  have hverify : ∀ d : PairingDaemon, d.typing 0 = some (.answering .onPhone 1) →
      d.cancelled = 0 → d.CancelInTime (.typing 0 .verified) := by
    intro d ht hc
    refine ⟨nofun, fun n t hl ht' => ?_, fun of _ he => ?_⟩
    · cases hl
      rw [ht] at ht'
      cases ht'
      rw [hc]
      exact Nat.zero_lt_one
    · rcases he with ⟨n, t, h, -⟩ | ⟨n, c, kind, h, -⟩ <;> cases h
  have hrelease : ∀ (d : PairingDaemon) peer, d.typing 0 = some (.ended (.ok peer) 1) →
      d.owner = 1 → d.CancelInTime (.typing 0 .release) := by
    intro d peer ht ho
    refine ⟨nofun, nofun, fun of _ he => ?_⟩
    rcases he with ⟨n, t, h, ht', rfl⟩ | ⟨n, c, kind, h, -⟩
    · cases h
      rw [ht] at ht'
      cases ht'
      exact .inr (Nat.le_of_eq ho)
    · cases h
  have h3 := h2.step (hverify _ rfl rfl)
    (.confirmed (n := 0) rfl (@verify_onPhone _ 2 (by decide)))
  have h4 := h3.step (cancelInTime_of_ne (by simp) (by simp) (by simp) (by simp)) (.acknowledged (n := 0) rfl)
  have h5 := h4.step (hrelease _ _ rfl rfl) (.released (n := 0) rfl)
  exact ⟨_, _, h5, cancelInTime_of_ne (by simp) (by simp) (by simp) (by simp), .typed (n := 0) rfl,
    .inl ⟨0, _, rfl, rfl, rfl⟩⟩

end

section
attribute [local instance] Blake3.ceremony

/-- The laptop is trusted by the ceremony that the user cancelled. -/
theorem not_respects :
    ¬ ∀ (d d' : PairingDaemon) l, d.Reachable → d.Step l d' → d.Respects l d' := by
  intro h
  obtain ⟨d, d', hd, hs, hc, hcommit⟩ := reachable_cancelled
  have hlt := (h d d' _ hd hs).commit 1 hcommit
  rw [hc] at hlt
  exact Nat.lt_irrefl 1 hlt

/-- Where the user waits, the laptop is trusted by a ceremony that was not cancelled. -/
theorem cancel_trusts_nobody_waited :
    ∃ d d' : PairingDaemon, d.Commits (.typing 0 .commit) 1 ∧
      d.Respects (.typing 0 .commit) d' := by
  obtain ⟨d, d', hd, hp, hs, hc⟩ := reachable_waited
  exact ⟨d, d', hc, cancel_trusts_nobody hd hp hs⟩
end

section
variable [Blake3]

/-! ## Strangers -/

/-- The connection `n` has no part in the ceremony that holds the state: it was given no offer of
it, and if it is about to ask, it asks with a wrong tag. -/
structure Stranger (d : PairingDaemon) (n : Nat) : Prop where
  tag : ∀ tag, d.inbound n = some (.opened (some (.lookup tag))) →
    ∀ i e w, d.state = .offering i e w → i.answers tag = false
  other : ∀ c, d.inbound n = some c → 0 < c.of → c.of ≠ d.owner

/-- The state is as it was, up to one more wrong tag counted. -/
def Kept (s s' : PairingState) : Prop :=
  s' = s ∨ ∃ i e w, s = .offering i e w ∧ s' = .offering i e (w + 1)

omit [Blake3] in
theorem kept_idle_iff {s : PairingState} : Kept s .idle ↔ s = .idle := by
  simp [Kept, eq_comm]

omit [Blake3] in
theorem kept_refl (s : PairingState) : Kept s s := .inl rfl

/-- The stranger asks for the code: a wrong tag is counted, and an expired offer is dropped. -/
theorem stranger_lookup {d : PairingDaemon} {tag : Tag} {now : UInt64} {o : LookupOutcome}
    {s : PairingState} (ht : ∀ i e w, d.state = .offering i e w → i.answers tag = false)
    (hw : ∀ i e w, d.state = .offering i e w → w + 1 < maxLookupAttempts)
    (h : d.state.lookup tag now = (o, s)) :
    Kept d.state s ↔ ∀ i e w, d.state = .offering i e w → now ≤ e := by
  rcases PairingState.lookup_cases d.state tag now with ⟨i, e, w, hs, hn, ha, hl⟩ |
    ⟨i, e, w, hs, hn, -, -, hl⟩ | ⟨i, e, w, hs, -, -, hmax, hl⟩ | ⟨i, e, w, hs, hn, hl⟩ |
    ⟨hno, hl⟩
  all_goals
    rw [h] at hl
    cases hl
  · rw [ht i e w hs] at ha
    cases ha
  · refine ⟨fun _ i' e' w' hs' => ?_, fun _ => .inr ⟨i, e, w, hs, rfl⟩⟩
    rw [hs] at hs'
    cases hs'
    exact hn
  · have hlt := hw i e w hs
    omega
  · rw [kept_idle_iff]
    refine ⟨fun hi => by simp [hs] at hi, fun hle => ?_⟩
    exact absurd hn (UInt64.not_lt.2 (hle i e w hs))
  · exact ⟨fun _ i e w hs => absurd hs (hno i e w), fun _ => kept_refl _⟩

/-- A stranger's step keeps the state exactly when it does not take it out, nor asks for an offer
that has expired. -/
theorem stranger_step {d d' : PairingDaemon} {n : Nat} {kind : InboundKind}
    (hs : d.Step (.inbound n kind) d') (h : d.Stranger n)
    (hw : ∀ i e w, d.state = .offering i e w → w + 1 < maxLookupAttempts) :
    Kept d.state d'.state ↔ (kind.takes = true → d.state = .idle) ∧
      ∀ now i e w, kind = .lookup now → d.state = .offering i e w → now ≤ e := by
  cases hs with
  | opened | refused | offerSent | acceptReceived | confirmSent | finishReceived | committed
  | doneSent | failed | timedOut => exact iff_of_true (kept_refl _) ⟨nofun, nofun⟩
  | lookup hn hl | lookupRefused hn hl =>
    have hiff := stranger_lookup (h.tag _ hn) hw hl
    refine hiff.trans ⟨fun hle => ⟨nofun, fun now i e w hk hs => ?_⟩, fun hle i e w hs => ?_⟩
    · cases hk
      exact hle i e w hs
    · exact hle.2 _ i e w rfl hs
  | answered hn ha =>
    obtain ⟨⟨i, e, w, hd⟩, awaiting, rfl⟩ := PairingState.answerAccept_eq_ok ha
    refine iff_of_false ?_ fun hle => ?_
    · simp [Kept, hd]
    · have hi := hle.1 rfl
      rw [hd] at hi
      cases hi
  | unanswered hn ha =>
    obtain rfl := PairingState.answerAccept_eq_error ha
    exact kept_idle_iff.trans ⟨fun hi => ⟨fun _ => hi, nofun⟩, fun hle => hle.1 rfl⟩
  | proved hn hf | unproved hn hf =>
    obtain rfl := PairingState.finish_eq hf
    exact kept_idle_iff.trans ⟨fun hi => ⟨fun _ => hi, nofun⟩, fun hle => hle.1 rfl⟩
  | stallReleased hn =>
    exact kept_idle_iff.trans ⟨fun hi => ⟨fun _ => hi, nofun⟩, fun hle => hle.1 rfl⟩

/-- **What a stranger's step leaves of a ceremony**, and what a call in the wrong state leaves. A
stranger's step keeps the state exactly when it does not take it out (an accept or a proof of an
earlier ceremony, the cancel of a connection that stalled) and does not ask for an offer that has
expired. A call of `answer_accept` or `finish` in a state that it is not meant for fails, and keeps
the state only if that is `idle`. -/
theorem stranger_keeps_iff :
    (∀ (d d' : PairingDaemon) n kind, d.Step (.inbound n kind) d' → d.Stranger n →
      (∀ i e w, d.state = .offering i e w → w + 1 < maxLookupAttempts) →
      (Kept d.state d'.state ↔ (kind.takes = true → d.state = .idle) ∧
        ∀ now i e w, kind = .lookup now → d.state = .offering i e w → now ≤ e)) ∧
    (∀ (s : PairingState) accept now now', (∀ i e w, s ≠ .offering i e w) →
      (s.answerAccept accept now now').1 = .error .notInProgress ∧
        ((s.answerAccept accept now now').2 = s ↔ s = .idle)) ∧
    ∀ (s : PairingState) f, (∀ a, s ≠ .proving a) →
      (s.finish f).1 = .error .notInProgress ∧ ((s.finish f).2 = s ↔ s = .idle) := by
  refine ⟨fun d d' n kind hs h hw => stranger_step hs h hw, fun s accept now now' hno => ?_,
    fun s f hno => ?_⟩
  · rcases PairingState.answerAccept_cases s accept now now' with
      ⟨i, e, w, -, -, hs, -⟩ | ⟨i, e, w, -, hs, -⟩ | ⟨-, hr⟩
    · exact absurd hs (hno i e w)
    · exact absurd hs (hno i e w)
    · rw [hr]
      exact ⟨rfl, eq_comm⟩
  · rcases PairingState.finish_cases s f with ⟨a, hs, -⟩ | ⟨a, hs, -⟩ | ⟨-, hr⟩
    · exact absurd hs (hno a)
    · exact absurd hs (hno a)
    · rw [hr]
      exact ⟨rfl, eq_comm⟩

end

section
attribute [local instance] Blake3.ceremony

/-- A connection that asked with a wrong tag and does not read its refusal ends the laptop's offer
after 20 seconds. -/
theorem not_kept :
    ¬ ∀ (d d' : PairingDaemon) n kind, d.Reachable → d.Step (.inbound n kind) d' → d.Stranger n →
      (∀ i e w, d.state = .offering i e w → w + 1 < maxLookupAttempts) →
      Kept d.state d'.state := by
  intro h
  have ht : PairingInitiator.onLaptop.answers (.replicate 16 0xFF) = false := by decide +kernel
  have hl : (PairingState.offering .onLaptop 180000 0).lookup (.replicate 16 0xFF) 1 =
      (.refuse, .offering .onLaptop 180000 1) := by
    simp [PairingState.lookup, PairingState.expireIfStale, ht, maxLookupAttempts]
  have h0 : onLaptop.Reachable := .start ..
  have h1 := h0.step trivial step_begin_onLaptop
  have h2 := h1.step trivial (.opened (n := 0) rfl (some (.lookup (.replicate 16 0xFF))))
  have h3 := h2.step trivial (.lookupRefused (n := 0) rfl hl)
  have h4 := h3.step trivial (.timedOut (n := 0) rfl rfl)
  have hk := h _ _ 0 .release h4 (.stallReleased (n := 0) rfl)
    ⟨fun c hc => (by cases hc), fun c hc h0 => by
      cases hc
      exact absurd h0 (Nat.lt_irrefl 0)⟩
    fun i e w hs => by
      cases hs
      decide
  cases kept_idle_iff.1 hk
end

end PairingDaemon
end Clipse
