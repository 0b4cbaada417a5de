import Clipse.Lib.Rest
import Clipse.Net.Pack
import Clipse.Net.Proof.Carry
import Clipse.Sync.Proof.Blobs
import Clipse.Sync.Proof.Deadlock

/-!
# Sessions and the thresholds of their links

Nothing rekeys a session: it lasts as long as its frames fit. Every run of a link comes to the same
end, so what one run shows of a session over its links holds for all of them.

* `crypto_iff`: two ends that read in order never fail with a crypto error exactly when their
  traffic over perfect links fits, as far as its messages can be sent at all.
* `survives_iff`: the same for the sessions of two devices after a handshake.
-/

namespace Clipse

open Duplex

section
variable [Snow] [MessagePack] {α : Type} {N : Noise} {k k' : N.Key} {c c' : Link syncWire α}
  {w : Link linkWire α}

/-- An end has failed with a crypto error. -/
def CryptoFailed (w : Link linkWire α) : Prop :=
  ∃ e, w.1.proc = .fail (.link (.crypto e)) ∨ w.2.proc = .fail (.link (.crypto e))

/-- All messages that the ends have sent have encodings that are not too large. -/
def Sends (c : Link syncWire α) : Prop := ∀ m ∈ c.1.sent ++ c.2.sent, Sendable m

/-- The frames of both ends' traffic fit. -/
def TrafficFits (c : Link syncWire α) : Prop :=
  Fits (frameSizes c.1.log) ∧ Fits (frameSizes c.2.log)

omit [MessagePack] in
theorem CryptoFailed.swap (h : CryptoFailed w) : CryptoFailed w.swap := by
  obtain ⟨e, h⟩ := h
  exact ⟨e, h.symm⟩

omit [Snow] in
theorem Sends.swap (h : Sends c) : Sends c.swap := fun m hm =>
  h m (List.mem_append.2 (List.mem_append.1 hm).symm)

omit [MessagePack] in
/-- A crypto error is for good. -/
theorem CryptoFailed.steps {w' : Link linkWire α} (h : CryptoFailed w) (hs : Steps w w') :
    CryptoFailed w' := by
  obtain ⟨e, h⟩ := h
  refine ⟨e, h.imp (steps_fail hs) fun h => ?_⟩
  exact steps_fail hs.swap h

theorem Related.fits (h : Related N k k' c w) : TrafficFits c := by
  obtain ⟨_, _, _, _, hl, hr, _, _⟩ := h
  exact ⟨hl.carried.session.fits, hr.carried.session.fits⟩

/-- **One step of the session**, followed on its links. -/
theorem Related.step (h : Related N k k' c w) (hs : Step c c')
    (hord : Protocol.InOrder c'.1 c'.2 ∧ Protocol.InOrder c'.2 c'.1) (hsend : Sends c') :
    (TrafficFits c' → ∃ w', Steps w w' ∧ Related N k k' c' w') ∧
      (¬ TrafficFits c' → ∃ w', Steps w w' ∧ CryptoFailed w') := by
  cases hs with
  | @left e p e' p' hs =>
    have hfits := h.fits
    obtain ⟨is, is', link, link', hl, hr, hsent, hsent'⟩ := h
    obtain ⟨hok, herr⟩ := mirrors_step hl hr hsent hsent' hs hord.2 hsend
    have hp : Fits (frameSizes p'.log) := by
      obtain ⟨ms, bs, -, rfl⟩ := End.step_eq_some.1 hs
      exact hfits.2
    refine ⟨fun hf => ?_, fun hf => ?_⟩
    · obtain ⟨w', v', hsteps, hrel⟩ := hok hf.1
      exact ⟨(w', v'), hsteps, hrel⟩
    · obtain ⟨w', hsteps, hfail⟩ := herr fun he => hf ⟨he, hp⟩
      exact ⟨(w', w.2), hsteps, _, .inl hfail⟩
  | @right e p e' p' hs =>
    have hfits := h.fits
    obtain ⟨is, is', link, link', hl, hr, hsent, hsent'⟩ := h
    obtain ⟨hok, herr⟩ := mirrors_step hr hl hsent' hsent hs hord.1 hsend.swap
    have hp : Fits (frameSizes e'.log) := by
      obtain ⟨ms, bs, -, rfl⟩ := End.step_eq_some.1 hs
      exact hfits.1
    refine ⟨fun hf => ?_, fun hf => ?_⟩
    · obtain ⟨w', v', hsteps, hrel⟩ := hok hf.2
      exact ⟨(v', w'), hsteps.swap, hrel.swap⟩
    · obtain ⟨w', hsteps, hfail⟩ := herr fun he => hf ⟨hp, he⟩
      exact ⟨(w.1, w'), hsteps.swap, _, .inr hfail⟩

/-! ## Ends that cannot go on -/

/-- What a link says about a message that cannot be sent is no crypto error. -/
theorem sealMessage_not_sendable {m : SyncMessage} (hm : ¬ Sendable m) (link : PeerLink) :
    ∃ e, link.sealMessage m = .error e ∧ ∀ c, e ≠ .crypto c := by
  unfold PeerLink.sealMessage encode
  cases hb : MessagePack.toVec m with
  | none => exact ⟨.encode, rfl, nofun⟩
  | some body =>
    have hlen : maxMessageBytes < body.length := not_le.1 fun hle => hm ⟨body, hb, hle⟩
    refine ⟨.tooLarge body.length maxMessageBytes, ?_, nofun⟩
    simp only [hlen, ↓reduceIte]
    rfl

omit [MessagePack] in
theorem Noise.control_eq_nil [MessagePack] {key : N.Key} {n : Nat}
    {is : List (Item SyncMessage Bytes)} (h : Item.msgs is = []) : N.control key n is = [] := by
  induction is generalizing n with
  | nil => rfl
  | cons i is ih =>
    cases i with
    | msg m => cases h
    | stream b => exact ih h

theorem Noise.streams_eq_nil {key : N.Key} {n : Nat} {is : List (Item SyncMessage Bytes)}
    (h : Item.byteStreams is = []) : N.streams key n is = [] := by
  induction is generalizing n with
  | nil => rfl
  | cons i is ih =>
    cases i with
    | msg m => exact ih h
    | stream b => cases h

/-- An end whose only next step is a message that cannot be sent is at rest on its link, without a
crypto error. -/
theorem Mirrors.rest {is : List (Item SyncMessage Bytes)} {e : End syncWire α} {w : End linkWire α}
    {link : PeerLink} (h : Mirrors N k k' is e w link) (hin : e.inbox = Item.msgs is)
    (hst : e.streams = Item.byteStreams is)
    (hstuck : ∀ e' ms bs, e.next = some (e', ms, bs) → ∃ m ∈ ms, ¬ Sendable m) :
    w.next = none ∧ ∀ err, w.proc ≠ .fail (.link (.crypto err)) := by
  obtain ⟨proc, state, inbox, streams, log⟩ := e
  obtain ⟨proc', state', inbox', streams', log'⟩ := w
  obtain ⟨-, hproc, -, hin', hst'⟩ := h
  dsimp only at hproc hin' hst' hin hst
  subst hproc hin' hst' hin hst
  have hno : ∀ e' bs, (End.mk proc state (Item.msgs is) (Item.byteStreams is) log).next ≠
      some (e', [], bs) := by
    intro e' bs hn
    obtain ⟨m, hm, -⟩ := hstuck _ _ _ hn
    cases hm
  cases proc with
  | done => exact ⟨rfl, fun err herr => by cases herr⟩
  | fail =>
    refine ⟨rfl, fun err herr => ?_⟩
    cases herr
  | sendStream b q => exact absurd rfl (hno _ _)
  | call name f q => exact absurd rfl (hno _ _)
  | send m q =>
    obtain ⟨m', hm', hns⟩ := hstuck _ _ _ rfl
    obtain rfl := List.mem_singleton.1 hm'
    obtain ⟨err, he, hne⟩ := sealMessage_not_sendable hns link
    simp only [onWire, he, ofLink, End.next]
    refine ⟨trivial, fun c hc => hne c ?_⟩
    cases hc
    rfl
  | recv q =>
    cases hm : Item.msgs is with
    | nil =>
      rw [Noise.control_eq_nil hm]
      exact ⟨rfl, fun err herr => by cases herr⟩
    | cons m ms =>
      rw [hm] at hno
      exact absurd rfl (hno _ _)
  | gather acc more q =>
    cases hm : Item.msgs is with
    | nil =>
      rw [Noise.control_eq_nil hm]
      exact ⟨rfl, fun err herr => by cases herr⟩
    | cons m ms =>
      rw [hm] at hno
      cases hmore : more acc m with
      | none =>
        exfalso
        refine hno ⟨q acc m, state, ms, Item.byteStreams is, log ++ [.received m]⟩ [] ?_
        simp only [End.next, hmore]
      | some acc' =>
        exfalso
        refine hno
          ⟨.gather acc' more q, state, ms, Item.byteStreams is, log ++ [.received m]⟩ [] ?_
        simp only [End.next, hmore]
  | recvStream q =>
    cases hb : Item.byteStreams is with
    | nil =>
      rw [Noise.streams_eq_nil hb]
      simp only [onWire, End.next, ne_eq, reduceCtorEq, not_false_eq_true, implies_true, and_self]
    | cons b bs =>
      rw [hb] at hno
      exact absurd rfl (hno _ _)

omit [Snow] in
/-- What an end says next that it cannot send. -/
theorem not_sendable_of_stuck {e e' p : End syncWire α} {ms : List SyncMessage} {bs : List Bytes}
    (hn : e.next = some (e', ms, bs)) (hsend : ∀ m ∈ e.sent ++ p.sent, Sendable m)
    (hstuck : ¬ ∀ m ∈ e'.sent ++ (p.deliver ms bs).sent, Sendable m) : ∃ m ∈ ms, ¬ Sendable m := by
  by_contra hall
  push Not at hall
  refine hstuck fun m hm => ?_
  rw [End.next_sent hn, List.append_assoc, List.mem_append, List.mem_append] at hm
  rcases hm with hm | hm | hm
  · exact hsend m (List.mem_append_left _ hm)
  · exact hall m hm
  · exact hsend m (List.mem_append_right _ hm)

/-- A session that can only go on with messages that cannot be sent is at rest on its links. -/
theorem Related.rest (h : Related N k k' c w)
    (hord : Protocol.InOrder c.1 c.2 ∧ Protocol.InOrder c.2 c.1) (hsend : Sends c)
    (hstuck : ∀ c', ¬ (Step c c' ∧ Sends c')) : AtRest w ∧ ¬ CryptoFailed w := by
  obtain ⟨e, p⟩ := c
  obtain ⟨is, is', link, link', hl, hr, hsent, hsent'⟩ := h
  obtain ⟨⟨js, hjs, hpin, hpst⟩, ⟨js', hjs', hein, hest⟩⟩ := hord
  obtain rfl := List.append_cancel_left (hsent.symm.trans hjs)
  obtain rfl := List.append_cancel_left (hsent'.symm.trans hjs')
  obtain ⟨hnl, hfl⟩ := hl.rest hein hest fun e' ms bs hn =>
    not_sendable_of_stuck hn hsend fun hs =>
      hstuck _ ⟨.left (End.step_eq_some.2 ⟨ms, bs, hn, rfl⟩), hs⟩
  obtain ⟨hnr, hfr⟩ := hr.rest hpin hpst fun p' ms bs hn =>
    not_sendable_of_stuck (p := e) hn hsend.swap fun hs =>
      hstuck (e.deliver ms bs, p') ⟨.right (End.step_eq_some.2 ⟨ms, bs, hn, rfl⟩),
        Sends.swap (c := (p', e.deliver ms bs)) hs⟩
  exact ⟨⟨hnl, hnr⟩, fun ⟨err, h⟩ => h.elim (hfl err) (hfr err)⟩

omit [Snow] in
/-- What had been sent before could be sent. -/
theorem Sends.of_steps (h : Sends c') (hs : Steps c c') : Sends c := by
  obtain ⟨⟨l, hl⟩, ⟨r, hr⟩⟩ := steps_log hs
  intro m hm
  refine h m ?_
  unfold End.sent at hm ⊢
  rw [← hl, ← hr, Traffic.sentMsgs_append, Traffic.sentMsgs_append]
  rcases List.mem_append.1 hm with hm | hm
  · exact List.mem_append_left _ (List.mem_append_left _ hm)
  · exact List.mem_append_right _ (List.mem_append_left _ hm)

omit [Snow] in
/-- What fits fitted before. -/
theorem TrafficFits.of_steps (h : TrafficFits c') (hs : Steps c c') : TrafficFits c := by
  obtain ⟨⟨l, hl⟩, ⟨r, hr⟩⟩ := steps_log hs
  unfold TrafficFits at h ⊢
  rw [← hl, ← hr, frameSizes_append, frameSizes_append] at h
  exact ⟨h.1.of_append, h.2.of_append⟩

/-- **Two ends that read in order never fail with a crypto error exactly when their traffic fits.**
Their traffic is that over perfect links, as far as its messages can be sent at all. -/
theorem crypto_iff (h : Related N k k' c w) (hsend : Sends c)
    (hord : ∀ c', Steps c c' → Protocol.InOrder c'.1 c'.2 ∧ Protocol.InOrder c'.2 c'.1) :
    (∀ w', Steps w w' → ¬ CryptoFailed w') ↔ ∀ c', Steps c c' → Sends c' → TrafficFits c' := by
  constructor
  · intro hok c' hs hsend'
    suffices hrel : ∃ w', Steps w w' ∧ Related N k k' c' w' by
      obtain ⟨w', -, hrel⟩ := hrel
      exact hrel.fits
    induction hs with
    | refl => exact ⟨w, .refl, h⟩
    | @tail c₁ c₂ hs hstep ih =>
      obtain ⟨w₁, hw, hrel⟩ := ih (hsend'.of_steps (.single hstep))
      obtain ⟨hfit, hfail⟩ := hrel.step hstep (hord c₂ (hs.tail hstep)) hsend'
      by_cases hf : TrafficFits c₂
      · obtain ⟨w₂, hw₂, hrel₂⟩ := hfit hf
        exact ⟨w₂, hw.trans hw₂, hrel₂⟩
      · obtain ⟨w₂, hw₂, hfailed⟩ := hfail hf
        exact absurd hfailed (hok w₂ (hw.trans hw₂))
  · intro hfits w' hw' hfailed
    obtain ⟨F, hF, hrest⟩ := exists_rest (r := fun c c' => Step c c' ∧ Sends c')
      (fun hr => hr.1) c
    obtain ⟨wF, hwF, hrel, hcF, hsF⟩ : ∃ wF, Steps w wF ∧ Related N k k' F wF ∧ Steps c F ∧
        Sends F := by
      clear hrest
      induction hF with
      | refl => exact ⟨w, .refl, h, .refl, hsend⟩
      | @tail c₁ c₂ _ hstep ih =>
        obtain ⟨w₁, hw, hrel, hc, -⟩ := ih
        have hc₂ := hc.tail hstep.1
        obtain ⟨w₂, hw₂, hrel₂⟩ :=
          (hrel.step hstep.1 (hord c₂ hc₂) hstep.2).1 (hfits c₂ hc₂ hstep.2)
        exact ⟨w₂, hw.trans hw₂, hrel₂, hc₂, hstep.2⟩
    obtain ⟨hat, hnot⟩ := hrel.rest (hord F hcF) hsF hrest
    exact hnot (hfailed.steps (hat.steps_of hwF hw'))

/-! ## A session after a handshake -/

/-- The two sessions that a handshake leaves behind, the dialler's first. -/
inductive Handshaken (s s' : SecureSession) : Prop where
  | intro {identity identity' : DeviceIdentity} {trust trust' : Trust} {remote : DeviceId}
      {ephemeral ephemeral' first response : Bytes} {i : HandshakeInitiator}
      {r : HandshakeResponder}
      (start : HandshakeInitiator.start identity trust remote ephemeral = .ok (i, first))
      (accept : HandshakeResponder.accept identity' trust' first ephemeral' = .ok r)
      (respond : r.respond = .ok (s', response)) (finish : i.finish response = .ok s)

omit [MessagePack] in
/-- Each of the two links has carried nothing yet, and opens what the other seals. -/
theorem Handshaken.carried (N : Noise) {s s' : SecureSession} (h : Handshaken s s') :
    ∃ k k', (PeerLink.new s).Carried N k k' 0 0 [] ∧ (PeerLink.new s').Carried N k' k 0 0 [] := by
  obtain ⟨hs, ha, hr, hf⟩ := h
  obtain ⟨peer, -, hs⟩ := bind_eq_ok.1 hs
  obtain ⟨i₀, hbuild, hs⟩ := bind_eq_ok.1 hs
  obtain ⟨⟨m₁, i₁⟩, hwrite, hs⟩ := bind_eq_ok.1 hs
  cases hs
  obtain ⟨r₀, hbuild', ha⟩ := bind_eq_ok.1 ha
  obtain ⟨r₁, hread', ha⟩ := bind_eq_ok.1 ha
  obtain ⟨bytes, -, ha⟩ := bind_eq_ok.1 ha
  obtain ⟨peer', -, ha⟩ := bind_eq_ok.1 ha
  cases ha
  obtain ⟨⟨m₂, r₂⟩, hwrite', hr⟩ := bind_eq_ok.1 hr
  obtain ⟨t', hinto', hr⟩ := bind_eq_ok.1 hr
  cases hr
  obtain ⟨i₂, hread, hf⟩ := bind_eq_ok.1 hf
  obtain ⟨t, hinto, hf⟩ := bind_eq_ok.1 hf
  cases hf
  rw [orError_eq_ok] at hbuild hwrite hbuild' hread' hwrite' hinto' hread hinto
  obtain ⟨hout, hin, hzero, hzero'⟩ :=
    N.handshake hbuild hwrite hbuild' hread' hwrite' hinto' hread hinto
  refine ⟨(N.outgoing t).1, (N.outgoing t').1, ⟨⟨rfl, rfl, ?_, ?_, rfl, fits_nil⟩, rfl⟩,
    ⟨⟨rfl, rfl, ?_, ?_, rfl, fits_nil⟩, rfl⟩⟩
  · exact Prod.ext rfl hzero
  · exact hin ▸ Prod.ext rfl hzero'
  · exact Prod.ext rfl hzero'
  · exact hout ▸ Prod.ext rfl hzero

variable [Blake3]

/-- `run_session` of two devices, each on its end of a perfect link. -/
def unlimited (s s' : SecureSession) (a b : SyncContext) : Link syncWire SyncOutcome :=
  ({ proc := Session.run s.remoteDeviceId s.epoch .dialler, state := a },
    { proc := Session.run s'.remoteDeviceId s'.epoch .responder, state := b })

/-- `run_session` of two devices, each on its end of the link. -/
def linked (s s' : SecureSession) (a b : SyncContext) : Link linkWire SyncOutcome :=
  ({ proc := onWire (Session.run s.remoteDeviceId s.epoch .dialler) (.new s), state := a },
    { proc := onWire (Session.run s'.remoteDeviceId s'.epoch .responder) (.new s'), state := b })

/-- The session never fails with a crypto error. -/
def Survives (s s' : SecureSession) (a b : SyncContext) : Prop :=
  ∀ w, Steps (linked s s' a b) w → ¬ CryptoFailed w

theorem related_start {s s' : SecureSession} {k k' : N.Key} (a b : SyncContext)
    (h : (PeerLink.new s).Carried N k k' 0 0 []) (h' : (PeerLink.new s').Carried N k' k 0 0 []) :
    Related N k k' (unlimited s s' a b) (linked s s' a b) :=
  ⟨[], [], .new s, .new s', ⟨h, rfl, rfl, rfl, rfl⟩, ⟨h', rfl, rfl, rfl, rfl⟩, rfl, rfl⟩

omit [Blake3] [Snow] in
theorem sends_start {e p : End syncWire α} (he : e.log = []) (hp : p.log = []) :
    Sends (e, p) := by
  intro m hm
  unfold End.sent at hm
  rw [he, hp] at hm
  cases hm

theorem survives_of_carried {s s' : SecureSession} {k k' : N.Key} (a b : SyncContext)
    (h : (PeerLink.new s).Carried N k k' 0 0 []) (h' : (PeerLink.new s').Carried N k' k 0 0 []) :
    Survives s s' a b ↔
      ∀ c, Steps (unlimited s s' a b) c → Sends c → TrafficFits c :=
  crypto_iff (related_start a b h h') (sends_start rfl rfl) fun _ hs => Session.session_in_order hs

/-- **A session survives exactly when its traffic fits**: the frames of what the two devices say to
each other, up to the first message that cannot be sent at all, stay below the thresholds. -/
theorem survives_iff (N : Noise) {s s' : SecureSession} (h : Handshaken s s') (a b : SyncContext) :
    Survives s s' a b ↔ ∀ c, Steps (unlimited s s' a b) c → Sends c → TrafficFits c := by
  obtain ⟨k, k', hk, hk'⟩ := h.carried N
  exact survives_of_carried a b hk hk'

omit [Snow] [Blake3] in
/-- Whether the traffic of a session fits that completes can be seen at its end. -/
theorem trafficFits_iff_of_completes {c F : Link syncWire α} (h : Completes c F) (hsend : Sends F) :
    (∀ c', Steps c c' → Sends c' → TrafficFits c') ↔ TrafficFits F := by
  constructor
  · intro hall
    exact hall F h.1 hsend
  · intro hF c' hs _
    exact hF.of_steps (h.of_steps hs)

end

/-! ## The largest picture -/

namespace Session

section
variable [Blake3]

omit [Blake3] in
theorem summaryPages_singleton (e : ClipSummary) : summaryPages [e] = [.summary [e] true] := by
  unfold summaryPages
  rw [List.chunks_of_length_le (List.cons_ne_nil e [])
    (show 1 ≤ summaryPage by decide)]
  rfl

section
variable {a b b₁ a' b' : SyncContext} {t : Taken} {r : ClipRow} (h : Turn a b t b₁ a' b')
  (ha : a.store.rows = [r]) (hlc : Hlc)
include h ha

/-- The traffic of a turn that takes one clip with one blob to a device that has nothing. -/
theorem Turn.log_new {d : ContentHash} (hc : r.toClip.Canonical) (hd : r.toClip.blobDigests = [d])
    (hb : b.store.rows = []) (hf : b.store.hasBlob d = false) :
    offerLog a.store b.store b₁.store t hlc = [.sent (.summary [r.summary] true),
        .received (.want [r.hash]), .sent (.push r.toClip), .received (.want [d]),
        .sentStream (a.store.blobOf d), .received (.ack hlc)] ∧
      takeLog a.store b.store b₁.store t hlc = [.received (.summary [r.summary] true),
        .sent (.want [r.hash]), .received (.push r.toClip), .sent (.want [d]),
        .receivedStream (a.store.blobOf d), .sent (.ack hlc)] := by
  obtain ⟨-, hneed, -, -⟩ := h.of_new ha hc hd hb hf
  have hsum := summaries_singleton ha
  have hwant := wanted_singleton hb r
  have hpush := pushedBy_singleton ha hb
  constructor
  · rw [offerLog, blobsSent, hneed, hpush, hsum, hwant, summaryPages_singleton]
    rfl
  · rw [takeLog, blobsSent, hneed, hpush, hsum, hwant, summaryPages_singleton]
    rfl

/-- The traffic of a turn between two devices that have the same row. -/
theorem Turn.log_same (hb : b.store.rows = [r]) :
    offerLog a.store b.store b₁.store t hlc = [.sent (.summary [r.summary] true),
        .received (.want []), .received (.want []), .received (.ack hlc)] ∧
      takeLog a.store b.store b₁.store t hlc = [.received (.summary [r.summary] true),
        .sent (.want []), .sent (.want []), .sent (.ack hlc)] := by
  have hsum := summaries_singleton ha
  have hwant := wanted_same hb
  have hpush : pushedBy a.store b.store = [] := by
    rw [pushedBy, hsum, hwant]
    rfl
  obtain ⟨o, hm⟩ := h.merged
  rw [hpush, takeAll_nil] at hm
  obtain ⟨rfl, -⟩ : t = { outcome := o } ∧ b₁ = b := by
    cases hm
    exact ⟨rfl, rfl⟩
  constructor
  · rw [offerLog, hpush, hsum, hwant, summaryPages_singleton]
    rfl
  · rw [takeLog, hpush, hsum, hwant, summaryPages_singleton]
    rfl

end

/-- The traffic of a session in which one clip with one blob, of a few segments, goes to a device
that has nothing. -/
theorem trafficFits_of_new [MessagePack] {a b : SyncContext} {epochA epochB : UInt64} {r : ClipRow}
    {d : ContentHash} {F : Link syncWire SyncOutcome}
    (hF : Completes (sessionLink a b epochA epochB) F) (ha : a.store.rows = [r])
    (hc : r.toClip.Canonical) (hd : r.toClip.blobDigests = [d]) (hr : .of r.toClip = r)
    (hb : b.store.rows = []) (hf : b.store.hasBlob d = false)
    (hmsg : ∀ m, (segments (.msg m)).length ≤ 2)
    (hblob : (a.store.blobOf d).length ≤ 2 * blobSegmentBytes) : TrafficFits F := by
  obtain ⟨t, b₁, a', b', hlc, t', a₁, hlc', hturn, hturn', hl, hl'⟩ := completes_session hF
  obtain ⟨hstored, -, hrows, -⟩ := hturn.of_new ha hc hd hb hf
  obtain ⟨ho, ht⟩ := hturn.log_new ha hlc hc hd hb hf
  -- the other turn finds the row at both ends
  have hb' : b'.store.rows = [r] := by
    rw [hstored, Store.rows_receiveBlobs, hrows, hr]
  obtain ⟨ho', ht'⟩ := hturn'.log_same hb' hlc' (hturn.sender.rows.trans ha)
  have hstream := length_segments_stream_le hblob
  unfold TrafficFits
  rw [hl, hl', ho, ht, ho', ht']
  constructor
  all_goals
    refine fits_of_segments (k := 2) (fun x hx => ?_) (show 2 * 12 ≤ 1000 by decide)
    simp only [List.cons_append, List.nil_append, List.mem_cons, List.not_mem_nil, or_false] at hx
    rcases hx with rfl | rfl | rfl | rfl | rfl | rfl | rfl | rfl | rfl | rfl | rfl | rfl
    all_goals first | exact hmsg _ | exact hstream

/-- A device with one row offers it, with its blob, to one without rows. -/
theorem steps_offer_singleton {a b : SyncContext} {r : ClipRow} {d : ContentHash}
    (epochA epochB : UInt64) (ha : a.store.rows = [r]) (hcan : r.toClip.Canonical)
    (hd : r.toClip.blobDigests = [d]) (hb : b.store.rows = []) (hf : b.store.hasBlob d = false) :
    ∃ c, Steps (sessionLink a b epochA epochB) c ∧
      (∃ log, c.1.log = log ++ [.sentStream (a.store.blobOf d)]) ∧
      c.1.sent = [helloOf a epochA, .summary [r.summary] true, .push r.toClip] ∧
      c.2.sent = [helloOf b epochB, .want [r.hash], .want [d]] := by
  have hpush : pushedBy a.store b.store = [r.toClip] := pushedBy_singleton ha hb
  have hsum : a.store.summaries = [r.summary] := summaries_singleton ha
  obtain ⟨t, b₁, hm, ht, -, hblobs⟩ := takeAll_new hcan hb {}
  have hneed : b₁.store.neededFrom t.missingBlobs [] = [d] := by
    rw [ht, hd, neededFrom_singleton (hblobs.hasBlob d ▸ hf)]
  rw [← hpush] at hm
  obtain ⟨a', oa, -, -, hs⟩ := @steps_offerBlobs _ SyncOutcome a b₁ takeTheirHistory offerOurHistory
    ([.sent (helloOf a epochA), .received (helloOf b epochB)] ++
      (summaryPages a.store.summaries).map .sent ++
      [.received (.want (b.store.wanted a.store.summaries))] ++
      ((pushedBy a.store b.store).map SyncMessage.push).map .sent)
    ([.received (helloOf a epochA), .sent (helloOf b epochB)] ++
      (summaryPages a.store.summaries).map .received ++
      [.sent (.want (b.store.wanted a.store.summaries))] ++
      ((pushedBy a.store b.store).map SyncMessage.push).map .received)
    { sent := 0 + (pushedBy a.store b.store).length } t
  refine ⟨_, Relation.ReflTransGen.trans ?_ hs, ?_⟩
  · refine (steps_hello a b epochA epochB).trans ?_
    simp only [offerOurHistory, takeTheirHistory, bind_assoc]
    refine (steps_offerClips {} {}).trans ?_
    exact (steps_takePushes (List.append_nil _).symm hm).swap
  · rw [blobsSent_bytes, hneed, hpush, hsum, wanted_singleton hb, summaryPages_singleton]
    exact ⟨⟨_, rfl⟩, rfl, rfl⟩

end

end Session

/-- A picture of the largest size that is captured. -/
def largest : Bytes := .replicate (64 * 1024 * 1024) 0

/-- BLAKE3 of that picture. -/
def largestDigest : ContentHash :=
  { bytes :=
    #v[0xea, 0x7b, 0x15, 0x6f, 0xc9, 0xa8, 0x10, 0xc1, 0x81, 0x98, 0x4f, 0x9e, 0x2d, 0xa4, 0x33,
      0xfe, 0xee, 0xb2, 0xbf, 0x88, 0xff, 0xa4, 0xd1, 0xf0, 0xdc, 0x1a, 0x92, 0x15, 0x4b, 0x5b,
      0xdc, 0x8b] }

/-- BLAKE3 of the framed `image/png` part with that digest. -/
def largestHash : ContentHash :=
  { bytes :=
    #v[0xb1, 0xc0, 0x5e, 0xf2, 0x4b, 0xe3, 0x77, 0x6b, 0xe8, 0x45, 0x3d, 0xca, 0x99, 0xa2, 0x10,
      0xf3, 0x19, 0x24, 0xfc, 0xf5, 0xe1, 0xd4, 0xf9, 0x85, 0x1a, 0xfb, 0x1d, 0xa7, 0x82, 0x73,
      0xd4, 0xfd] }

/-- The clip of that picture. -/
def largestClip : Clip :=
  { id := ⟨1⟩, hash := largestHash, kind := .image
    payloads := [.blob .png largestDigest (64 * 1024 * 1024)], preview := "Image · 64.0 MB"
    source := { device := .repeated 1, deviceLabel := "desktop", app := none }
    hlc := ⟨1, 0, .repeated 1⟩, createdAtMs := 1, pinned := false, deleted := false }

/-- BLAKE3 on what this session hashes. -/
@[reducible] def Blake3.largest : Blake3 where
  hash bytes :=
    if bytes = ContentHash.framed "image/png" largestDigest.bytes.toList then largestHash
    else if bytes = Clipse.largest then largestDigest
    else { bytes := .replicate 32 0 }

/-- The clip of a picture of two segments. -/
def screenshot : Clip :=
  { id := ⟨1⟩, hash := bigHash, kind := .image, payloads := [.blob .png bigDigest 65537]
    preview := "Image · 64.0 KB"
    source := { device := .repeated 1, deviceLabel := "desktop", app := none }
    hlc := ⟨1, 0, .repeated 1⟩, createdAtMs := 1, pinned := false, deleted := false }

/-- What is said in a session that carries one of the pictures from the laptop to the phone. -/
def workedMessages : Table MessagePack.pack :=
  { rows :=
      [.hello (.repeated 1) 0 1 (some ⟨1, 0, .repeated 1⟩) "desktop" "linux",
        .hello (.repeated 2) 0 1 none "desktop" "linux", .summary [.of largestClip] true,
        .want [largestHash], .push largestClip, .want [largestDigest],
        .summary [.of screenshot] true, .want [bigHash], .push screenshot, .want [bigDigest],
        .want [], .ack ⟨1, 0, .repeated 1⟩]
    nodup := by decide +kernel }

/-- Noise with counters, and with nothing encrypted. -/
@[reducible] def Snow.counting : Snow where
  HandshakeState := Nat
  TransportState := Nat × Nat
  buildInitiator _ _ _ := some 0
  buildResponder _ _ := some 0
  writeHandshake n := some (.replicate (if n = 0 then 96 else 48) 0, n + 1)
  readHandshake n message :=
    if message.length = (if n = 0 then 96 else 48) then some (n + 1) else none
  remoteStatic n := if n = 1 then some DeviceIdentity.laptop.publicKey.bytes else none
  intoTransport n := if n = 2 then some (0, 0) else none
  write s plaintext :=
    if s.1 < 2 ^ 64 - 1 ∧ plaintext.length + tagLen ≤ 65535 then
      some (plaintext ++ .replicate tagLen 0, (s.1 + 1, s.2))
    else none
  read s ciphertext :=
    if s.2 < 2 ^ 64 - 1 ∧ tagLen ≤ ciphertext.length ∧ ciphertext.length ≤ 65535 then
      some (ciphertext.take (ciphertext.length - tagLen), (s.1, s.2 + 1))
    else none
  rekeyOutgoing := id
  rekeyIncoming := id

section
variable {T : Table MessagePack.pack} (h : ∀ m ∈ T.rows, (MessagePack.pack m).length ≤ 100000)
include h

theorem sendable_ofTable {m : SyncMessage} (hm : m ∈ T.rows) : @Sendable (.ofTable T) m :=
  ⟨MessagePack.pack m, if_pos hm, (h m hm).trans (by decide)⟩

/-- Two segments are enough for any message of the table. -/
theorem length_segments_ofTable (m : SyncMessage) :
    (@segments (.ofTable T) (.msg m)).length ≤ 2 := by
  refine @length_segments_msg_le (.ofTable T) m 2 fun body hb => ?_
  have hm : m ∈ T.rows ∧ MessagePack.pack m = body := by
    by_cases hm : m ∈ T.rows
    · exact ⟨hm, Option.some.inj ((if_pos hm).symm.trans hb)⟩
    · cases (if_neg hm).symm.trans hb
  have hlen := h m hm.1
  rw [hm.2] at hlen
  rw [length_prefixed]
  show 4 + body.length ≤ 2 * 60000
  omega

end

section
attribute [local instance] Blake3.largest Snow.counting

@[reducible] def MessagePack.worked : MessagePack := .ofTable workedMessages

attribute [local instance] MessagePack.worked

/-- What is relied on holds of it. -/
def Noise.counting : Noise where
  Key := Unit
  encrypt _ _ p := p ++ .replicate tagLen 0
  outgoing s := ((), s.1)
  incoming s := ((), s.2)
  length_encrypt := by
    intro key n p
    rw [List.length_append, List.length_replicate]
  write := by
    intro s key n p h hn hp
    cases h
    exact ⟨(s.1 + 1, s.2), if_pos ⟨hn, hp⟩, rfl, rfl⟩
  read := by
    intro s key n p h hn hp
    cases h
    have hlen : (p ++ List.replicate tagLen (0 : UInt8)).length = p.length + tagLen := by
      rw [List.length_append, List.length_replicate]
    refine ⟨(s.1, s.2 + 1), ?_, rfl, rfl⟩
    show (if _ then _ else _) = _
    rw [hlen, if_pos ⟨hn, Nat.le_add_left _ _, hp⟩, Nat.add_sub_cancel, List.take_left]
  handshake := by
    intro secret secret' remote ephemeral ephemeral' i₀ i₁ i₂ r₀ r₁ r₂ m₁ m₂ s s' _ _ _ _ _ hr _ hi
    have hs : ∀ {n : Nat} {s : Nat × Nat}, (if n = 2 then some (0, 0) else none) = some s →
        s = (0, 0) := by
      intro n s h
      split at h
      · exact (Option.some.inj h).symm
      · cases h
    rw [hs hr, hs hi]
    exact ⟨rfl, rfl, rfl, rfl⟩

/-- The laptop's session with the phone. -/
def laptopEnd : SecureSession :=
  .new DeviceIdentity.phone.deviceId DeviceIdentity.phone.publicKey 0 ((0, 0) : Nat × Nat)

/-- The phone's session with the laptop. -/
def phoneEnd : SecureSession :=
  .new DeviceIdentity.laptop.deviceId DeviceIdentity.laptop.publicKey 0 ((0, 0) : Nat × Nat)

theorem handshaken_laptop_phone : Handshaken laptopEnd phoneEnd :=
  @Handshaken.intro _ _ _ .laptop .phone ((Trust.new (.repeated 1)).addPeer (recordOf .phone))
    ((Trust.new (.repeated 2)).addPeer (recordOf .laptop)) (.repeated 2) [] [] (.replicate 96 0)
    (.replicate 48 0) ⟨(1 : Nat), .repeated 2, DeviceIdentity.phone.publicKey, 0⟩
    ⟨(1 : Nat), .repeated 1, DeviceIdentity.laptop.publicKey, 0⟩ rfl rfl rfl rfl

theorem canonical_largestClip : largestClip.Canonical := ⟨List.pairwise_singleton _ _, by decide⟩

theorem length_largest : largest.length = 67108864 := by
  rw [largest, List.length_replicate]

theorem of_eq_largest {bytes : Bytes}
    (hne : bytes ≠ ContentHash.framed "image/png" largestDigest.bytes.toList)
    (h : bytes = largest) : ContentHash.of bytes = largestDigest := by
  unfold ContentHash.of Blake3.largest
  dsimp only
  rw [if_neg hne, if_pos h]

theorem of_largest : ContentHash.of largest = largestDigest := by
  refine of_eq_largest (fun he => ?_) rfl
  have hlen := congrArg List.length he
  rw [length_largest] at hlen
  exact absurd hlen (by decide)

/-- The frames of the picture alone reach the threshold before the last of them. -/
theorem not_fits_largest (sizes : List Nat) : ¬ Fits (sizes ++ itemSizes (.stream largest)) := by
  have hsum : 67108864 ≤ (itemSizes (.stream largest)).dropLast.sum := by
    rw [itemSizes_stream, length_largest]
    decide +kernel
  intro hf
  have hlt : (sizes ++ itemSizes (.stream largest)).dropLast.sum < 67108864 := hf.2
  have hne : itemSizes (.stream largest) ≠ [] := by
    intro he
    rw [he] at hsum
    exact absurd hsum (by decide)
  rw [List.dropLast_append_of_ne_nil hne, List.sum_append] at hlt
  omega

theorem length_workedMessages :
    ∀ m ∈ workedMessages.rows, (MessagePack.pack m).length ≤ 100000 := by decide +kernel

/-- A session that carries the picture fails: the last of its 1399 segments is not sealed. -/
theorem largest_not_carried :
    ¬ ∀ (s s' : SecureSession) (a b : SyncContext), Handshaken s s' →
      Store.Reachable a.store → Store.Reachable b.store →
      s.remoteDeviceId = b.clock.device → s'.remoteDeviceId = a.clock.device →
      Survives s s' a b := by
  intro h
  obtain ⟨store, hs, hrows, hblob⟩ :=
    Session.exists_copied (2 ^ 31) of_largest canonical_largestClip
  have hsurvives := h laptopEnd phoneEnd (.start store (.repeated 1) fun _ => 0)
    (.start (.open_ 0) (.repeated 2) fun _ => 0) handshaken_laptop_phone hs (.open_ 0) rfl rfl
  obtain ⟨k, k', hk, hk'⟩ := handshaken_laptop_phone.carried Noise.counting
  have hfits := (survives_of_carried _ _ hk hk').1 hsurvives
  have hclip : (ClipRow.of largestClip).toClip = largestClip := rfl
  obtain ⟨c, hsteps, ⟨log, hlog⟩, hsent, hsent'⟩ := @Session.steps_offer_singleton _
    (.start store (.repeated 1) fun _ => 0) (.start (.open_ 0) (.repeated 2) fun _ => 0)
    (.of largestClip) largestDigest 0 0 hrows (hclip ▸ canonical_largestClip) rfl rfl rfl
  have hmax : store.maxHlc = some ⟨1, 0, .repeated 1⟩ := by
    have hr : store.clip.rows = [.of largestClip] := hrows
    unfold Store.maxHlc
    rw [hr]
    rfl
  have hsends : Sends c := by
    intro m hm
    apply sendable_ofTable length_workedMessages
    unfold Session.helloOf at hsent
    rw [SyncContext.start_store, hmax] at hsent
    rw [hsent, hsent'] at hm
    have hsub : ∀ m ∈ ([.hello (.repeated 1) 0 1 (some ⟨1, 0, .repeated 1⟩) "desktop" "linux",
        .summary [.of largestClip] true, .push largestClip,
        .hello (.repeated 2) 0 1 none "desktop" "linux", .want [largestHash],
        .want [largestDigest]] : List SyncMessage), m ∈ workedMessages.rows := by decide +kernel
    exact hsub m hm
  have hfit : Fits (frameSizes c.1.log) := (hfits c hsteps hsends).1
  rw [hlog, SyncContext.start_store, hblob, frameSizes_snoc] at hfit
  exact not_fits_largest _ hfit

end

/-! ## A smaller one -/

section
attribute [local instance] Blake3.examples Snow.counting MessagePack.worked

theorem canonical_screenshot : screenshot.Canonical := ⟨List.pairwise_singleton _ _, by decide⟩

/-- The laptop has a screenshot that the phone does not have; the session that carries it
survives. -/
theorem survives_iff_screenshot : ∃ a : SyncContext, Store.Reachable a.store ∧
    a.store.rows = [.of screenshot] ∧ a.store.blobOf bigDigest = bigImage ∧
      Survives laptopEnd phoneEnd a (.start (.open_ 0) (.repeated 2) fun _ => 0) := by
  obtain ⟨s, hreach, hr, hblob⟩ :=
    Session.exists_copied (2 ^ 31) Session.of_bigImage canonical_screenshot
  refine ⟨.start s (.repeated 1) fun _ => 0, hreach, hr, hblob, ?_⟩
  refine (survives_iff Noise.counting handshaken_laptop_phone _ _).2 fun c hs _ => ?_
  obtain ⟨F, hF⟩ := Session.session_completes (a := .start s (.repeated 1) fun _ => 0)
    (b := .start (.open_ 0) (.repeated 2) fun _ => 0) hreach.sound
    (Store.Reachable.open_ 0).sound (by
      intro r hr₁ r' hr₂ _
      rw [SyncContext.start_store, SyncContext.start_store, hr] at hr₁ hr₂
      rw [List.mem_singleton.1 hr₁, List.mem_singleton.1 hr₂]) 0 0
  refine TrafficFits.of_steps ?_ (hF.of_steps hs)
  refine Session.trafficFits_of_new (d := bigDigest) hF hr canonical_screenshot rfl rfl rfl rfl
    (length_segments_ofTable length_workedMessages) ?_
  rw [SyncContext.start_store, hblob, length_bigImage]
  decide

end

end Clipse
