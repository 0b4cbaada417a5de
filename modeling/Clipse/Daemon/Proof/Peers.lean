import Clipse.Daemon.Peers
import Clipse.Lib.Stepwise
import Clipse.Net.Proof.Dial

/-!
# Which devices are no longer dialled (`clipsed/src/peers.rs`)

A device should stop being dialled when it, or our own trust set, refuses us, and for no other
reason. The daemon that refuses only drops the connection, which the dialler takes for an address
that did not answer; a device without an address, and an answer that is no handshake, on the other
hand are taken for a refusal. So it is right exactly while none of this happens
(`marked_iff_answered`).

That a device is dialled at what discovery found last is an invariant: `Watched` remembers what that
was.
-/

namespace Clipse

section
variable [Snow]
variable {d : Dialler} {hosts : SocketAddr → Host} {peer : DeviceId} {record : PairedDevice}
  {host : Host}

/-! ## What a dial says -/

/-- The host is the paired device, and its responder refuses the dialler's key. -/
inductive Host.Turns (d : Dialler) (peer : DeviceId) (record : PairedDevice) : Host → Prop where
  | intro {identity : DeviceIdentity} {trust : Trust} {ephemeral first : Bytes}
      {initiator : HandshakeInitiator} (hkey : identity.publicKey = record.staticPublic)
      (hstart : HandshakeInitiator.start d.identity d.trust peer d.ephemeral =
        .ok (initiator, first))
      (hrefuse : acceptOne identity trust ephemeral first = .error (.crypto .notTrusted)) :
      Host.Turns d peer record (.device identity trust ephemeral)

/-- The handshake does not fail on our side: what is replied, if anything is, completes it. -/
def Dialler.Finishes (d : Dialler) (peer : DeviceId) (host : Host) : Prop :=
  ∃ initiator first, HandshakeInitiator.start d.identity d.trust peer d.ephemeral =
      .ok (initiator, first) ∧
    ∀ reply, host.reply first = .ok reply → ∃ session, initiator.finish reply = .ok session

/-- A refusal leaves the dialler without a reply. -/
theorem Host.Turns.finishes (h : host.Turns d peer record) : d.Finishes peer host := by
  obtain ⟨hkey, hstart, hrefuse⟩ := h
  refine ⟨_, _, hstart, fun reply hreply => ?_⟩
  unfold Host.reply at hreply
  simp [hrefuse] at hreply

/-- A device that accepts us does not refuse us. -/
theorem Host.Leads.not_turns (h : host.Leads d peer record) : ¬ host.Turns d peer record := by
  obtain ⟨-, hstart, haccept⟩ := h
  rintro ⟨-, hstart', hrefuse⟩
  rw [hstart] at hstart'
  cases hstart'
  rw [haccept] at hrefuse
  cases hrefuse

theorem Host.Leads.finishes (hn : NoiseIk) (h : host.Leads d peer record) :
    d.Finishes peer host := by
  obtain ⟨-, hstart, haccept⟩ := h
  obtain ⟨hread, hfinish⟩ := finish_of_accept hn hstart haccept
  refine ⟨_, _, hstart, fun reply hreply => ?_⟩
  unfold Host.reply at hreply
  simp only [haccept, hread, Except.ok.injEq] at hreply
  exact hreply ▸ hfinish

omit [Snow] in
/-- The first address in dial order that takes the connection. -/
def answering (hosts : SocketAddr → Host) (candidates : CandidateList) : Option Candidate :=
  candidates.dialOrder.find? (fun c => (hosts c.addr).connect.toBool)

/-- The dial says that the peer is not to be dialled again. -/
def Dialler.Stops (d : Dialler) (hosts : SocketAddr → Host) (peer : DeviceId)
    (candidates : CandidateList) : Prop :=
  ∃ e, d.dial hosts peer candidates = .error e ∧ e.isRetryable = false

theorem stops_handshake_iff {addr : SocketAddr} {reachability : Reachability} :
    (∃ e, d.handshakeAsInitiator host peer addr reachability = .error e ∧ e.isRetryable = false) ↔
      ¬ d.Finishes peer host := by
  unfold Dialler.handshakeAsInitiator Dialler.Finishes
  cases hstart : HandshakeInitiator.start d.identity d.trust peer d.ephemeral with
  | error source => simp [DialError.isRetryable]
  | ok started =>
    obtain ⟨initiator, first⟩ := started
    cases hreply : host.reply first with
    | error e => simp [hreply, DialError.isRetryable]
    | ok reply =>
      cases hfinish : initiator.finish reply with
      | error source => simp [hreply, hfinish, DialError.isRetryable]
      | ok session => simp [hreply, hfinish]

theorem stops_tryEach_iff {candidates : List Candidate} {attempts : List AttemptFailure} :
    (∃ e, d.tryEach hosts peer candidates attempts = .error e ∧ e.isRetryable = false) ↔
      ∃ c, candidates.find? (fun c => (hosts c.addr).connect.toBool) = some c ∧
        ¬ d.Finishes peer (hosts c.addr) := by
  induction candidates generalizing attempts with
  | nil => simp [Dialler.tryEach, DialError.isRetryable]
  | cons c candidates ih =>
    rw [Dialler.tryEach]
    cases hc : (hosts c.addr).connect with
    | error reason =>
      rw [List.find?_cons_of_neg (by simp [hc, Except.toBool])]
      exact ih
    | ok =>
      rw [List.find?_cons_of_pos (by simp [hc, Except.toBool])]
      simpa using stops_handshake_iff

theorem stops_iff {candidates : CandidateList} :
    d.Stops hosts peer candidates ↔
      d.trust.isPaired peer = false ∨ candidates.isEmpty = true ∨
        ∃ c, answering hosts candidates = some c ∧ ¬ d.Finishes peer (hosts c.addr) := by
  unfold Dialler.Stops Dialler.dial
  cases d.trust.isPaired peer with
  | false => simp [DialError.isRetryable]
  | true =>
    cases candidates.isEmpty with
    | true => simp [DialError.isRetryable]
    | false => simpa [answering] using stops_tryEach_iff

/-! ## Refusals -/

namespace PeerManager

/-- `self.transport`, when it dials. -/
def dialler (m : PeerManager) (ephemeral : Bytes) : Dialler :=
  { identity := m.identity, trust := m.trust, ephemeral }

end PeerManager

namespace PeerOp

/-- What is a refusal: the trust set does not hold the device that is dialled, or the device is
reached and its responder refuses our key. -/
def Refuses (m : PeerManager) (op : PeerOp) (peer : DeviceId) : Prop :=
  match op with
  | syncOne dialled hosts ephemeral _ =>
    dialled = peer ∧ (m.trust.isPaired peer = false ∨
      ∃ state record c, m.peers peer = some state ∧ m.trust.peer peer = some record ∧
        answering hosts state.candidates = some c ∧
        (hosts c.addr).Turns (m.dialler ephemeral) peer record)
  | _ => False

/-- The operation marks the devices that refuse us, and leaves the others to be dialled. -/
def Marks (m : PeerManager) (op : PeerOp) : Prop :=
  ∀ peer, m.Due peer →
    ((m.step op).Refused peer ↔ op.Refuses m peer) ∧
      (¬ op.Refuses m peer → (m.step op).Due peer ∨ op = reload ∧ m.trust.isPaired peer = false)

/-- A device that is dialled has an address; where the first that takes the connection is the
device itself it does not refuse us, and what is replied there completes the handshake. -/
def Answered (m : PeerManager) : PeerOp → Prop
  | syncOne peer hosts ephemeral _ =>
    ∀ state record, m.peers peer = some state → state.refused = none →
      m.trust.peer peer = some record →
      state.candidates.isEmpty = false ∧ ∀ c, answering hosts state.candidates = some c →
        ¬ (hosts c.addr).Turns (m.dialler ephemeral) peer record ∧
          (m.dialler ephemeral).Finishes peer (hosts c.addr)
  | _ => True

end PeerOp

/-! ## One operation -/

omit [Snow] in
theorem isPaired_eq_false {trust : Trust} (h : trust.peer peer = none) :
    trust.isPaired peer = false := by
  rw [Bool.eq_false_iff]
  intro hpaired
  obtain ⟨record, hrecord⟩ := Trust.isPaired_iff.1 hpaired
  rw [h] at hrecord
  cases hrecord

namespace PeerManager

variable {m : PeerManager} {state : PeerState}

omit [Snow] in
theorem Due.not_refused (h : m.Due peer) : ¬ m.Refused peer := by
  obtain ⟨state, hs, hr⟩ := h
  intro ⟨state', reason, hs', hr'⟩
  rw [hs] at hs'
  cases hs'
  rw [hr] at hr'
  cases hr'

omit [Snow] in
theorem due_of_peers {m m' : PeerManager} (h : m.Due peer) (hp : m'.peers peer = m.peers peer) :
    m'.Due peer := by
  obtain ⟨state, hs, hr⟩ := h
  exact ⟨state, hp.trans hs, hr⟩

omit [Snow] in
theorem peers_update (m : PeerManager) (peer d : DeviceId) (f : PeerState → PeerState) :
    (m.update peer f).peers d = if d = peer then (m.peers d).map f else m.peers d := rfl

omit [Snow] in
/-- An update that does not mark leaves every device due that was. -/
theorem Due.update {d : DeviceId} {f : PeerState → PeerState} (h : m.Due d)
    (hf : ∀ state : PeerState, state.refused = none → (f state).refused = none) :
    (m.update peer f).Due d := by
  obtain ⟨state, hs, hr⟩ := h
  by_cases hd : d = peer
  · refine ⟨f state, ?_, hf state hr⟩
    rw [peers_update, if_pos hd, hs]
    rfl
  · exact ⟨state, by rw [peers_update, if_neg hd, hs], hr⟩

omit [Snow] in
theorem Due.refreshFromDiscovery {d : DeviceId} {events : List DiscoveryEvent} {now : UInt64}
    (h : m.Due d) : (m.refreshFromDiscovery events now).Due d := by
  unfold PeerManager.refreshFromDiscovery
  induction events generalizing m with
  | nil => exact h
  | cons event events ih =>
    apply ih
    cases event with
    | found device addresses _ => exact h.update fun _ hr => hr
    | lost _ => exact h
    | incompatible _ _ => exact h

omit [Snow] in
theorem Due.reloadFromTrust {d : DeviceId} (h : m.Due d) :
    m.reloadFromTrust.Due d ∨
      m.trust.isPaired d = false ∧ m.reloadFromTrust.peers d = none := by
  obtain ⟨state, hs, -⟩ := h
  cases hp : m.trust.peer d with
  | none => exact .inr ⟨isPaired_eq_false hp, by simp only [PeerManager.reloadFromTrust, hp]⟩
  | some record =>
    refine .inl ⟨state.reload (candidatesOf record.addresses), ?_, rfl⟩
    simp only [PeerManager.reloadFromTrust, hp, hs]

/-- What `sync_one` does to a device that is due. -/
theorem syncOne_of_due {ephemeral : Bytes} {completed : Option (UInt64 × UInt64)}
    (hs : m.peers peer = some state) (hr : state.refused = none) :
    ((m.dialler ephemeral).Stops hosts peer state.candidates →
        (m.syncOne peer hosts ephemeral completed).Refused peer) ∧
      (¬ (m.dialler ephemeral).Stops hosts peer state.candidates →
        (m.syncOne peer hosts ephemeral completed).Due peer) := by
  have hdue : m.Due peer := ⟨state, hs, hr⟩
  have hsome : state.refused.isSome = false := by rw [hr]; rfl
  unfold PeerManager.syncOne
  simp only [hs, hsome, Bool.false_eq_true, if_false, Dialler.Stops, dialler]
  cases hdial : Dialler.dial { identity := m.identity, trust := m.trust, ephemeral := ephemeral }
      hosts peer state.candidates with
  | ok link =>
    refine ⟨by simp, fun _ => ?_⟩
    cases completed with
    | none => exact hdue
    | some => exact hdue.update fun _ _ => rfl
  | error e =>
    have hpeer : (m.update peer (·.noteFailure e)).peers peer = some (state.noteFailure e) := by
      rw [peers_update, if_pos rfl, hs]
      rfl
    cases he : e.isRetryable with
    | true =>
      refine ⟨by simp [he], fun _ => ⟨_, hpeer, ?_⟩⟩
      rw [PeerState.noteFailure, if_pos he]
      exact hr
    | false =>
      refine ⟨fun _ => ⟨_, e.text, hpeer, ?_⟩, fun h => absurd ⟨e, rfl, he⟩ h⟩
      rw [PeerState.noteFailure, he]
      rfl

theorem refused_syncOne_iff {ephemeral : Bytes} {completed : Option (UInt64 × UInt64)}
    (hs : m.peers peer = some state) (hr : state.refused = none) :
    (m.syncOne peer hosts ephemeral completed).Refused peer ↔
      (m.dialler ephemeral).Stops hosts peer state.candidates := by
  obtain ⟨hstops, hdue⟩ :
      (_ → (m.syncOne peer hosts ephemeral completed).Refused peer) ∧ _ := syncOne_of_due hs hr
  refine ⟨fun hrefused => ?_, hstops⟩
  by_contra h
  exact (hdue h).not_refused hrefused

/-- Dialling one device does nothing to another. -/
theorem Due.syncOne {d : DeviceId} {ephemeral : Bytes} {completed : Option (UInt64 × UInt64)}
    (h : m.Due d) (hd : d ≠ peer) : (m.syncOne peer hosts ephemeral completed).Due d := by
  have hupdate : ∀ f : PeerState → PeerState, (m.update peer f).Due d := fun f =>
    due_of_peers h (by rw [peers_update, if_neg hd])
  unfold PeerManager.syncOne
  split
  · exact h
  split
  · exact h
  dsimp only
  split
  · split
    · exact hupdate _
    · exact h
  · exact hupdate _

/-- Only dialling it stops a device from being due, or a reload that finds it forgotten. -/
theorem Due.step {op : PeerOp} (h : m.Due peer)
    (hop : ∀ hosts ephemeral completed, op ≠ .syncOne peer hosts ephemeral completed) :
    (m.step op).Due peer ∨
      op = .reload ∧ m.trust.isPaired peer = false ∧ (m.step op).peers peer = none := by
  cases op with
  | syncOne dialled hosts ephemeral completed =>
    refine .inl (h.syncOne fun he => hop hosts ephemeral completed ?_)
    rw [he]
  | sweep events now => exact .inl h.refreshFromDiscovery
  | inbound => exact .inl (h.update fun _ _ => rfl)
  | reload => exact h.reloadFromTrust.imp_right fun hp => ⟨rfl, hp⟩
  | trust => exact .inl (due_of_peers h rfl)

end PeerManager

namespace PeerOp

variable {m : PeerManager}

omit [Snow] in
theorem candidates_ne_of_answering {candidates : CandidateList} {c : Candidate}
    (h : answering hosts candidates = some c) : candidates.isEmpty = false := by
  have hmem := (CandidateList.mem_dialOrder).1 (List.mem_of_find?_eq_some h)
  exact List.isEmpty_eq_false_iff.2 (List.ne_nil_of_mem hmem)

/-- Dialling stops at refusals alone exactly if the device has an address, does not refuse us, and
nothing but a handshake is replied. -/
theorem stops_iff_refuses_iff {state : PeerState} (ephemeral : Bytes)
    (completed : Option (UInt64 × UInt64)) (hs : m.peers peer = some state)
    (hr : state.refused = none) :
    ((m.dialler ephemeral).Stops hosts peer state.candidates ↔
        (syncOne peer hosts ephemeral completed).Refuses m peer) ↔
      (syncOne peer hosts ephemeral completed).Answered m := by
  rw [stops_iff]
  cases hp : m.trust.peer peer with
  | none =>
    have hunpaired := isPaired_eq_false hp
    refine iff_of_true ⟨fun _ => ⟨rfl, .inl hunpaired⟩, fun _ => .inl hunpaired⟩ ?_
    intro state record _ _ hp'
    rw [hp] at hp'
    cases hp'
  | some record =>
    have hpaired : (m.dialler ephemeral).trust.isPaired peer = true :=
      Trust.isPaired_iff.2 ⟨record, hp⟩
    have hrefuses : (syncOne peer hosts ephemeral completed).Refuses m peer ↔
        ∃ c, answering hosts state.candidates = some c ∧
          (hosts c.addr).Turns (m.dialler ephemeral) peer record := by
      constructor
      · rintro ⟨-, h' | ⟨state', record', c, hs', hp', hc, ht⟩⟩
        · exact absurd (h'.symm.trans hpaired) Bool.false_ne_true
        · rw [hs] at hs'
          rw [hp] at hp'
          cases hs'
          cases hp'
          exact ⟨c, hc, ht⟩
      · intro ⟨c, hc, ht⟩
        exact ⟨rfl, .inr ⟨state, record, c, hs, hp, hc, ht⟩⟩
    have hanswered : (syncOne peer hosts ephemeral completed).Answered m ↔
        state.candidates.isEmpty = false ∧ ∀ c, answering hosts state.candidates = some c →
          ¬ (hosts c.addr).Turns (m.dialler ephemeral) peer record ∧
            (m.dialler ephemeral).Finishes peer (hosts c.addr) := by
      refine ⟨fun h => h state record hs hr hp, fun h state' record' hs' _ hp' => ?_⟩
      rw [hs] at hs'
      rw [hp] at hp'
      cases hs'
      cases hp'
      exact h
    rw [hrefuses, hanswered, hpaired]
    cases hc : answering hosts state.candidates with
    | none => simp
    | some c =>
      have hfinishes : (hosts c.addr).Turns (m.dialler ephemeral) peer record →
          (m.dialler ephemeral).Finishes peer (hosts c.addr) := Host.Turns.finishes
      rw [candidates_ne_of_answering hc]
      simp only [Option.some.injEq, exists_eq_left', forall_eq', false_or, true_and,
        Bool.true_eq_false, Bool.false_eq_true]
      tauto

/-- An operation that does not dial the device is right about it. -/
theorem marks_of_not_dialled {op : PeerOp} (h : m.Due peer)
    (hop : ∀ hosts ephemeral completed, op ≠ syncOne peer hosts ephemeral completed) :
    ((m.step op).Refused peer ↔ op.Refuses m peer) ∧
      (¬ op.Refuses m peer →
        (m.step op).Due peer ∨ op = reload ∧ m.trust.isPaired peer = false) := by
  have hrefuses : ¬ op.Refuses m peer := by
    intro hr
    cases op with
    | syncOne dialled hosts ephemeral completed =>
      obtain ⟨rfl, -⟩ := hr
      exact hop hosts ephemeral completed rfl
    | sweep | inbound | reload | trust => exact hr
  rcases h.step hop with hdue | ⟨hreload, hunpaired, hgone⟩
  · exact ⟨iff_of_false hdue.not_refused hrefuses, fun _ => .inl hdue⟩
  · refine ⟨iff_of_false (fun ⟨state, _, hs, _⟩ => ?_) hrefuses, fun _ => .inr ⟨hreload, hunpaired⟩⟩
    rw [hgone] at hs
    cases hs

/-- **One operation** marks the devices that refuse us and no others exactly if, should it dial a
device that is due, that is answered. -/
theorem marks_iff_answered (m : PeerManager) (op : PeerOp) : op.Marks m ↔ op.Answered m := by
  by_cases hdial : ∃ dialled hosts ephemeral completed,
      op = syncOne dialled hosts ephemeral completed
  · obtain ⟨dialled, hosts, ephemeral, completed, rfl⟩ := hdial
    constructor
    · intro h state record hs hr
      refine (stops_iff_refuses_iff ephemeral completed hs hr).1 ?_ state record hs hr
      rw [← PeerManager.refused_syncOne_iff hs hr]
      exact (h dialled ⟨state, hs, hr⟩).1
    · intro h peer hdue
      by_cases hd : peer = dialled
      · subst hd
        obtain ⟨state, hs, hr⟩ := hdue
        have hstops := (stops_iff_refuses_iff ephemeral completed hs hr).2 h
        refine ⟨(PeerManager.refused_syncOne_iff hs hr).trans hstops, fun hrefuses => .inl ?_⟩
        exact (PeerManager.syncOne_of_due hs hr).2 (mt hstops.1 hrefuses)
      · refine marks_of_not_dialled hdue fun _ _ _ he => hd ?_
        cases he
        rfl
  · refine iff_of_true (fun peer hdue => marks_of_not_dialled hdue ?_) ?_
    · intro hosts ephemeral completed he
      exact hdial ⟨peer, hosts, ephemeral, completed, he⟩
    · cases op with
      | syncOne dialled hosts ephemeral completed => exact absurd ⟨_, _, _, _, rfl⟩ hdial
      | sweep | inbound | reload | trust => trivial

end PeerOp

/-! ## What discovery found last -/

omit [Snow] in
def DiscoveryEvent.foundFor (peer : DeviceId) : DiscoveryEvent → List SocketAddr
  | .found device addresses _ => if device = peer then addresses else []
  | _ => []

omit [Snow] in
/-- The addresses that a sweep found for the device. -/
def PeerOp.foundFor (op : PeerOp) (peer : DeviceId) : List SocketAddr :=
  match op with
  | .sweep events _ => events.flatMap (DiscoveryEvent.foundFor peer)
  | _ => []

/-- The table, with what the last sweep that found a device has found. -/
structure Watched where
  manager : PeerManager
  found : DeviceId → List SocketAddr

namespace Watched

/-- An operation, remembering what it finds of the devices in the table. -/
def step (w : Watched) (op : PeerOp) : Watched where
  manager := w.manager.step op
  found peer :=
    if ((w.manager.step op).peers peer).isNone then []
    else if op.foundFor peer = [] then w.found peer
    else op.foundFor peer

/-- An address that discovery found last is among those that a dial of a device that is due goes
through: it is attempted unless an earlier one connects. -/
def DialsFound (w : Watched) : PeerOp → Prop
  | .syncOne peer _ _ _ =>
    ∀ state, w.manager.peers peer = some state → state.refused = none → w.found peer ≠ [] →
      ∃ c ∈ state.candidates.dialOrder, c.addr ∈ w.found peer
  | _ => True

/-- When a sweep finds a device, fewer than six other LAN addresses of it were seen no earlier. -/
def Timely (w : Watched) : PeerOp → Prop
  | .sweep events now =>
    ∀ peer state, w.manager.peers peer = some state →
      (PeerOp.sweep events now).foundFor peer ≠ [] →
      state.candidates.crowd ((PeerOp.sweep events now).foundFor peer) now < maxLanCandidates
  | _ => True

/-- Of what discovery found last, an address is in the list. -/
structure Inv (w : Watched) : Prop where
  gone : ∀ peer, w.manager.peers peer = none → w.found peer = []
  has : ∀ peer state, w.manager.peers peer = some state → w.found peer ≠ [] →
    ∃ addr ∈ w.found peer, state.candidates.Has addr

omit [Snow] in
theorem Inv.dialsFound {w : Watched} (h : w.Inv) (op : PeerOp) : w.DialsFound op := by
  cases op with
  | syncOne peer hosts ephemeral completed =>
    intro state hs _ hne
    obtain ⟨addr, haddr, c, hc, rfl⟩ := h.has peer state hs hne
    exact ⟨c, CandidateList.mem_dialOrder.2 hc, haddr⟩
  | sweep | inbound | reload | trust => trivial

end Watched

namespace PeerManager

variable {m : PeerManager} {state state' : PeerState} {addr : SocketAddr}

omit [Snow] in
theorem has_update {d : DeviceId} {f : PeerState → PeerState} (hs : m.peers peer = some state)
    (hs' : (m.update d f).peers peer = some state')
    (hf : (f state).candidates.Has addr) (h : state.candidates.Has addr) :
    state'.candidates.Has addr := by
  rw [peers_update, hs] at hs'
  split at hs'
  · cases hs'
    exact hf
  · cases hs'
    exact h

omit [Snow] in
theorem has_noteSuccess {reachability : Reachability} {now now' : UInt64} {d : DeviceId}
    {addr' : SocketAddr} (hs : m.peers peer = some state)
    (hs' : (m.noteSuccess d addr' reachability now now').peers peer = some state')
    (h : state.candidates.Has addr) : state'.candidates.Has addr :=
  has_update hs hs' (CandidateList.has_upsert.2 (.inl h)) h

theorem has_syncOne {d : DeviceId} {ephemeral : Bytes} {completed : Option (UInt64 × UInt64)}
    (hs : m.peers peer = some state)
    (hs' : (m.syncOne d hosts ephemeral completed).peers peer = some state')
    (h : state.candidates.Has addr) : state'.candidates.Has addr := by
  have hsame : m.peers peer = some state' → state'.candidates.Has addr := by
    intro hs'
    rw [hs] at hs'
    cases hs'
    exact h
  unfold PeerManager.syncOne at hs'
  split at hs'
  · exact hsame hs'
  split at hs'
  · exact hsame hs'
  dsimp only at hs'
  split at hs'
  · split at hs'
    · exact has_noteSuccess hs hs' h
    · exact hsame hs'
  · refine has_update hs hs' ?_ h
    unfold PeerState.noteFailure
    split <;> exact h

omit [Snow] in
theorem has_reloadFromTrust (hs : m.peers peer = some state)
    (hs' : m.reloadFromTrust.peers peer = some state') (h : state.candidates.Has addr) :
    state'.candidates.Has addr := by
  simp only [PeerManager.reloadFromTrust, hs] at hs'
  split at hs'
  · cases hs'
  · cases hs'
    exact CandidateList.has_foldl_upsert h

omit [Snow] in
theorem peers_handleEvent {now : UInt64} {event : DiscoveryEvent} (h : event.foundFor peer = []) :
    (m.handleEvent now event).peers peer = m.peers peer := by
  cases event with
  | found device addresses hne =>
    refine (peers_update _ _ _ _).trans (if_neg ?_)
    rintro rfl
    rw [DiscoveryEvent.foundFor, if_pos rfl] at h
    exact hne h
  | lost | incompatible => rfl

omit [Snow] in
theorem peers_refreshFromDiscovery {now : UInt64} {events : List DiscoveryEvent}
    (h : ∀ event ∈ events, event.foundFor peer = []) :
    (m.refreshFromDiscovery events now).peers peer = m.peers peer := by
  unfold PeerManager.refreshFromDiscovery
  induction events generalizing m with
  | nil => rfl
  | cons event events ih =>
    rw [List.forall_mem_cons] at h
    exact (ih h.2).trans (peers_handleEvent h.1)

omit [Snow] in
/-- Discovery never adds a device. -/
theorem refreshFromDiscovery_none {now : UInt64} {events : List DiscoveryEvent}
    (h : m.peers peer = none) : (m.refreshFromDiscovery events now).peers peer = none := by
  unfold PeerManager.refreshFromDiscovery
  induction events generalizing m with
  | nil => exact h
  | cons event events ih =>
    apply ih
    cases event with
    | found device addresses _ =>
      show (m.update device _).peers peer = none
      rw [peers_update, h]
      exact ite_self _
    | lost | incompatible => exact h

omit [Snow] in
/-- A sweep leaves an address that it found, unless others crowd them all out. -/
theorem fresh_refreshFromDiscovery {found : List SocketAddr} {now : UInt64}
    {events : List DiscoveryEvent} (hs : m.peers peer = some state)
    (hsub : ∀ event ∈ events, event.foundFor peer ⊆ found)
    (hcrowd : state.candidates.crowd found now < maxLanCandidates)
    (h : (∃ event ∈ events, event.foundFor peer ≠ []) ∨
      ∃ c ∈ state.candidates.candidates.rows, c.Fresh found now) :
    ∃ state', (m.refreshFromDiscovery events now).peers peer = some state' ∧
      ∃ c ∈ state'.candidates.candidates.rows, c.Fresh found now := by
  unfold PeerManager.refreshFromDiscovery
  induction events generalizing m state with
  | nil => exact ⟨state, hs, h.resolve_left (by simp)⟩
  | cons event events ih =>
    rw [List.forall_mem_cons] at hsub
    by_cases hnone : event.foundFor peer = []
    · refine ih ((peers_handleEvent hnone).trans hs) hsub.2 hcrowd (h.imp_left ?_)
      intro ⟨event', hmem, hne⟩
      rcases List.mem_cons.1 hmem with rfl | hmem
      · exact absurd hnone hne
      · exact ⟨event', hmem, hne⟩
    · cases event with
      | found device addresses hne =>
        obtain rfl : device = peer := by
          by_contra hd
          exact hnone (if_neg hd)
        have hsub₁ : addresses ⊆ found := by
          have h₁ := hsub.1
          rwa [DiscoveryEvent.foundFor, if_pos rfl] at h₁
        obtain ⟨hcrowd', hfresh⟩ :=
          CandidateList.exists_fresh_refreshLan hsub₁ hcrowd (.inl hne)
        refine @ih _ (state.refresh addresses now) ?_ hsub.2 hcrowd' (.inr hfresh)
        show (m.update device _).peers device = _
        rw [peers_update, if_pos rfl, hs]
        rfl
      | lost | incompatible => exact absurd rfl hnone

/-- Only a sweep that finds the device can take an address from its list. -/
theorem has_step {op : PeerOp} (hop : op.foundFor peer = []) (hs : m.peers peer = some state)
    (hs' : (m.step op).peers peer = some state') (h : state.candidates.Has addr) :
    state'.candidates.Has addr := by
  have hsame : (m.step op).peers peer = m.peers peer → state'.candidates.Has addr := by
    intro he
    rw [he, hs] at hs'
    cases hs'
    exact h
  cases op with
  | syncOne => exact has_syncOne hs hs' h
  | inbound => exact has_noteSuccess hs hs' h
  | reload => exact has_reloadFromTrust hs hs' h
  | trust => exact hsame rfl
  | sweep events now =>
    exact hsame (peers_refreshFromDiscovery (List.flatMap_eq_nil_iff.1 hop))

end PeerManager

namespace Watched

/-- The dials keep trying what discovery found last, as long as the sweeps are timely. -/
theorem Inv.step {w : Watched} {op : PeerOp} (h : w.Inv) (htimely : w.Timely op) :
    (w.step op).Inv := by
  refine ⟨fun peer hnone => ?_, fun peer state' hs' hne => ?_⟩
  · show (if ((w.manager.step op).peers peer).isNone then _ else _) = _
    rw [if_pos (by rw [show (w.manager.step op).peers peer = none from hnone]; rfl)]
  · have hfound : (w.step op).found peer =
        if op.foundFor peer = [] then w.found peer else op.foundFor peer := by
      refine if_neg ?_
      rw [show (w.manager.step op).peers peer = some state' from hs']
      exact Bool.false_ne_true
    rw [hfound] at hne ⊢
    by_cases hop : op.foundFor peer = []
    · rw [if_pos hop] at hne ⊢
      cases hs : w.manager.peers peer with
      | none => exact absurd (h.gone peer hs) hne
      | some state =>
        obtain ⟨addr, haddr, hhas⟩ := h.has peer state hs hne
        exact ⟨addr, haddr, PeerManager.has_step hop hs hs' hhas⟩
    · rw [if_neg hop]
      cases op with
      | syncOne | inbound | reload | trust => exact absurd rfl hop
      | sweep events now =>
        cases hs : w.manager.peers peer with
        | none =>
          rw [show (w.step (.sweep events now)).manager.peers peer = none from
            PeerManager.refreshFromDiscovery_none hs] at hs'
          cases hs'
        | some state =>
          obtain ⟨state₁, hs₁, c, hc, hfresh⟩ := PeerManager.fresh_refreshFromDiscovery hs
            (fun event hevent addr haddr => List.mem_flatMap.2 ⟨event, hevent, haddr⟩)
            (htimely peer state hs hop)
            (.inl (by simpa [PeerOp.foundFor] using hop))
          rw [show (w.manager.refreshFromDiscovery events now).peers peer = some state' from hs']
            at hs₁
          cases hs₁
          exact ⟨c.addr, hfresh.1, c, hc, rfl⟩

end Watched

/-! ## Runs -/

/-- The daemon starts. -/
def Watched.start (identity : DeviceIdentity) (trust : Trust) : Watched :=
  { manager := .new identity trust, found := fun _ => [] }

/-- **Only a refusal stops dialling** in a run exactly if every device that is dialled has an
address, and where the first address that takes the connection leads is neither the device refusing
us nor anything that replies with something else than the handshake. And in a run whose sweeps are
timely, the device is dialled at what discovery found last. -/
theorem marked_iff_answered (identity : DeviceIdentity) (trust : Trust) (ops : List PeerOp) :
    (Stepwise Watched.step (fun w op => op.Marks w.manager) (.start identity trust) ops ↔
        Stepwise Watched.step (fun w op => op.Answered w.manager) (.start identity trust) ops) ∧
      (Stepwise Watched.step Watched.Timely (.start identity trust) ops →
        Stepwise Watched.step Watched.DialsFound (.start identity trust) ops) := by
  constructor
  · exact stepwise_congr (I := fun _ => True) (fun _ _ _ _ => trivial)
      (fun w op _ => op.marks_iff_answered w.manager) trivial
  · have hinv : (Watched.start identity trust).Inv :=
      ⟨fun _ _ => rfl, fun _ _ _ hne => absurd rfl hne⟩
    exact fun h => h.imp (fun _ _ hw ht => hw.step ht) (fun _ op hw _ => hw.dialsFound op) hinv

end

/-! ## A device without an address -/

section
attribute [local instance] Snow.examples

/-- Nothing has been recorded of where the phone is. Dialling it marks it, and what discovery then
finds is not tried. -/
theorem not_marks_refusals_only :
    ¬ ∀ (identity : DeviceIdentity) (trust : Trust) (ops : List PeerOp),
      Stepwise Watched.step (fun w op => op.Marks w.manager) (.start identity trust) ops ∧
        Stepwise Watched.step Watched.DialsFound (.start identity trust) ops := by
  intro h
  obtain ⟨⟨hmarks, -⟩, -⟩ := h laptopDialler.identity laptopDialler.trust
    [.syncOne (.repeated 2) (fun _ => phoneHost) [] none]
  obtain ⟨hrefused, -⟩ := hmarks (.repeated 2) ⟨_, rfl, rfl⟩
  obtain ⟨-, hunpaired | ⟨state, record, c, hs, -, hc, -⟩⟩ :=
    hrefused.1 ⟨_, "peer has no known addresses", rfl, rfl⟩
  · exact absurd hunpaired (by decide)
  · cases hs
    cases hc

theorem answering_hostsWith_silent {candidates : CandidateList} {c : Candidate}
    (h : answering (hostsWith .silent) candidates = some c) :
    hostsWith .silent c.addr = phoneHost := by
  unfold answering at h
  have hconnect := List.find?_some h
  by_cases hc : c.addr = onLan 7
  · exact if_pos hc
  · rw [hostsWith, if_neg hc] at hconnect
    cases hconnect

/-- Found, the phone is dialled where it was found. -/
theorem marked_iff_answered_phone :
    Stepwise Watched.step (fun w op => op.Marks w.manager)
        (.start laptopDialler.identity laptopDialler.trust)
        [.sweep [.found (.repeated 2) [onLan 7] (by decide)] 5,
          .syncOne (.repeated 2) (hostsWith .silent) [] none] ∧
      Stepwise Watched.step Watched.DialsFound
        (.start laptopDialler.identity laptopDialler.trust)
        [.sweep [.found (.repeated 2) [onLan 7] (by decide)] 5,
          .syncOne (.repeated 2) (hostsWith .silent) [] none] := by
  obtain ⟨hmarks, hfound⟩ := marked_iff_answered laptopDialler.identity laptopDialler.trust
    [.sweep [.found (.repeated 2) [onLan 7] (by decide)] 5,
      .syncOne (.repeated 2) (hostsWith .silent) [] none]
  refine ⟨hmarks.2 ⟨trivial, ?_, trivial⟩, hfound ⟨?_, trivial, trivial⟩⟩
  · intro state record hs _ hp
    cases hs
    cases hp
    refine ⟨by decide +kernel, fun c hc => ?_⟩
    rw [answering_hostsWith_silent hc]
    exact ⟨leads_phoneHost.not_turns, leads_phoneHost.finishes noiseIk_examples⟩
  · intro peer state hs hne
    obtain rfl : DeviceId.repeated 2 = peer := by
      by_contra hd
      refine hne ?_
      rw [PeerOp.foundFor, List.flatMap_singleton, DiscoveryEvent.foundFor, if_neg hd]
    cases hs
    decide +kernel

end
end Clipse
