import Clipse.Net.Dial
import Clipse.Net.Proof.Candidate

/-!
# Which address a dial ends at (`clipse-net/src/quic.rs`)

`dial` is committed to the first address that takes the connection. So it finds the peer, at the
first address that leads to it, exactly if no address before that one takes the connection
(`dial_finds_peer_iff`).
-/

namespace Clipse

section
variable [Snow]

/-- What `snow` promises of `Noise_IK`: a message is no longer than 65535 bytes, and what a
responder replies to a first message that it could read, the initiator can read. -/
structure NoiseIk : Prop where
  short : ∀ {state state' : Snow.HandshakeState} {message : Bytes},
    Snow.writeHandshake state = some (message, state') → message.length ≤ maxFrameBytes
  completes : ∀ {secret secret' : DeviceSecretKey} {remote : DevicePublicKey}
    {ephemeral ephemeral' first reply : Bytes} {i i' r r' r'' : Snow.HandshakeState},
    Snow.buildInitiator secret remote ephemeral = some i →
    Snow.writeHandshake i = some (first, i') →
    Snow.buildResponder secret' ephemeral' = some r → Snow.readHandshake r first = some r' →
    Snow.writeHandshake r' = some (reply, r'') →
    ∃ i'' transport, Snow.readHandshake i' reply = some i'' ∧
      Snow.intoTransport i'' = some transport

/-! ## The handshake -/

omit [Snow] in
theorem mapError_eq_ok {ε ε' α : Type} {f : ε → ε'} {x : Except ε α} {a : α} :
    x.mapError f = .ok a ↔ x = .ok a := by
  cases x <;> simp [Except.mapError]

omit [Snow] in
theorem readFrame_eq_ok {frame frame' : Bytes} (h : PeerLink.readFrame frame = .ok frame') :
    frame' = frame := by
  unfold PeerLink.readFrame at h
  split at h
  · cases h
  · exact (Except.ok.inj h).symm

variable {d : Dialler} {hosts : SocketAddr → Host} {peer : DeviceId} {record : PairedDevice}
  {host : Host} {info : LinkInfo} {link : PeerLink}

/-- The host is the paired device, and it accepts the dialler's first message. -/
inductive Host.Leads (d : Dialler) (peer : DeviceId) (record : PairedDevice) : Host → Prop where
  | intro {identity : DeviceIdentity} {trust : Trust} {ephemeral first reply : Bytes}
      {initiator : HandshakeInitiator} (hkey : identity.publicKey = record.staticPublic)
      (hstart : HandshakeInitiator.start d.identity d.trust peer d.ephemeral =
        .ok (initiator, first))
      (haccept : acceptOne identity trust ephemeral first = .ok reply) :
      Host.Leads d peer record (.device identity trust ephemeral)

theorem Host.Leads.connect (h : host.Leads d peer record) : host.connect = .ok () := by
  cases h
  rfl

/-- Whom a finished handshake is with. -/
theorem finish_remote {initiator : HandshakeInitiator} {reply : Bytes} {session : SecureSession}
    (h : initiator.finish reply = .ok session) :
    session.remoteDeviceId = initiator.remoteDeviceId ∧
      session.remoteStatic = initiator.remoteStatic := by
  unfold HandshakeInitiator.finish at h
  simp only [bind_eq_ok, orError_eq_ok] at h
  obtain ⟨state, -, transport, -, h⟩ := h
  cases h
  exact ⟨rfl, rfl⟩

theorem start_remote {initiator : HandshakeInitiator} {first : Bytes}
    (hp : d.trust.peer peer = some record)
    (h : HandshakeInitiator.start d.identity d.trust peer d.ephemeral = .ok (initiator, first)) :
    initiator.remoteDeviceId = peer ∧ initiator.remoteStatic = record.staticPublic := by
  unfold HandshakeInitiator.start at h
  simp only [bind_eq_ok, orError_eq_ok] at h
  obtain ⟨p, hp', state, -, ⟨message, state'⟩, -, h⟩ := h
  rw [hp] at hp'
  cases hp'
  cases h
  exact ⟨rfl, rfl⟩

theorem finish_of_read {initiator : HandshakeInitiator} {reply : Bytes}
    {state : Snow.HandshakeState} {transport : Snow.TransportState}
    (hread : Snow.readHandshake initiator.state reply = some state)
    (htransport : Snow.intoTransport state = some transport) :
    ∃ session, initiator.finish reply = .ok session := by
  unfold HandshakeInitiator.finish
  simp only [bind_eq_ok, orError_eq_ok]
  exact ⟨_, state, hread, transport, htransport, rfl⟩

/-- The peer's reply is one that the dialler can use. -/
theorem finish_of_accept (hn : NoiseIk) {identity : DeviceIdentity} {trust : Trust}
    {ephemeral first reply : Bytes} {initiator : HandshakeInitiator}
    (hstart : HandshakeInitiator.start d.identity d.trust peer d.ephemeral =
      .ok (initiator, first))
    (haccept : acceptOne identity trust ephemeral first = .ok reply) :
    PeerLink.readFrame reply = .ok reply ∧ ∃ session, initiator.finish reply = .ok session := by
  unfold HandshakeInitiator.start at hstart
  simp only [bind_eq_ok, orError_eq_ok] at hstart
  obtain ⟨p, -, i, hbuild, ⟨message, i'⟩, hwrite, hstart⟩ := hstart
  cases hstart
  unfold acceptOne at haccept
  simp only [bind_eq_ok, mapError_eq_ok] at haccept
  obtain ⟨first', hfirst, responder, hr, ⟨session', reply'⟩, hreply, haccept⟩ := haccept
  cases haccept
  obtain rfl : first' = message := readFrame_eq_ok hfirst
  unfold HandshakeResponder.accept at hr
  simp only [bind_eq_ok, orError_eq_ok] at hr
  obtain ⟨r, hbuild', r', hread, bytes, -, p', -, hr⟩ := hr
  cases hr
  unfold HandshakeResponder.respond at hreply
  simp only [bind_eq_ok, orError_eq_ok] at hreply
  obtain ⟨⟨reply', r''⟩, hwrite', t, -, hreply⟩ := hreply
  cases hreply
  obtain ⟨i'', t', hread', htransport⟩ := hn.completes hbuild hwrite hbuild' hread hwrite'
  have hshort := hn.short hwrite'
  exact ⟨if_neg (show ¬ reply'.length > maxFrameBytes by omega),
    finish_of_read hread' htransport⟩

/-- The link that the peer's address gives. -/
theorem handshake_of_leads (hn : NoiseIk) (hp : d.trust.peer peer = some record)
    (h : host.Leads d peer record) (addr : SocketAddr) (reachability : Reachability) :
    ∃ link, d.handshakeAsInitiator host peer addr reachability =
        .ok (⟨peer, addr, reachability⟩, link) ∧
      link.session.remoteDeviceId = peer ∧ link.session.remoteStatic = record.staticPublic := by
  obtain ⟨hkey, hstart, haccept⟩ := h
  obtain ⟨hread, session, hfinish⟩ := finish_of_accept hn hstart haccept
  obtain ⟨hid, hstatic⟩ := start_remote hp hstart
  obtain ⟨hid', hstatic'⟩ := finish_remote hfinish
  refine ⟨.new session, ?_, hid'.trans hid, hstatic'.trans hstatic⟩
  unfold Dialler.handshakeAsInitiator Host.reply
  simp only [hstart, haccept, hread, hfinish, hid', hid]

/-- A handshake is made at the address that was connected to. -/
theorem addr_of_handshake {addr : SocketAddr} {reachability : Reachability}
    (h : d.handshakeAsInitiator host peer addr reachability = .ok (info, link)) :
    info.addr = addr := by
  unfold Dialler.handshakeAsInitiator at h
  split at h
  · cases h
  split at h
  · cases h
  split at h
  · cases h
  · cases h
    rfl

/-! ## The loop -/

/-- Addresses that do not take the connection are passed over. -/
theorem tryEach_append {before : List Candidate} (rest : List Candidate)
    (attempts : List AttemptFailure) (h : ∀ b ∈ before, (hosts b.addr).connect ≠ .ok ()) :
    ∃ attempts', d.tryEach hosts peer (before ++ rest) attempts =
      d.tryEach hosts peer rest attempts' := by
  induction before generalizing attempts with
  | nil => exact ⟨attempts, rfl⟩
  | cons b before ih =>
    rw [List.forall_mem_cons] at h
    rw [List.cons_append, Dialler.tryEach]
    cases hb : (hosts b.addr).connect with
    | error reason => exact ih _ h.2
    | ok => exact absurd hb h.1

/-- The first address that takes the connection decides. -/
theorem tryEach_of_connect {before rest : List Candidate} {c : Candidate}
    {attempts : List AttemptFailure} (h : ∀ b ∈ before, (hosts b.addr).connect ≠ .ok ())
    (hc : (hosts c.addr).connect = .ok ()) :
    d.tryEach hosts peer (before ++ c :: rest) attempts =
      d.handshakeAsInitiator (hosts c.addr) peer c.addr c.reachability := by
  obtain ⟨attempts', he⟩ := tryEach_append (c :: rest) attempts h
  rw [he, Dialler.tryEach, hc]

omit [Snow] in
/-- Of the addresses that take the connection, one comes first. -/
theorem exists_first {candidates : List Candidate} {b : Candidate} (hb : b ∈ candidates)
    (h : (hosts b.addr).connect = .ok ()) :
    ∃ before c after, candidates = before ++ c :: after ∧ (hosts c.addr).connect = .ok () ∧
      ∀ x ∈ before, (hosts x.addr).connect ≠ .ok () := by
  induction candidates with
  | nil => cases hb
  | cons c candidates ih =>
    by_cases hc : (hosts c.addr).connect = .ok ()
    · exact ⟨[], c, candidates, rfl, hc, by simp⟩
    · have hb' : b ∈ candidates := by
        rcases List.mem_cons.1 hb with rfl | hb'
        · exact absurd h hc
        · exact hb'
      obtain ⟨before, c', after, rfl, hc', hbefore⟩ := ih hb'
      exact ⟨c :: before, c', after, rfl, hc', List.forall_mem_cons.2 ⟨hc, hbefore⟩⟩

/-- **Dialling finds the peer** at an address that leads to it exactly if no address before that one
takes the connection. -/
theorem dial_finds_peer_iff (hn : NoiseIk) {candidates : CandidateList} {c : Candidate}
    {before after : List Candidate} (hp : d.trust.peer peer = some record)
    (horder : candidates.dialOrder = before ++ c :: after)
    (hc : (hosts c.addr).Leads d peer record) :
    (∃ link, d.dial hosts peer candidates = .ok (⟨peer, c.addr, c.reachability⟩, link) ∧
        link.session.remoteDeviceId = peer ∧ link.session.remoteStatic = record.staticPublic) ↔
      ∀ b ∈ before, (hosts b.addr).connect ≠ .ok () := by
  have hpaired : d.trust.isPaired peer := Trust.isPaired_iff.2 ⟨record, hp⟩
  have hsome : candidates.isEmpty = false := by
    have hperm := List.perm_insertionSort Candidate.before candidates.candidates.rows
    rw [show candidates.candidates.rows.insertionSort Candidate.before = _ from horder] at hperm
    have hmem : c ∈ candidates.candidates.rows := hperm.subset (by simp)
    exact List.isEmpty_eq_false_iff.2 (List.ne_nil_of_mem hmem)
  have hdial : d.dial hosts peer candidates = d.tryEach hosts peer (before ++ c :: after) [] := by
    rw [Dialler.dial, hpaired, hsome, horder]
    rfl
  rw [hdial]
  constructor
  · intro ⟨link, hok, _⟩ b hb hconnect
    obtain ⟨before₁, b', before₂, rfl, hb', hfirst⟩ := exists_first hb hconnect
    rw [List.append_assoc, List.cons_append, tryEach_of_connect hfirst hb'] at hok
    have haddr : c.addr = b'.addr := addr_of_handshake hok
    have hnodup := candidates.nodup_dialOrder
    rw [horder] at hnodup
    simp [haddr, List.nodup_append] at hnodup
  · intro h
    obtain ⟨link, hok, hlink⟩ := handshake_of_leads hn hp hc c.addr c.reachability
    exact ⟨link, (tryEach_of_connect h hc.connect).trans hok, hlink⟩

end

/-! ## An address that another machine has now -/

section
attribute [local instance] Snow.examples

theorem noiseIk_examples : NoiseIk where
  short {state state' message} h := by
    have hlength : ∀ n : Nat,
        (List.replicate (if n = 0 then 96 else 48) (0 : UInt8)).length ≤ 65535 := by
      intro n
      rw [List.length_replicate]
      split <;> omega
    cases h
    exact hlength state
  completes {_ _ _ _ _ _ _ _ _ _ _ _} hi hw hr hread hw' := by
    cases hi
    cases hw
    cases hr
    cases hread
    cases hw'
    exact ⟨(2 : Nat), (), rfl, rfl⟩

/-- The laptop, under the key that every first message proves here. -/
def callingLaptop : DeviceIdentity :=
  { DeviceIdentity.laptop with publicKey := ⟨.replicate 32 1⟩ }

/-- The laptop dials. -/
def laptopDialler : Dialler :=
  { identity := callingLaptop, ephemeral := []
    trust := (Trust.new (.repeated 1)).addPeer (recordOf .phone) }

def phoneHost : Host :=
  .device .phone ((Trust.new (.repeated 2)).addPeer (recordOf callingLaptop)) []

/-- The machine with this last byte of the address. -/
def onLan (b : UInt8) : SocketAddr := .onHomeLan b 51820

/-- The two addresses at which the laptop has seen the phone, the last time at 9. -/
def phoneCandidates : CandidateList :=
  .new [(Candidate.lan (onLan 7)).seenAt 1, (Candidate.lan (onLan 9)).seenAt 2]

/-- The phone is at 7, and `host` at every other address. -/
def hostsWith (host : Host) (addr : SocketAddr) : Host :=
  if addr = onLan 7 then phoneHost else host

theorem dialOrder_phoneCandidates : phoneCandidates.dialOrder =
    [(Candidate.lan (onLan 9)).seenAt 2] ++ (Candidate.lan (onLan 7)).seenAt 1 :: [] := by
  decide +kernel

theorem peer_phone : laptopDialler.trust.peer (.repeated 2) = some (recordOf .phone) := by
  decide

theorem leads_phoneHost : phoneHost.Leads laptopDialler (.repeated 2) (recordOf .phone) :=
  @Host.Leads.intro _ _ _ _ .phone _ [] (.replicate 96 0) (.replicate 48 0)
    ⟨(1 : Nat), .repeated 2, DeviceIdentity.phone.publicKey, 0⟩ rfl rfl rfl

/-- A machine that has taken the phone's address over is not passed over. -/
theorem not_dial_finds_peer :
    ¬ ∀ (d : Dialler) (hosts : SocketAddr → Host) (peer : DeviceId) (record : PairedDevice)
        (candidates : CandidateList) (before after : List Candidate) (c : Candidate),
      d.trust.peer peer = some record → candidates.dialOrder = before ++ c :: after →
      (hosts c.addr).Leads d peer record →
      (∀ b ∈ before, ¬ (hosts b.addr).Leads d peer record) →
      ∃ link, d.dial hosts peer candidates = .ok (⟨peer, c.addr, c.reachability⟩, link) ∧
        link.session.remoteDeviceId = peer ∧
        link.session.remoteStatic = record.staticPublic := by
  intro h
  obtain ⟨link, hok, -⟩ := h laptopDialler (hostsWith .closing) (.repeated 2) (recordOf .phone)
    phoneCandidates _ _ _ peer_phone dialOrder_phoneCandidates leads_phoneHost (by
      intro b hb hleads
      rw [List.mem_singleton.1 hb] at hleads
      cases hleads)
  cases hok

/-- An address at which nobody answers is. -/
theorem dial_finds_phone : ∃ link,
    laptopDialler.dial (hostsWith .silent) (.repeated 2) phoneCandidates =
        .ok (⟨.repeated 2, onLan 7, .lan⟩, link) ∧
      link.session.remoteDeviceId = .repeated 2 ∧
      link.session.remoteStatic = (recordOf .phone).staticPublic :=
  (dial_finds_peer_iff noiseIk_examples peer_phone dialOrder_phoneCandidates leads_phoneHost).2 (by
    intro b hb hconnect
    rw [List.mem_singleton.1 hb] at hconnect
    cases hconnect)

end
end Clipse
