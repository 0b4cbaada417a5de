import Clipse.Crypto.Session

/-!
# Which key a session is authorised under

A device changes its trust set while handshakes are under way and sessions are open
(`Endpoint.Step`). Every session remembers the device, the key and the epoch that its handshake
began with; `Endpoint.Valid` says that the trust set of that moment held exactly this record, and
that today's trust set is that one after the changes since.

`authorized_under_current_key_iff`: `authorize_session` looks at the epoch and at the device's id
only, so it answers for the session's key exactly as long as the device is not paired again with
another key while the epoch stands still.
-/

namespace Clipse

section
variable [Snow]

/-! ## Endpoints -/

/-- A half of a handshake, with the trust set when it began and the changes since. -/
structure Half (α : Type) where
  half : α
  began : Trust
  changes : List TrustOp

/-- A session, with the trust set when its handshake began, the changes until it was established
and those since. -/
structure OpenSession where
  session : SecureSession
  began : Trust
  during : List TrustOp
  after : List TrustOp

/-- A device: its trust set, the handshakes under way and the sessions. -/
structure Endpoint where
  identity : DeviceIdentity
  trust : Trust
  initiators : List (Half HandshakeInitiator)
  responders : List (Half HandshakeResponder)
  sessions : List OpenSession

/-- Note a change of the trust set. -/
def Half.note {α : Type} (op : TrustOp) (h : Half α) : Half α :=
  { h with changes := h.changes ++ [op] }

def OpenSession.note (op : TrustOp) (o : OpenSession) : OpenSession :=
  { o with after := o.after ++ [op] }

/-- Every change of the trust set since the handshake began. -/
def OpenSession.changes (o : OpenSession) : List TrustOp := o.during ++ o.after

/-- How many removals succeeded since the session was established. -/
def OpenSession.removalsSince (o : OpenSession) : Nat :=
  (o.began.applyAll o.during).removals o.after

namespace Endpoint

/-- A device with no handshake and no session. -/
def new (identity : DeviceIdentity) (trust : Trust) : Endpoint :=
  { identity, trust, initiators := [], responders := [], sessions := [] }

/-- Change the trust set. -/
def change (e : Endpoint) (op : TrustOp) : Endpoint :=
  { e with
    trust := e.trust.apply op
    initiators := e.initiators.map (·.note op)
    responders := e.responders.map (·.note op)
    sessions := e.sessions.map (·.note op) }

/-- One step: a change of the trust set, or a step of a handshake with any peer at all. -/
inductive Step (e : Endpoint) : Endpoint → Prop
  | change (op : TrustOp) : e.Step (e.change op)
  | start {remote : DeviceId} {ephemeral message : Bytes} {i : HandshakeInitiator}
      (h : HandshakeInitiator.start e.identity e.trust remote ephemeral = .ok (i, message)) :
      e.Step { e with initiators := ⟨i, e.trust, []⟩ :: e.initiators }
  | finish {l l' : List (Half HandshakeInitiator)} {i : Half HandshakeInitiator}
      {response : Bytes} {session : SecureSession} (hi : e.initiators = l ++ i :: l')
      (h : i.half.finish response = .ok session) :
      e.Step { e with
        initiators := l ++ l'
        sessions := ⟨session, i.began, i.changes, []⟩ :: e.sessions }
  | accept {firstMessage ephemeral : Bytes} {r : HandshakeResponder}
      (h : HandshakeResponder.accept e.identity e.trust firstMessage ephemeral = .ok r) :
      e.Step { e with responders := ⟨r, e.trust, []⟩ :: e.responders }
  | respond {l l' : List (Half HandshakeResponder)} {r : Half HandshakeResponder}
      {message : Bytes} {session : SecureSession} (hr : e.responders = l ++ r :: l')
      (h : r.half.respond = .ok (session, message)) :
      e.Step { e with
        responders := l ++ l'
        sessions := ⟨session, r.began, r.changes, []⟩ :: e.sessions }

/-- What a device can come to, from any trust set. -/
inductive Reachable : Endpoint → Prop
  | new (identity : DeviceIdentity) (trust : Trust) : Reachable (new identity trust)
  | step {e e' : Endpoint} (h : Reachable e) (hs : e.Step e') : Reachable e'

end Endpoint

/-! ## What a handshake remembers -/

/-- The trust set holds `device` under `key`, and its epoch is `epoch`. -/
structure Trust.Records (t : Trust) (device : DeviceId) (key : DevicePublicKey) (epoch : UInt64) :
    Prop where
  peer : ∃ p, t.peer device = some p ∧ p.staticPublic = key
  epoch : t.epoch = epoch

theorem HandshakeInitiator.start_records {identity : DeviceIdentity} {t : Trust}
    {remote : DeviceId} {ephemeral message : Bytes} {i : HandshakeInitiator}
    (h : HandshakeInitiator.start identity t remote ephemeral = .ok (i, message)) :
    t.Records i.remoteDeviceId i.remoteStatic i.epoch := by
  unfold HandshakeInitiator.start at h
  simp only [bind_eq_ok, orError_eq_ok] at h
  obtain ⟨p, hp, state, -, ⟨message', state'⟩, -, h⟩ := h
  cases h
  exact ⟨⟨p, hp, rfl⟩, rfl⟩

theorem HandshakeResponder.accept_records {identity : DeviceIdentity} {t : Trust}
    {firstMessage ephemeral : Bytes} {r : HandshakeResponder}
    (h : HandshakeResponder.accept identity t firstMessage ephemeral = .ok r) :
    t.Records r.remoteDeviceId r.remoteStatic r.epoch := by
  unfold HandshakeResponder.accept at h
  simp only [bind_eq_ok, orError_eq_ok] at h
  obtain ⟨state, -, state', -, key, -, p, hp, h⟩ := h
  obtain ⟨hkey, hpeer⟩ := Trust.authorizeStaticKey_eq_ok hp
  cases h
  exact ⟨⟨p, hpeer, hkey⟩, rfl⟩

theorem HandshakeInitiator.finish_eq_ok {i : HandshakeInitiator} {response : Bytes}
    {s : SecureSession} (h : i.finish response = .ok s) :
    s.remoteDeviceId = i.remoteDeviceId ∧ s.remoteStatic = i.remoteStatic ∧ s.epoch = i.epoch := by
  unfold HandshakeInitiator.finish at h
  simp only [bind_eq_ok, orError_eq_ok] at h
  obtain ⟨state, -, transport, -, h⟩ := h
  cases h
  exact ⟨rfl, rfl, rfl⟩

theorem HandshakeResponder.respond_eq_ok {r : HandshakeResponder} {message : Bytes}
    {s : SecureSession} (h : r.respond = .ok (s, message)) :
    s.remoteDeviceId = r.remoteDeviceId ∧ s.remoteStatic = r.remoteStatic ∧ s.epoch = r.epoch := by
  unfold HandshakeResponder.respond at h
  simp only [bind_eq_ok, orError_eq_ok] at h
  obtain ⟨⟨message', state⟩, -, transport, -, h⟩ := h
  cases h
  exact ⟨rfl, rfl, rfl⟩

/-! ## The invariant -/

namespace Endpoint

/-- What is said of a half of a handshake: the trust set it began under held its record, and has
become `now` by the changes noted. -/
structure ValidHalf {α : Type} (device : α → DeviceId) (key : α → DevicePublicKey)
    (epoch : α → UInt64) (now : Trust) (h : Half α) : Prop where
  records : h.began.Records (device h.half) (key h.half) (epoch h.half)
  now : now = h.began.applyAll h.changes

structure ValidSession (now : Trust) (o : OpenSession) : Prop where
  records : o.began.Records o.session.remoteDeviceId o.session.remoteStatic o.session.epoch
  now : now = o.began.applyAll o.changes

structure Valid (e : Endpoint) : Prop where
  initiators : ∀ i ∈ e.initiators, ValidHalf (·.remoteDeviceId) (·.remoteStatic) (·.epoch) e.trust i
  responders : ∀ r ∈ e.responders, ValidHalf (·.remoteDeviceId) (·.remoteStatic) (·.epoch) e.trust r
  sessions : ∀ o ∈ e.sessions, ValidSession e.trust o

omit [Snow] in
theorem ValidHalf.note {α : Type} {device : α → DeviceId} {key : α → DevicePublicKey}
    {epoch : α → UInt64} {now : Trust} {h : Half α} (hv : ValidHalf device key epoch now h)
    (op : TrustOp) : ValidHalf device key epoch (now.apply op) (h.note op) :=
  ⟨hv.records, by rw [hv.now]; exact (Trust.applyAll_append _ _ [op]).symm⟩

theorem ValidSession.note {now : Trust} {o : OpenSession} (hv : ValidSession now o)
    (op : TrustOp) : ValidSession (now.apply op) (o.note op) := by
  refine ⟨hv.records, ?_⟩
  show now.apply op = o.began.applyAll (o.during ++ (o.after ++ [op]))
  rw [← List.append_assoc, Trust.applyAll_append, ← OpenSession.changes, ← hv.now]
  rfl

theorem valid_step {e e' : Endpoint} (hv : e.Valid) (hs : e.Step e') : e'.Valid := by
  cases hs with
  | change op =>
    refine ⟨fun i hi => ?_, fun r hr => ?_, fun o ho => ?_⟩
    · obtain ⟨i, hm, rfl⟩ := List.mem_map.1 hi
      exact (hv.initiators i hm).note op
    · obtain ⟨r, hm, rfl⟩ := List.mem_map.1 hr
      exact (hv.responders r hm).note op
    · obtain ⟨o, hm, rfl⟩ := List.mem_map.1 ho
      exact (hv.sessions o hm).note op
  | start h =>
    refine ⟨List.forall_mem_cons.2 ⟨⟨?_, rfl⟩, hv.initiators⟩, hv.responders, hv.sessions⟩
    exact HandshakeInitiator.start_records h
  | finish hi h =>
    rename_i l l' i response session
    obtain ⟨hd, hk, hep⟩ := HandshakeInitiator.finish_eq_ok h
    have hvi := hv.initiators i (by simp [hi])
    refine ⟨fun j hj => hv.initiators j ?_, hv.responders,
      List.forall_mem_cons.2 ⟨⟨?_, ?_⟩, hv.sessions⟩⟩
    · rw [hi]
      rcases List.mem_append.1 hj with hj | hj <;> simp [hj]
    · show i.began.Records session.remoteDeviceId session.remoteStatic session.epoch
      rw [hd, hk, hep]
      exact hvi.records
    · simpa [OpenSession.changes] using hvi.now
  | accept h =>
    refine ⟨hv.initiators, List.forall_mem_cons.2 ⟨⟨?_, rfl⟩, hv.responders⟩, hv.sessions⟩
    exact HandshakeResponder.accept_records h
  | respond hr h =>
    rename_i l l' r message session
    obtain ⟨hd, hk, hep⟩ := HandshakeResponder.respond_eq_ok h
    have hvr := hv.responders r (by simp [hr])
    refine ⟨hv.initiators, fun j hj => hv.responders j ?_,
      List.forall_mem_cons.2 ⟨⟨?_, ?_⟩, hv.sessions⟩⟩
    · rw [hr]
      rcases List.mem_append.1 hj with hj | hj <;> simp [hj]
    · show r.began.Records session.remoteDeviceId session.remoteStatic session.epoch
      rw [hd, hk, hep]
      exact hvr.records
    · simpa [OpenSession.changes] using hvr.now

theorem Reachable.valid {e : Endpoint} (h : Reachable e) : e.Valid := by
  induction h with
  | new identity trust => exact ⟨by simp [Endpoint.new], by simp [Endpoint.new], by simp [Endpoint.new]⟩
  | step _ hs ih => exact valid_step ih hs

end Endpoint

/-! ## Authorisation -/

theorem Trust.authorizeSession_eq_ok {t : Trust} {s : SecureSession} :
    t.authorizeSession s = .ok () ↔
      s.epoch = t.epoch ∧ ∃ p, t.peer s.remoteDeviceId = some p := by
  rw [← Trust.isPaired_iff]
  unfold Trust.authorizeSession
  by_cases he : s.epoch = t.epoch <;> by_cases hp : t.isPaired s.remoteDeviceId <;> simp [he, hp]

/-- The trust set holds the session's device under the session's key. -/
def Trust.HoldsKeyOf (t : Trust) (s : SecureSession) : Prop :=
  ∃ p, t.peer s.remoteDeviceId = some p ∧ p.staticPublic = s.remoteStatic

/-- Where the epoch shows no removal since the handshake began (none, or a multiple of `2 ^ 64`),
the last record written for the device since then has the session's key. -/
def OpenSession.KeyKept (o : OpenSession) : Prop :=
  o.began.removals o.changes % 2 ^ 64 = 0 →
    match Trust.lastAbout o.session.remoteDeviceId o.changes with
    | none => o.removalsSince = 0
    | some (.addPeer p) => p.staticPublic = o.session.remoteStatic ∧ o.removalsSince = 0
    | some (.removePeer _) => True

/-- The epoch is the session's where the number of removals is a multiple of `2 ^ 64`. -/
theorem Endpoint.ValidSession.epoch_iff {now : Trust} {o : OpenSession}
    (h : Endpoint.ValidSession now o) :
    o.session.epoch = now.epoch ↔ o.began.removals o.changes % 2 ^ 64 = 0 := by
  rw [h.now, Trust.epoch_applyAll, h.records.epoch, ← UInt64.toNat_inj, UInt64.toNat_add,
    UInt64.toNat_ofNat']
  have he := o.session.epoch.toNat_lt
  omega

/-- **A session is authorised under the key trusted now exactly while the key is kept**: after a
device is paired again with a new key, its old sessions still pass, for the epoch stands still. -/
theorem authorized_under_current_key_iff {e : Endpoint} (h : e.Reachable) {o : OpenSession}
    (ho : o ∈ e.sessions) :
    (e.trust.authorizeSession o.session = .ok () →
        e.trust.HoldsKeyOf o.session ∧ o.removalsSince = 0) ↔ o.KeyKept := by
  have hv := h.valid.sessions o ho
  obtain ⟨p₀, hp₀, hk₀⟩ := hv.records.peer
  rw [Trust.authorizeSession_eq_ok, hv.epoch_iff, OpenSession.KeyKept, and_imp]
  refine imp_congr_right fun _ => ?_
  have hpeer := Trust.peer_applyAll o.began o.changes o.session.remoteDeviceId
  rw [← hv.now] at hpeer
  unfold Trust.HoldsKeyOf
  cases hl : Trust.lastAbout o.session.remoteDeviceId o.changes with
  | none => simp [hpeer, hl, hp₀, hk₀]
  | some op => cases op <;> simp [hpeer, hl, TrustOp.record]

end

/-! ## A phone that is paired twice -/

section
attribute [local instance] Snow.examples

/-- The phone's record, under `key`. -/
def phoneUnder (key : UInt8) : PairedDevice :=
  { deviceId := .repeated 2, staticPublic := ⟨.replicate 32 key⟩, label := "phone",
    platform := .linux, addresses := [], pairedAtMs := 0 }

/-- The laptop's session with the phone, made under key 1. -/
def phoneSession : SecureSession := .new (.repeated 2) ⟨.replicate 32 1⟩ 0 ()

/-- The laptop after the phone was paired, a session made, and the phone paired again under
`key`. -/
def pairedAgain (key : UInt8) : Endpoint :=
  let trust := (Trust.new (.repeated 1)).addPeer (phoneUnder 1)
  { identity := .laptop, trust := trust.addPeer (phoneUnder key), initiators := [],
    responders := []
    sessions := [⟨phoneSession, trust, [], [.addPeer (phoneUnder key)]⟩] }

theorem reachable_pairedAgain (key : UInt8) : (pairedAgain key).Reachable := by
  have h0 := Endpoint.Reachable.new .laptop ((Trust.new (.repeated 1)).addPeer (phoneUnder 1))
  have hs : HandshakeInitiator.start .laptop ((Trust.new (.repeated 1)).addPeer (phoneUnder 1))
      (.repeated 2) [] = .ok (⟨(1 : Nat), .repeated 2, ⟨.replicate 32 1⟩, 0⟩, .replicate 96 0) := rfl
  have hf : HandshakeInitiator.finish ⟨(1 : Nat), .repeated 2, ⟨.replicate 32 1⟩, 0⟩
      (.replicate 48 0) = .ok phoneSession := rfl
  have h1 := h0.step (.start hs)
  have h2 := h1.step (.finish (List.nil_append _).symm hf)
  exact h2.step (.change (.addPeer (phoneUnder key)))

/-- The phone's old session is authorised although the phone was paired again with key 2. -/
theorem not_authorized_under_current_key :
    ¬ ∀ e : Endpoint, e.Reachable → ∀ o ∈ e.sessions,
      e.trust.authorizeSession o.session = .ok () →
        e.trust.HoldsKeyOf o.session ∧ o.removalsSince = 0 := by
  intro h
  obtain ⟨⟨p, hp, hk⟩, -⟩ := h _ (reachable_pairedAgain 2) _ List.mem_cons_self (by decide)
  have hp' : (pairedAgain 2).trust.peer (.repeated 2) = some (phoneUnder 2) := by decide
  obtain rfl : phoneUnder 2 = p := by simpa using hp'.symm.trans hp
  exact absurd hk (by decide)

/-- Paired again with the key it had, the phone keeps its session. -/
theorem authorized_under_current_key_of_phone :
    (pairedAgain 1).trust.HoldsKeyOf phoneSession ∧
      OpenSession.removalsSince ⟨phoneSession, (Trust.new (.repeated 1)).addPeer (phoneUnder 1), [],
        [.addPeer (phoneUnder 1)]⟩ = 0 :=
  (authorized_under_current_key_iff (reachable_pairedAgain 1) List.mem_cons_self).2
    (fun _ => ⟨by decide, by decide⟩) (by decide)

end

end Clipse
