import Clipse.Crypto.Proof.Authorized
import Clipse.Daemon.Proof.Saved
import Clipse.Daemon.Syncing
import Clipse.Store.Proof.Calls

/-!
# What forgetting a device stops (`clipsed/src/daemon.rs`)

`forget_device` moves the epoch of the trust set, "which is what stops the removed device's
existing sessions from authorising". Nothing compares it: `authorize_session` has no caller and
`receive_hello` skips the field. So only the handshakes that come after it fail, and a session that
had read the trust set before goes on to its end (`revoked_iff`).
-/

namespace Clipse

/-! ## The trust set after a request -/

namespace DaemonRequest

/-- What a request does to the trust set. -/
def trust (t : Trust) : DaemonRequest → Trust
  | commitPairing peer => t.apply (.addPeer peer)
  | forgetDevice device => t.apply (.removePeer device)
  | updateSettings _ => t

end DaemonRequest

namespace Daemon

variable [SavedFormats] {d : Daemon} {manager : PeerManager} {outcome : WriteOutcome}

theorem peers_changeTrust (d : Daemon) (manager : PeerManager) (trust : Trust)
    (outcome : WriteOutcome) :
    (d.changeTrust manager trust outcome).2.peers.map (·.trust) = some trust := by
  unfold changeTrust
  split <;> rfl

theorem peers_updateSettings (d : Daemon) (outcome : WriteOutcome) (settings : Settings) :
    (d.handle outcome (.updateSettings settings)).2.peers = d.peers := by
  unfold handle updateSettings
  dsimp only
  split <;> rfl

/-- The trust set changes whether or not it can be saved. -/
theorem trust_handle (d : Daemon) (outcome : WriteOutcome) (request : DaemonRequest) :
    (d.handle outcome request).2.peers.map (·.trust) =
      d.peers.map fun manager => request.trust manager.trust := by
  cases request with
  | updateSettings settings =>
    rw [peers_updateSettings]
    rfl
  | commitPairing peer =>
    cases hm : d.peers with
    | none => simp [handle, commitPairing, hm]
    | some manager =>
      rw [handle_commitPairing_eq hm, peers_changeTrust]
      rfl
  | forgetDevice device =>
    cases hm : d.peers with
    | none => simp [handle, forgetDevice, hm]
    | some manager =>
      cases hremove : manager.trust.removePeer device with
      | error e => simp [handle, forgetDevice, hm, hremove, DaemonRequest.trust, Trust.apply]
      | ok r =>
        rw [handle_forgetDevice_eq hm hremove, peers_changeTrust]
        simp [DaemonRequest.trust, Trust.apply, hremove]

/-- Where the daemon has a trust set after a request, it had one before. -/
theorem exists_trust {request : DaemonRequest}
    (h : (d.handle outcome request).2.peers = some manager) :
    ∃ before, d.peers = some before ∧ manager.trust = request.trust before.trust := by
  have htrust := d.trust_handle outcome request
  rw [h, Option.map_some, eq_comm, Option.map_eq_some_iff] at htrust
  obtain ⟨before, hbefore, he⟩ := htrust
  exact ⟨before, hbefore, he.symm⟩

end Daemon

/-! ## What a session does to the device -/

/-- The next step of a session pushes a clip, streams a blob or writes a clip of the peer's. -/
def Session.moves {α : Type} : Session α → Bool
  | .send (.push _) _ => true
  | .sendStream _ _ => true
  | .call (.insert _) _ _ | .call (.setPinned _) _ _ | .call (.delete _) _ _ => true
  | _ => false

section
variable [Snow]

def SyncTask.moves : SyncTask → Bool
  | dialling _ => false
  | syncing _ proc => proc.moves

/-- `authorize_session` accepts the task's session. -/
def SyncTask.Authorized (trust : Trust) : SyncTask → Prop
  | dialling _ => False
  | syncing session _ => trust.authorizeSession session = .ok ()

end

namespace SyncingDaemon

section
variable [Snow]

/-- **Nothing goes to or comes from a device that is forgotten.** -/
def Revoked (s : SyncingDaemon) : SyncingOp → Prop
  | .advance task _ _ => ∀ t ∈ s.tasks task, t.task.moves → s.forgotten t.task.device = none
  | _ => True

/-- Nothing goes to or comes from a device in a session that had read the trust set before the
device was forgotten. -/
def Fresh (s : SyncingDaemon) : SyncingOp → Prop
  | .advance task _ _ => ∀ t ∈ s.tasks task, t.task.moves →
      ∀ time ∈ s.forgotten t.task.device, time ≤ t.since
  | _ => True

instance (s : SyncingDaemon) : (op : SyncingOp) → Decidable (s.Revoked op)
  | .advance task _ _ => inferInstanceAs
      (Decidable (∀ t ∈ s.tasks task, t.task.moves → s.forgotten t.task.device = none))
  | .request .. | .dial .. | .reply .. | .accept .. | .close .. | .other .. => isTrue trivial

/-- The same, in a session that `authorize_session` would accept. -/
def Authorized (s : SyncingDaemon) : SyncingOp → Prop
  | .advance task _ _ => ∀ t ∈ s.tasks task, t.task.moves →
      ∃ manager ∈ s.daemon.peers, t.task.Authorized manager.trust
  | _ => True

/-- A device that is forgotten is in no trust set, and the tasks that it still has are older. -/
structure Orderly (s : SyncingDaemon) : Prop where
  begun : ∀ task t, s.tasks task = some t → t.since < s.time
  unpaired : ∀ device, s.forgotten device ≠ none →
    ∀ manager ∈ s.daemon.peers, manager.trust.peer device = none
  older : ∀ task t, s.tasks task = some t →
    ∀ time, s.forgotten t.task.device = some time → t.since < time

variable {s : SyncingDaemon}

theorem orderly_started (daemon : Daemon) (ctx : SyncContext) : (started daemon ctx).Orderly where
  begun := nofun
  unpaired := fun _ h => absurd rfl h
  older := nofun

/-- A device in the trust set is not forgotten. -/
theorem Orderly.forgotten_eq_none (h : s.Orderly) {manager : PeerManager}
    (hm : s.daemon.peers = some manager) {device : DeviceId} {key : DevicePublicKey}
    {epoch : UInt64} (hr : manager.trust.Records device key epoch) : s.forgotten device = none := by
  obtain ⟨p, hp, -⟩ := hr.peer
  by_contra hf
  rw [h.unpaired device hf manager hm] at hp
  cases hp

theorem Orderly.iff_fresh (h : s.Orderly) (op : SyncingOp) : s.Revoked op ↔ s.Fresh op := by
  cases op with
  | advance task messages streams =>
    refine forall₃_congr fun t ht _ => ?_
    constructor
    · intro hnone time hf
      rw [hnone] at hf
      cases hf
    · intro hfresh
      by_contra hf
      obtain ⟨time, hf⟩ := Option.ne_none_iff_exists'.1 hf
      exact absurd (hfresh time hf) (not_le_of_gt (h.older task t ht time hf))
  | request | dial | reply | accept | close | other => exact Iff.rfl

/-! ## Steps of tasks -/

/-- A task that was there, or one that has just been let in. -/
def Known (s : SyncingDaemon) (task : Nat) (t : StartedTask) : Prop :=
  (∃ before, s.tasks task = some before ∧ before.since = t.since ∧
    before.task.device = t.task.device) ∨
  t.since = s.time ∧ s.forgotten t.task.device = none

/-- Only the tasks have changed, and each of them is known. -/
structure Follows (s s' : SyncingDaemon) : Prop where
  daemon : s'.daemon = s.daemon
  forgotten : s'.forgotten = s.forgotten
  time : s'.time = s.time
  tasks : ∀ task t, s'.tasks task = some t → s.Known task t

theorem known_of_task {task : Nat} {t : StartedTask} (h : s.tasks task = some t) :
    s.Known task t := .inl ⟨t, h, rfl, rfl⟩

theorem Follows.refl (s : SyncingDaemon) : s.Follows s := ⟨rfl, rfl, rfl, fun _ _ => known_of_task⟩

theorem follows_setTask {task : Nat} {next : Option StartedTask}
    (h : ∀ t ∈ next, s.Known task t) : s.Follows (s.setTask task next) := by
  refine ⟨rfl, rfl, rfl, fun task' t ht => ?_⟩
  simp only [setTask, Function.update_apply] at ht
  split at ht
  next he => exact he ▸ h t ht
  next => exact known_of_task ht

theorem Orderly.follows {s' : SyncingDaemon} (h : s.Orderly) (hs : s.Follows s') :
    Orderly { s' with time := s.time + 1 } where
  begun task t ht := by
    rcases hs.tasks task t ht with ⟨before, hb, hsince, -⟩ | ⟨hsince, -⟩
    · exact hsince ▸ (h.begun task before hb).trans (Nat.lt_succ_self _)
    · exact hsince ▸ Nat.lt_succ_self _
  unpaired device hf := by
    rw [hs.daemon]
    exact h.unpaired device (by rwa [hs.forgotten] at hf)
  older task t ht time hf := by
    rw [hs.forgotten] at hf
    rcases hs.tasks task t ht with ⟨before, hb, hsince, hdevice⟩ | ⟨-, hnone⟩
    · exact hsince ▸ h.older task before hb time (hdevice ▸ hf)
    · rw [hnone] at hf
      cases hf

/-- The dialler's handshake begins with a device in the trust set. -/
theorem Orderly.follows_dial (h : s.Orderly) (task : Nat) (peer : DeviceId) (ephemeral : Bytes) :
    s.Follows (s.dial task peer ephemeral) := by
  unfold dial
  split
  next => exact .refl s
  next manager hm =>
    split
    next => exact .refl s
    next initiator message hstart =>
      refine follows_setTask fun t ht => ?_
      cases ht
      exact .inr ⟨rfl, h.forgotten_eq_none hm (HandshakeInitiator.start_records hstart)⟩

section
variable [Blake3]

theorem follows_reply (s : SyncingDaemon) (task : Nat) (response : Bytes) :
    s.Follows (s.reply task response) := by
  unfold reply
  split
  next initiator since ht =>
    split
    next => exact follows_setTask nofun
    next session hfinish =>
      refine follows_setTask fun t htask => ?_
      cases htask
      exact .inl ⟨_, ht, rfl, (HandshakeInitiator.finish_eq_ok hfinish).1.symm⟩
  next => exact .refl s

/-- The responder's handshake ends with a device in the trust set. -/
theorem Orderly.follows_accept (h : s.Orderly) (task : Nat) (first ephemeral : Bytes) :
    s.Follows (s.accept task first ephemeral) := by
  unfold accept
  split
  next => exact .refl s
  next manager hm =>
    dsimp only
    split
    next => exact .refl s
    next session message haccept =>
      obtain ⟨responder, haccept, hrespond⟩ := bind_eq_ok.1 haccept
      refine follows_setTask fun t ht => ?_
      cases ht
      have hdevice := (HandshakeResponder.respond_eq_ok hrespond).1
      refine .inr ⟨rfl, ?_⟩
      change s.forgotten session.remoteDeviceId = none
      rw [hdevice]
      exact h.forgotten_eq_none hm (HandshakeResponder.accept_records haccept)

end

theorem follows_advance (s : SyncingDaemon) (task : Nat) (messages : List SyncMessage)
    (streams : List Bytes) : s.Follows (s.advance task messages streams) := by
  unfold advance
  split
  next session proc since ht =>
    dsimp only
    split
    next => exact .refl s
    next next _ _ hnext =>
      obtain ⟨hdaemon, hforgotten, htime, htasks⟩ :=
        @follows_setTask _ s task (some ⟨.syncing session next.proc, since⟩)
          fun t htask => by cases htask; exact .inl ⟨_, ht, rfl, rfl⟩
      exact ⟨hdaemon, hforgotten, htime, htasks⟩
  next => exact .refl s

/-! ## Requests -/

/-- A device that is forgotten after a request is forgotten by it, or was before and is not paired
by it. -/
theorem noteRequest_eq_some {request : DaemonRequest} {ok : Bool} {device : DeviceId} {time : Nat}
    (h : s.noteRequest ok request device = some time) :
    request = .forgetDevice device ∧ time = s.time ∨
      s.forgotten device = some time ∧ ∀ peer, request = .commitPairing peer →
        peer.deviceId ≠ device := by
  cases request with
  | commitPairing peer =>
    simp only [noteRequest, Function.update_apply] at h
    split at h
    next => cases h
    next hd =>
      refine .inr ⟨h, fun peer' he => ?_⟩
      cases he
      exact Ne.symm hd
  | forgetDevice device' =>
    simp only [noteRequest] at h
    split at h
    next =>
      rw [Function.update_apply] at h
      split at h
      next hd =>
        cases h
        exact .inl ⟨hd ▸ rfl, rfl⟩
      next => exact .inr ⟨h, nofun⟩
    next => exact .inr ⟨h, nofun⟩
  | updateSettings settings => exact .inr ⟨h, nofun⟩

variable [SavedFormats]

theorem Orderly.request (h : s.Orderly) (request : DaemonRequest) (outcome : WriteOutcome) :
    Orderly
      { s with
        daemon := (s.daemon.handle outcome request).2
        forgotten := s.noteRequest (s.daemon.handle outcome request).1 request
        time := s.time + 1 } where
  begun task t ht := (h.begun task t ht).trans (Nat.lt_succ_self _)
  unpaired device hf manager hm := by
    obtain ⟨time, hf⟩ := Option.ne_none_iff_exists'.1 hf
    obtain ⟨before, hbefore, htrust⟩ := Daemon.exists_trust hm
    rw [htrust]
    rcases noteRequest_eq_some hf with ⟨rfl, -⟩ | ⟨hwas, hother⟩
    · exact (Trust.peer_apply _ _ _).trans (if_pos rfl)
    · have hnone : before.trust.peer device = none :=
        h.unpaired device (by simp [hwas]) before hbefore
      cases request with
      | commitPairing peer =>
        exact (Trust.peer_apply _ _ _).trans ((if_neg (hother peer rfl)).trans hnone)
      | forgetDevice device' =>
        rw [DaemonRequest.trust, Trust.peer_apply, hnone]
        exact ite_self none
      | updateSettings settings => exact hnone
  older task t ht time hf := by
    rcases noteRequest_eq_some hf with ⟨-, rfl⟩ | ⟨hwas, -⟩
    · exact h.begun task t ht
    · exact h.older task t ht time hwas

variable [Blake3]

theorem Orderly.step (h : s.Orderly) (op : SyncingOp) : (s.step op).Orderly := by
  cases op with
  | request request outcome => exact h.request request outcome
  | dial task peer ephemeral => exact h.follows (h.follows_dial task peer ephemeral)
  | reply task response => exact h.follows (s.follows_reply task response)
  | accept task first ephemeral => exact h.follows (h.follows_accept task first ephemeral)
  | advance task messages streams => exact h.follows (s.follows_advance task messages streams)
  | close task => exact h.follows (follows_setTask nofun)
  | other ctx => exact h.follows ⟨rfl, rfl, rfl, fun _ _ => known_of_task⟩

/-- In every interleaving of requests, handshakes and sessions, nothing goes to or comes from a
device after it has been forgotten if and only if no session that was let in before does so. -/
theorem revoked_iff (daemon : Daemon) (ctx : SyncContext) (ops : List SyncingOp) :
    Stepwise step Revoked (started daemon ctx) ops ↔
      Stepwise step Fresh (started daemon ctx) ops :=
  stepwise_congr (fun _ op (h : Orderly _) _ => h.step op) (fun _ op h => h.iff_fresh op)
    (orderly_started daemon ctx)

/-! ## The check that is not made -/

omit [SavedFormats] [Blake3] in
/-- `authorize_session` refuses every session with a device that is forgotten. -/
theorem Orderly.authorized_revoked (h : s.Orderly) {op : SyncingOp} (ha : s.Authorized op) :
    s.Revoked op := by
  cases op with
  | advance task messages streams =>
    intro t ht hmoves
    obtain ⟨manager, hm, hauth⟩ := ha t ht hmoves
    by_contra hf
    have hnone := h.unpaired t.task.device hf manager hm
    cases hk : t.task with
    | dialling initiator => exact (hk ▸ hauth : SyncTask.Authorized _ _)
    | syncing session proc =>
      rw [hk] at hauth hnone
      obtain ⟨-, p, hp⟩ := Trust.authorizeSession_eq_ok.1 hauth
      cases hnone.symm.trans hp
  | request | dial | reply | accept | close | other => trivial

/-- Were `authorize_session` asked before every such step, forgetting a device would stop it. -/
theorem revoked_of_authorized {daemon : Daemon} {ctx : SyncContext} {ops : List SyncingOp}
    (h : Stepwise step Authorized (started daemon ctx) ops) :
    Stepwise step Revoked (started daemon ctx) ops :=
  h.imp (fun _ op (ho : Orderly _) _ => ho.step op) (fun _ _ ho => ho.authorized_revoked)
    (orderly_started daemon ctx)

end

/-! ## A phone that is lost -/

section
attribute [local instance] Blake3.examples Snow.examples

/-- The laptop's `identity.json` once the phone is forgotten. -/
def forgottenText : String :=
  "\x7b\n  \"identity\": \x7b\n    \"device_id\": \"01010101-0101-0101-0101-010101010101\",\n" ++
    "    \"secret\": " ++ keyText "    " 7 ++ ",\n    \"public\": " ++ keyText "    " 8 ++
    "\n  \x7d,\n  \"trust\": \x7b\n" ++
    "    \"local_device_id\": \"01010101-0101-0101-0101-010101010101\",\n    \"epoch\": 1,\n" ++
    "    \"peers\": \x7b\x7d\n  \x7d\n\x7d"

/-- `serde_json` on what the laptop saves. -/
@[reducible]
def SavedFormats.forgetting : SavedFormats where
  toToml := SavedFormats.laptop.toToml
  fromToml := SavedFormats.laptop.fromToml
  toJson this :=
    if this.trust.epoch = 1 ∧ this.trust.peers.isEmpty then .ok forgottenText
    else SavedFormats.laptop.toJson this
  fromJson := SavedFormats.laptop.fromJson

attribute [local instance] SavedFormats.forgetting

/-- A laptop with one clip. -/
def oneClip : SyncContext :=
  .start ((Store.open_ 0).write (.insert (.hi 0 (.repeated 1) ⟨7, 0, .repeated 1⟩))) (.repeated 1)
    fun _ => 0

/-- The laptop dials the phone, which asks for the clip. -/
def phoneSyncs : List SyncingOp :=
  [.request (.commitPairing (recordOf .phone)) .done, .dial 0 (.repeated 2) [],
    .reply 0 (.replicate 48 0), .advance 0 [] [], .advance 0 [] [],
    .advance 0 [.hello (.repeated 2) 0 protocolVersion none "phone" "linux"] [],
    .advance 0 [] [], .advance 0 [] [], .advance 0 [.want [Clip.hiContent]] [], .advance 0 [] []]

/-- The phone is forgotten just before the clip is pushed. -/
def phoneIsForgotten : List SyncingOp :=
  phoneSyncs ++ [.request (.forgetDevice (.repeated 2)) .done, .advance 0 [] []]

theorem not_revoked :
    ¬ ∀ daemon ctx ops, Stepwise step Revoked (started daemon ctx) ops := by
  intro h
  have hall := h .laptop oneClip phoneIsForgotten
  have hpush := stepwise_iff_forall.1 hall
    (phoneSyncs ++ [.request (.forgetDevice (.repeated 2)) .done]) (.advance 0 [] []) [] rfl
  revert hpush
  decide +kernel

end

end SyncingDaemon
end Clipse
