import Clipse.Ipc.Client

/-!
# Every call gets its own answer (`clipse-ipc/src/client.rs`)

The client checks the id of a response only when it is not an error, and does not look at events. But
it makes one call at a time and the daemon answers one request at a time, so what is under way is one
request or one response: the invariant says where (`Stage`). So the answers that the calls return are
those that the daemon gave to these requests, in order, and at most the last is lost
(`calls_answered`).
-/

namespace Clipse

open Broadcast (Channel)

namespace Ipc

variable {Q R E : Type} [Broadcast E]

/-- The frames that are no events. -/
def replies (frames : List (Frame (Request Q) (Response R) E)) :
    List (Frame (Request Q) (Response R) E) :=
  frames.filter fun frame => frame.event?.isNone

omit [Broadcast E] in
@[simp] theorem replies_append (frames frames' : List (Frame (Request Q) (Response R) E)) :
    replies (frames ++ frames') = replies frames ++ replies frames' := List.filter_append ..

/-- The daemon's loop is neither at a request nor at a response. -/
def Between (c : IpcConnection (Request Q) (Response R) E) : Prop :=
  match c.phase with
  | .select => True
  | .writing frame => frame.event?.isSome
  | _ => False

/-! ## Steps of the daemon -/

/-- What a step of the daemon, other than taking a request or answering it, does to the stream. -/
inductive Effect (c c' : IpcConnection (Request Q) (Response R) E) : Prop where
  | idle (phase : c'.phase = c.phase) (requests : c'.requests = c.requests)
      (written : c'.written = c.written)
  /-- It goes on with events, or ends. -/
  | events (before : Between c) (after : Between c' ∨ c'.phase = .ended)
      (requests : c'.requests = c.requests)
      (written : ∃ frames, c'.written = c.written ++ frames ∧ replies frames = [])
  | flushed {frame : Frame (Request Q) (Response R) E} (reply : frame.event? = none)
      (before : c.phase = .writing frame) (after : c'.phase = .select)
      (requests : c'.requests = c.requests) (written : c'.written = c.written ++ [frame])
  | broken {frame : Frame (Request Q) (Response R) E} (reply : frame.event? = none)
      (before : c.phase = .writing frame) (after : c'.phase = .ended)
      (requests : c'.requests = c.requests) (written : c'.written = c.written)

section
variable {c c' : IpcConnection (Request Q) (Response R) E}
  {frame : Frame (Request Q) (Response R) E}

theorem Effect.of_eq (h : c' = c) : Effect c c' := h ▸ .idle rfl rfl rfl

theorem between_of_select (h : c.phase = .select) : Between c := by
  rw [Between, h]
  trivial

theorem between_of_writing (h : c.phase = .writing frame) : Between c ↔ frame.event?.isSome := by
  rw [Between, h]

theorem Effect.length_le (he : Effect c c') :
    c.written.length ≤ c'.written.length := by
  cases he with
  | idle phase requests written => rw [written]
  | events before after requests written =>
    obtain ⟨frames, hw, -⟩ := written
    rw [hw, List.length_append]
    omega
  | flushed reply before after requests written =>
    rw [written, List.length_append]
    omega
  | broken reply before after requests written => rw [written]

theorem effect_event : Effect c (c.step .event) := by
  cases h : c.phase with
  | select =>
    simp only [IpcConnection.step, h]
    split
    · unfold IpcConnection.takeEvent
      split
      · exact .events (between_of_select h) (.inl ((between_of_writing rfl).2 rfl)) rfl
          ⟨[], (List.append_nil _).symm, rfl⟩
      · exact .idle rfl rfl rfl
      · exact .idle rfl rfl rfl
      · exact .events (between_of_select h) (.inr rfl) rfl ⟨[], (List.append_nil _).symm, rfl⟩
    · exact .idle rfl rfl rfl
  | handling id => exact .of_eq (by simp only [IpcConnection.step, h])
  | writing frame => exact .of_eq (by simp only [IpcConnection.step, h])
  | ended => exact .of_eq (by simp only [IpcConnection.step, h])

theorem effect_flushed : Effect c (c.step .flushed) := by
  cases h : c.phase with
  | writing frame =>
    simp only [IpcConnection.step, h]
    cases hev : frame.event? with
    | none => exact .flushed hev h rfl rfl rfl
    | some event =>
      refine .events ((between_of_writing h).2 (by rw [hev]; rfl)) (.inl (between_of_select rfl)) rfl
        ⟨[frame], rfl, ?_⟩
      simp [replies, hev]
  | select => exact .of_eq (by simp only [IpcConnection.step, h])
  | handling id => exact .of_eq (by simp only [IpcConnection.step, h])
  | ended => exact .of_eq (by simp only [IpcConnection.step, h])

theorem effect_broken : Effect c (c.step .broken) := by
  cases h : c.phase with
  | writing frame =>
    simp only [IpcConnection.step, h]
    cases hev : frame.event? with
    | none => exact .broken hev h rfl rfl rfl
    | some event =>
      exact .events ((between_of_writing h).2 (by rw [hev]; rfl)) (.inr rfl) rfl
        ⟨[], (List.append_nil _).symm, rfl⟩
  | select => exact .of_eq (by simp only [IpcConnection.step, h])
  | handling id => exact .of_eq (by simp only [IpcConnection.step, h])
  | ended => exact .of_eq (by simp only [IpcConnection.step, h])

/-- The loop finds no request. -/
theorem effect_request (h : c.requests = [] ∨ c.phase ≠ .select) :
    Effect c (c.step .request) := by
  cases hp : c.phase with
  | select =>
    have hr : c.requests = [] := h.resolve_right fun hne => hne hp
    simp only [IpcConnection.step, hp, hr]
    split
    · exact .idle rfl rfl rfl
    · exact .events (between_of_select hp) (.inr rfl) hr.symm ⟨[], (List.append_nil _).symm, rfl⟩
  | writing frame => exact .of_eq (by simp only [IpcConnection.step, hp])
  | handling id => exact .of_eq (by simp only [IpcConnection.step, hp])
  | ended => exact .of_eq (by simp only [IpcConnection.step, hp])

/-- `handle` returns only while it runs. -/
theorem effect_respond {response : Response R} (h : ∀ id, c.phase ≠ .handling id) :
    Effect c (c.step (.respond response)) := by
  cases hp : c.phase with
  | handling id => exact absurd hp (h id)
  | writing frame => exact .of_eq (by simp only [IpcConnection.step, hp])
  | select => exact .of_eq (by simp only [IpcConnection.step, hp])
  | ended => exact .of_eq (by simp only [IpcConnection.step, hp])

end

/-! ## The invariant -/

namespace IpcLink

/-- Where the one call that is under way has got to, on a connection that is open or has been closed
since it was answered. -/
inductive Stage (s : IpcLink Q R E) (id : UInt64) (request : IpcRequest (Request Q)) : Prop where
  | queued (queue : s.daemon.requests ++ s.sent = [⟨id, .request request⟩])
      (between : Between s.daemon) (unread : replies s.unread = []) (answers : s.answers = s.handled)
  | handling (queue : s.daemon.requests ++ s.sent = []) (phase : s.daemon.phase = .handling id)
      (asked : s.asked = some request) (unread : replies s.unread = [])
      (answers : s.answers = s.handled)
  | writing {response : Response R} (queue : s.daemon.requests ++ s.sent = [])
      (phase : s.daemon.phase = .writing ⟨id, .response response⟩) (unread : replies s.unread = [])
      (answers : s.handled = s.answers ++ [(request, response)])
  | written {response : Response R} (queue : s.daemon.requests ++ s.sent = [])
      (between : Between s.daemon ∨ s.daemon.phase = .ended)
      (unread : replies s.unread = [⟨id, .response response⟩])
      (answers : s.handled = s.answers ++ [(request, response)])

/-- No call is under way. -/
structure Rest (s : IpcLink Q R E) : Prop where
  queue : s.daemon.requests ++ s.sent = []
  between : Between s.daemon
  unread : replies s.unread = []
  answers : s.answers = s.handled

/-- The daemon has closed the connection, and no response is left to read. -/
structure Over (s : IpcLink Q R E) : Prop where
  phase : s.daemon.phase = .ended
  unread : replies s.unread = []
  answers : s.answers <+: s.handled
  length : s.handled.length ≤ s.answers.length + 1

/-- The call under way is in one of its stages. -/
def Underway (s : IpcLink Q R E) : Prop :=
  match s.phase with
  | .waiting id request _ => s.Stage id request
  | _ => s.Rest

structure Inv (s : IpcLink Q R E) : Prop where
  read : s.read ≤ s.daemon.written.length
  place : s.Over ∨ s.Underway

variable {s : IpcLink Q R E} {id : UInt64} {request : IpcRequest (Request Q)} {caller : Caller}

theorem underway_waiting (h : s.phase = .waiting id request caller) :
    s.Underway ↔ s.Stage id request := by rw [Underway, h]

theorem underway_of_stage (hp : s.phase = .waiting id request caller) (h : s.Stage id request) :
    s.Underway :=
  (underway_waiting hp).2 h

theorem underway_rest (h : ¬ ∃ id request caller, s.phase = .waiting id request caller) :
    s.Underway ↔ s.Rest := by
  unfold Underway
  split
  · next id request caller hp => exact absurd ⟨id, request, caller, hp⟩ h
  · rfl

theorem Stage.over_length (h : s.Stage id request) :
    s.answers <+: s.handled ∧ s.handled.length ≤ s.answers.length + 1 := by
  cases h with
  | queued _ _ _ answers => exact ⟨answers ▸ List.prefix_refl _, by rw [answers]; omega⟩
  | handling _ _ _ _ answers => exact ⟨answers ▸ List.prefix_refl _, by rw [answers]; omega⟩
  | writing _ _ _ answers => exact ⟨answers ▸ List.prefix_append _ _, by rw [answers]; simp⟩
  | written _ _ _ answers => exact ⟨answers ▸ List.prefix_append _ _, by rw [answers]; simp⟩

theorem underway_of_rest (hp : ¬ ∃ id request caller, s.phase = .waiting id request caller)
    (h : s.Rest) : s.Underway :=
  (underway_rest hp).2 h

/-- The answers so far, wherever the call under way is. -/
theorem Inv.answers (h : s.Inv) :
    s.answers <+: s.handled ∧ s.handled.length ≤ s.answers.length + 1 := by
  rcases h.place with hover | hunder
  · exact ⟨hover.answers, hover.length⟩
  · unfold Underway at hunder
    split at hunder
    · exact hunder.over_length
    · exact ⟨hunder.answers ▸ List.prefix_refl _, by rw [hunder.answers]; omega⟩

/-! ## Steps of the daemon keep it -/

section
variable {c' : IpcConnection (Request Q) (Response R) E}

theorem not_ended_of_between {c : IpcConnection (Request Q) (Response R) E} (h : Between c) :
    c.phase ≠ .ended := by
  intro he
  rw [Between, he] at h
  exact h

/-- What was written since is not read yet. -/
theorem unread_append (hread : s.read ≤ s.daemon.written.length)
    {frames : List (Frame (Request Q) (Response R) E)}
    (h : c'.written = s.daemon.written ++ frames) :
    (s.withDaemon c').unread = s.unread ++ frames := by
  rw [unread, unread]
  show c'.written.drop s.read = _
  rw [h, List.drop_append_of_le_length hread]

theorem unread_of_written_eq (h : c'.written = s.daemon.written) :
    (s.withDaemon c').unread = s.unread :=
  congrArg (List.drop s.read) h

/-- The step of the daemon while a call is under way. -/
theorem Stage.effect (h : s.Stage id request) (hread : s.read ≤ s.daemon.written.length)
    (he : Effect s.daemon c') :
    (s.withDaemon c').Over ∨
      (s.withDaemon c').Stage id request := by
  cases he with
  | idle phase requests written =>
    have hun := unread_of_written_eq written
    have hb : Between s.daemon → Between c' := fun hb => by rwa [Between, phase]
    right
    cases h with
    | queued queue between unread answers =>
      exact .queued (by rw [← queue]; exact congrArg (· ++ _) requests) (hb between)
        (by rw [hun, unread]) answers
    | handling queue hp asked unread answers =>
      exact .handling (by rw [← queue]; exact congrArg (· ++ _) requests) (phase.trans hp) asked
        (by rw [hun, unread]) answers
    | writing queue hp unread answers =>
      exact .writing (by rw [← queue]; exact congrArg (· ++ _) requests) (phase.trans hp)
        (by rw [hun, unread]) answers
    | written queue between unread answers =>
      exact .written (by rw [← queue]; exact congrArg (· ++ _) requests)
        (between.imp hb phase.trans) (by rw [hun, unread]) answers
  | events before after requests written =>
    obtain ⟨frames, hw, hnone⟩ := written
    have hun : replies (s.withDaemon c').unread = replies s.unread := by
      rw [unread_append hread hw, replies_append, hnone, List.append_nil]
    cases h with
    | queued queue between unread answers =>
      rcases after with after | after
      · exact .inr (.queued (by rw [← queue]; exact congrArg (· ++ _) requests) after
          (by rw [hun, unread]) answers)
      · refine .inl ⟨after, by rw [hun, unread], ?_, ?_⟩
        · exact answers ▸ List.prefix_refl _
        · show s.handled.length ≤ s.answers.length + 1
          rw [answers]
          omega
    | handling queue hp asked unread answers =>
      rw [Between, hp] at before
      exact before.elim
    | writing queue hp unread answers =>
      rw [Between, hp] at before
      cases before
    | written queue between unread answers =>
      exact .inr (.written (by rw [← queue]; exact congrArg (· ++ _) requests) after
        (by rw [hun, unread]) answers)
  | @flushed frame reply before after requests written =>
    have hun := unread_append hread written
    right
    cases h with
    | writing queue hp unread answers =>
      obtain rfl := ConnectionPhase.writing.inj (before.symm.trans hp)
      refine .written (by rw [← queue]; exact congrArg (· ++ _) requests)
        (.inl (between_of_select after)) ?_ answers
      rw [hun, replies_append, unread]
      rfl
    | queued queue between unread answers =>
      rw [between_of_writing before, reply] at between
      cases between
    | handling queue hp asked unread answers => cases before.symm.trans hp
    | written queue between unread answers =>
      rcases between with between | between
      · rw [between_of_writing before, reply] at between
        cases between
      · cases before.symm.trans between
  | @broken frame reply before after requests written =>
    have hun := unread_of_written_eq written
    cases h with
    | writing queue hp unread answers =>
      refine .inl ⟨after, by rw [hun, unread], ?_, ?_⟩
      · exact answers ▸ List.prefix_append _ _
      · show s.handled.length ≤ s.answers.length + 1
        rw [answers]
        simp
    | queued queue between unread answers =>
      rw [between_of_writing before, reply] at between
      cases between
    | handling queue hp asked unread answers => cases before.symm.trans hp
    | written queue between unread answers =>
      rcases between with between | between
      · rw [between_of_writing before, reply] at between
        cases between
      · cases before.symm.trans between

theorem Rest.effect (h : s.Rest) (hread : s.read ≤ s.daemon.written.length)
    (he : Effect s.daemon c') :
    (s.withDaemon c').Over ∨
      (s.withDaemon c').Rest := by
  have hqueue : c'.requests = s.daemon.requests → c'.requests ++ s.sent = [] := fun hr => by
    rw [hr]
    exact h.queue
  cases he with
  | idle phase requests written =>
    have hun := unread_of_written_eq written
    have hb : Between c' := by
      rw [Between, phase]
      exact h.between
    exact .inr ⟨hqueue requests, hb, by rw [hun, h.unread], h.answers⟩
  | events before after requests written =>
    obtain ⟨frames, hw, hnone⟩ := written
    have hun : replies (s.withDaemon c').unread = [] := by
      rw [unread_append hread hw, replies_append, hnone, List.append_nil, h.unread]
    rcases after with after | after
    · exact .inr ⟨hqueue requests, after, hun, h.answers⟩
    · refine .inl ⟨after, hun, ?_, ?_⟩
      · exact h.answers ▸ List.prefix_refl _
      · show s.handled.length ≤ s.answers.length + 1
        rw [h.answers]
        omega
  | flushed reply before after requests written =>
    have hb := h.between
    rw [between_of_writing before, reply] at hb
    cases hb
  | broken reply before after requests written =>
    have hb := h.between
    rw [between_of_writing before, reply] at hb
    cases hb

theorem Over.effect (h : s.Over) (he : Effect s.daemon c') :
    (s.withDaemon c').Over := by
  cases he with
  | idle phase requests written =>
    exact ⟨phase.trans h.phase, by rw [unread_of_written_eq written, h.unread], h.answers, h.length⟩
  | events before => exact absurd h.phase (not_ended_of_between before)
  | flushed reply before => cases before.symm.trans h.phase
  | broken reply before => cases before.symm.trans h.phase

theorem Inv.effect (h : s.Inv) (he : Effect s.daemon c') :
    (s.withDaemon c').Inv := by
  refine ⟨h.read.trans he.length_le, ?_⟩
  rcases h.place with hover | hunder
  · exact .inl (hover.effect he)
  · by_cases hw : ∃ id request caller, s.phase = .waiting id request caller
    · obtain ⟨id, request, caller, hp⟩ := hw
      rw [underway_waiting hp] at hunder
      exact (hunder.effect h.read he).imp_right (underway_of_stage hp)
    · rw [underway_rest hw] at hunder
      exact (hunder.effect h.read he).imp_right (underway_rest (s := s.withDaemon c') hw).2

end

/-- A request that the daemon can take is that of the call under way. -/
theorem queued_of_requests (h : s.Inv) (hne : s.daemon.requests ≠ [])
    (hp : s.daemon.phase = .select) :
    ∃ id request caller, s.phase = .waiting id request caller ∧
      s.daemon.requests = [⟨id, .request request⟩] ∧ s.sent = [] ∧ replies s.unread = [] ∧
      s.answers = s.handled := by
  rcases h.place with hover | hunder
  · cases hp.symm.trans hover.phase
  · by_cases hw : ∃ id request caller, s.phase = .waiting id request caller
    · obtain ⟨id, request, caller, hphase⟩ := hw
      rw [underway_waiting hphase] at hunder
      cases hunder with
      | queued queue between unread answers =>
        obtain ⟨frame, rest, hr⟩ := List.exists_cons_of_ne_nil hne
        rw [hr, List.cons_append] at queue
        obtain ⟨rfl, hnil⟩ := List.cons_eq_cons.1 queue
        obtain ⟨rfl, hsent⟩ := List.append_eq_nil_iff.1 hnil
        exact ⟨id, request, caller, hphase, hr, hsent, unread, answers⟩
      | handling queue => exact absurd (List.append_eq_nil_iff.1 queue).1 hne
      | writing queue => exact absurd (List.append_eq_nil_iff.1 queue).1 hne
      | written queue => exact absurd (List.append_eq_nil_iff.1 queue).1 hne
    · rw [underway_rest hw] at hunder
      exact absurd (List.append_eq_nil_iff.1 hunder.queue).1 hne

/-- The daemon takes the request that is on its way. -/
theorem inv_request (h : s.Inv) : (s.step (.daemon .request)).Inv := by
  by_cases hfree : s.daemon.requests = [] ∨ s.daemon.phase ≠ .select
  · have hasked : s.daemonTakes = s.asked := by
      unfold daemonTakes
      split
      · next hp hr =>
        rcases hfree with hn | hn
        · rw [hn] at hr
          cases hr
        · exact absurd hp hn
      · rfl
    have hstep : s.step (.daemon .request) = s.withDaemon (s.daemon.step .request) := by
      show { s with asked := s.daemonTakes }.withDaemon (s.daemon.step .request) = _
      rw [hasked]
    rw [hstep]
    exact h.effect (effect_request hfree)
  · rw [not_or, not_not] at hfree
    obtain ⟨hne, hp⟩ := hfree
    obtain ⟨id, request, caller, hphase, hr, hsent, hun, hans⟩ := queued_of_requests h hne hp
    have htake : s.daemonTakes = some request := by simp only [daemonTakes, hp, hr]
    have hdaemon : (s.daemon.step .request).phase = .handling id ∧
        (s.daemon.step .request).requests = [] ∧
        (s.daemon.step .request).written = s.daemon.written := by
      simp only [IpcConnection.step, hp, hr, IpcConnection.takeFrame]
      cases request with
      | subscribe => exact ⟨rfl, rfl, rfl⟩
      | other q => exact ⟨rfl, rfl, rfl⟩
    obtain ⟨hp', hr', hw'⟩ := hdaemon
    refine ⟨?_, .inr (underway_of_stage hphase (.handling ?_ hp' htake ?_ hans))⟩
    · show s.read ≤ (s.daemon.step .request).written.length
      rw [hw']
      exact h.read
    · show (s.daemon.step .request).requests ++ s.sent = []
      rw [hr', hsent]
      rfl
    · show replies ((s.daemon.step .request).written.drop s.read) = []
      rw [hw']
      exact hun

/-- The daemon answers the request that it is at. -/
theorem inv_respond (h : s.Inv) (response : Response R) :
    (s.step (.daemon (.respond response))).Inv := by
  by_cases hnot : ∀ id, s.daemon.phase ≠ .handling id
  · have hsame : s.daemonAnswers response = s.handled := by
      unfold daemonAnswers
      split
      · next id hp => exact absurd hp (hnot id)
      · rfl
    have hstep : s.step (.daemon (.respond response)) =
        s.withDaemon (s.daemon.step (.respond response)) := by
      show { s with handled := s.daemonAnswers response }.withDaemon
        (s.daemon.step (.respond response)) = _
      rw [hsame]
    rw [hstep]
    exact h.effect (effect_respond hnot)
  · push Not at hnot
    obtain ⟨id', hp⟩ := hnot
    have hb : ¬ Between s.daemon := by
      rw [Between, hp]
      exact id
    obtain ⟨id, request, caller, hphase, queue, hid, hasked, hun, hans⟩ :
        ∃ id request caller, s.phase = .waiting id request caller ∧
          s.daemon.requests ++ s.sent = [] ∧ s.daemon.phase = .handling id ∧
          s.asked = some request ∧ replies s.unread = [] ∧ s.answers = s.handled := by
      rcases h.place with hover | hunder
      · cases hp.symm.trans hover.phase
      · by_cases hw : ∃ id request caller, s.phase = .waiting id request caller
        · obtain ⟨id, request, caller, hphase⟩ := hw
          rw [underway_waiting hphase] at hunder
          cases hunder with
          | handling queue phase asked unread answers =>
            exact ⟨id, request, caller, hphase, queue, phase, asked, unread, answers⟩
          | queued queue between => exact absurd between hb
          | writing queue phase => cases hp.symm.trans phase
          | written queue between =>
            rcases between with between | between
            · exact absurd between hb
            · cases hp.symm.trans between
        · rw [underway_rest hw] at hunder
          exact absurd hunder.between hb
    have hdaemon : s.daemon.step (.respond response) =
        { s.daemon with phase := .writing (.response id response) } := by
      simp only [IpcConnection.step, hid]
    have hans' : s.daemonAnswers response = s.answers ++ [(request, response)] := by
      simp only [daemonAnswers, hid, hasked, hans]
      rfl
    show ({ s with handled := s.daemonAnswers response }.withDaemon
      (s.daemon.step (.respond response))).Inv
    rw [hdaemon, hans']
    exact ⟨h.read, .inr (underway_of_stage hphase (.writing queue rfl hun rfl))⟩

theorem inv_daemon (h : s.Inv) (op : ConnectionOp (Request Q) (Response R) E) :
    (s.step (.daemon op)).Inv := by
  cases op with
  | read frame => exact h
  | request => exact inv_request h
  | respond response => exact inv_respond h response
  | emit event => exact h.effect (.idle rfl rfl rfl)
  | hangUp => exact h.effect (.idle rfl rfl rfl)
  | event => exact h.effect effect_event
  | flushed => exact h.effect effect_flushed
  | broken => exact h.effect effect_broken

/-! ## Steps of the client keep it -/

omit [Broadcast E] in
/-- What `call` makes of the response that it waits for. -/
theorem accept_response (id : UInt64) (response : Response R) :
    ∃ result, accept id (⟨id, .response response⟩ : Frame (Request Q) (Response R) E) = some result ∧
      (result = .ok response ∨ ∃ e, response = .error e ∧ result = .error (.daemon e)) := by
  cases response with
  | error e => exact ⟨_, rfl, .inr ⟨e, rfl, rfl⟩⟩
  | ok => exact ⟨.ok .ok, by simp [accept], .inl rfl⟩
  | hello v version device => exact ⟨.ok (.hello v version device), by simp [accept], .inl rfl⟩
  | other r => exact ⟨.ok (.other r), by simp [accept], .inl rfl⟩

omit [Broadcast E] in
theorem accept_event {frame : Frame (Request Q) (Response R) E} (h : frame.event?.isSome) :
    accept id frame = none := by
  obtain ⟨frameId, body⟩ := frame
  cases body with
  | event event => rfl
  | request q => cases h
  | response r => cases h

theorem answers_finish (result : Except ClientError (Response R)) :
    (s.finish request caller result).answers = s.answers ++
      (match result with
        | .ok response => some (request, response)
        | .error (.daemon e) => some (request, .error e)
        | .error _ => none).toList := by
  unfold answers
  rw [finish, List.filterMap_append]
  cases result with
  | ok response => rfl
  | error e => cases e <;> rfl

/-- The client is not in a call when one has returned. -/
theorem not_waiting_resume {result : Except ClientError (Response R)} :
    ¬ ∃ id request caller', (s.finish request' caller result).phase =
      .waiting id request caller' := by
  rintro ⟨id, request, caller', h⟩
  have hr : (resume result caller : ClientPhase Q) = .waiting id request caller' := h
  unfold resume at hr
  split at hr
  · cases hr
  · split at hr <;> cases hr
  · split at hr <;> cases hr

theorem inv_write (h : s.Inv) (hidle : s.phase = .idle) : (s.write request caller).Inv := by
  refine ⟨h.read, ?_⟩
  rcases h.place with hover | hunder
  · exact .inl ⟨hover.phase, hover.unread, hover.answers, hover.length⟩
  · rw [underway_rest (by rw [hidle]; rintro ⟨_, _, _, hw⟩; cases hw)] at hunder
    refine .inr (underway_of_stage rfl (.queued ?_ hunder.between hunder.unread hunder.answers))
    show s.daemon.requests ++ (s.sent ++ [_]) = _
    rw [← List.append_assoc, hunder.queue]
    rfl

theorem inv_unsent (h : s.Inv) (hidle : s.phase = .idle) (e : FrameError) :
    (s.step (.unsent request e)).Inv := by
  simp only [step, hidle]
  have hans : ({ s with
      nextId := bump s.nextId
      returned := s.returned ++ [(request, .error (.frame e))] } : IpcLink Q R E).answers =
      s.answers := by
    simp [answers]
  refine ⟨h.read, ?_⟩
  rcases h.place with hover | hunder
  · exact .inl ⟨hover.phase, hover.unread, hans ▸ hover.answers, hans ▸ hover.length⟩
  · have hw : ¬ ∃ id request caller, s.phase = .waiting id request caller := by
      rw [hidle]
      rintro ⟨_, _, _, hw⟩
      cases hw
    rw [underway_rest hw] at hunder
    exact .inr (underway_of_rest (by rintro ⟨_, _, _, hp⟩; cases hp)
      ⟨hunder.queue, hunder.between, hunder.unread, hans.trans hunder.answers⟩)

/-- The frame that the client has read is not unread any more. -/
theorem unread_of_read {frame : Frame (Request Q) (Response R) E}
    {rest : List (Frame (Request Q) (Response R) E)} (h : s.unread = frame :: rest) :
    s.daemon.written.drop (s.read + 1) = rest ∧ s.read + 1 ≤ s.daemon.written.length := by
  rw [unread] at h
  have hlt : s.read < s.daemon.written.length := by
    by_contra hge
    rw [List.drop_of_length_le (not_lt.1 hge)] at h
    cases h
  exact ⟨by rw [← List.tail_drop, h, List.tail_cons], hlt⟩

omit [Broadcast E] in
theorem replies_cons (frame : Frame (Request Q) (Response R) E)
    (rest : List (Frame (Request Q) (Response R) E)) :
    replies (frame :: rest) = if frame.event?.isSome then replies rest else frame :: replies rest := by
  unfold replies
  rw [List.filter_cons]
  cases frame.event? <;> rfl

/-- The client reads an event between a request and its response, or as a stream. -/
theorem inv_pass (h : s.Inv) {frame : Frame (Request Q) (Response R) E}
    {rest : List (Frame (Request Q) (Response R) E)} (hun : s.unread = frame :: rest)
    (hev : frame.event?.isSome) (nexted : List E) :
    ({ s with read := s.read + 1, nexted } : IpcLink Q R E).Inv := by
  obtain ⟨hdrop, hle⟩ := unread_of_read hun
  have hsame : ∀ fs, replies s.unread = fs →
      replies ({ s with read := s.read + 1, nexted } : IpcLink Q R E).unread = fs := by
    rintro fs rfl
    rw [hun, replies_cons, if_pos hev]
    exact congrArg replies hdrop
  refine ⟨hle, ?_⟩
  rcases h.place with hover | hunder
  · exact .inl ⟨hover.phase, hsame _ hover.unread, hover.answers, hover.length⟩
  · by_cases hw : ∃ id request caller, s.phase = .waiting id request caller
    · obtain ⟨id, request, caller, hp⟩ := hw
      rw [underway_waiting hp] at hunder
      refine .inr (underway_of_stage hp ?_)
      cases hunder with
      | queued queue between unread answers => exact .queued queue between (hsame _ unread) answers
      | handling queue phase asked unread answers =>
        exact .handling queue phase asked (hsame _ unread) answers
      | writing queue phase unread answers => exact .writing queue phase (hsame _ unread) answers
      | written queue between unread answers => exact .written queue between (hsame _ unread) answers
    · rw [underway_rest hw] at hunder
      exact .inr (underway_of_rest hw
        ⟨hunder.queue, hunder.between, hsame _ hunder.unread, hunder.answers⟩)

/-- A frame that is no event is the response to the call under way. -/
theorem response_of_unread (h : s.Inv) {frame : Frame (Request Q) (Response R) E}
    {rest : List (Frame (Request Q) (Response R) E)} (hun : s.unread = frame :: rest)
    (hev : frame.event? = none) :
    ∃ id request caller response, s.phase = .waiting id request caller ∧
      frame = ⟨id, .response response⟩ ∧ replies rest = [] ∧ s.daemon.requests ++ s.sent = [] ∧
      (Between s.daemon ∨ s.daemon.phase = .ended) ∧
      s.handled = s.answers ++ [(request, response)] := by
  have hreplies : replies s.unread = frame :: replies rest := by
    rw [hun, replies_cons, hev]
    rfl
  rcases h.place with hover | hunder
  · rw [hover.unread] at hreplies
    cases hreplies
  · by_cases hw : ∃ id request caller, s.phase = .waiting id request caller
    · obtain ⟨id, request, caller, hp⟩ := hw
      rw [underway_waiting hp] at hunder
      cases hunder with
      | queued queue between unread answers =>
        rw [unread] at hreplies
        cases hreplies
      | handling queue phase asked unread answers =>
        rw [unread] at hreplies
        cases hreplies
      | writing queue phase unread answers =>
        rw [unread] at hreplies
        cases hreplies
      | @written response queue between unread answers =>
        rw [unread] at hreplies
        obtain ⟨hf, hr⟩ := List.cons_eq_cons.1 hreplies
        exact ⟨id, request, caller, response, hp, hf.symm, hr.symm, queue, between, answers⟩
    · rw [underway_rest hw] at hunder
      rw [hunder.unread] at hreplies
      cases hreplies

theorem inv_receive (h : s.Inv) : (s.step .receive).Inv := by
  simp only [step]
  split
  · next frame rest hun =>
    cases hev : frame.event? with
    | some event =>
      have hsome : frame.event?.isSome := by rw [hev]; rfl
      unfold take
      split
      · next id request caller hp =>
        rw [accept_event hsome]
        exact inv_pass h hun hsome s.nexted
      · rw [hev]
        exact inv_pass h hun hsome _
      · exact h
    | none =>
      obtain ⟨id, request, caller, response, hp, rfl, hrest, queue, between, hans⟩ :=
        response_of_unread h hun hev
      obtain ⟨hdrop, hle⟩ := unread_of_read hun
      obtain ⟨result, haccept, hresult⟩ := accept_response (Q := Q) (E := E) id response
      have htake : s.take ⟨id, .response response⟩ =
          { s with read := s.read + 1 }.finish request caller result := by
        simp only [take, hp, haccept]
      have hanswers : (s.take ⟨id, .response response⟩).answers = s.handled := by
        rw [htake, answers_finish, hans]
        rcases hresult with rfl | ⟨e, rfl, rfl⟩ <;> rfl
      have hhandled : (s.take ⟨id, .response response⟩).handled = s.handled := by
        rw [htake]
        rfl
      have hunread : replies (s.take ⟨id, .response response⟩).unread = [] := by
        rw [htake]
        exact (congrArg replies hdrop).trans hrest
      have hdaemon : (s.take ⟨id, .response response⟩).daemon = s.daemon := by
        rw [htake]
        rfl
      refine ⟨by rw [htake]; exact hle, ?_⟩
      rcases between with between | between
      · refine .inr (underway_of_rest (by rw [htake]; exact not_waiting_resume) ⟨?_, ?_, hunread, ?_⟩)
        · rw [htake]
          exact queue
        · rw [hdaemon]
          exact between
        · rw [hanswers, hhandled]
      · refine .inl ⟨by rw [hdaemon]; exact between, hunread, ?_, ?_⟩
        · rw [hanswers, hhandled]
        · rw [hanswers, hhandled]
          omega
  · exact h

theorem daemonGone_iff : s.daemonGone = true ↔ s.daemon.phase = .ended := by
  unfold daemonGone
  split
  · next hp => simp [hp]
  · next hp => simpa using hp

theorem inv_closed (h : s.Inv) : (s.step .closed).Inv := by
  simp only [step]
  split
  · next hend =>
    obtain ⟨hgone, hun⟩ := hend
    rw [daemonGone_iff] at hgone
    -- a response would be left to read
    have hover : s.Over := by
      rcases h.place with hover | hunder
      · exact hover
      · by_cases hw : ∃ id request caller, s.phase = .waiting id request caller
        · obtain ⟨id, request, caller, hp⟩ := hw
          rw [underway_waiting hp] at hunder
          cases hunder with
          | queued queue between => exact absurd hgone (not_ended_of_between between)
          | handling queue phase => cases hgone.symm.trans phase
          | writing queue phase => cases hgone.symm.trans phase
          | written queue between unread =>
            rw [hun] at unread
            cases unread
        · rw [underway_rest hw] at hunder
          exact absurd hgone (not_ended_of_between hunder.between)
    split
    · next id request caller hp =>
      have hans : (s.finish request caller (.error (.frame .closed))).answers = s.answers := by
        rw [answers_finish]
        exact List.append_nil _
      exact ⟨h.read, .inl ⟨hover.phase, hover.unread, hans ▸ hover.answers, hans ▸ hover.length⟩⟩
    · exact ⟨h.read, .inl ⟨hover.phase, hover.unread, hover.answers, hover.length⟩⟩
    · exact h
  · exact h

theorem inv_deliver (h : s.Inv) : (s.step .deliver).Inv := by
  simp only [step]
  split
  · next frame sent hsent =>
    split
    · next hroom =>
      have hdaemon : s.daemon.step (.read frame) =
          { s.daemon with requests := s.daemon.requests ++ [frame] } := by
        simp only [IpcConnection.step, if_pos hroom]
      have hqueue : (s.daemon.requests ++ [frame]) ++ sent = s.daemon.requests ++ s.sent := by
        rw [hsent, List.append_assoc]
        rfl
      rw [hdaemon]
      refine ⟨h.read, ?_⟩
      rcases h.place with hover | hunder
      · exact .inl ⟨hover.phase, hover.unread, hover.answers, hover.length⟩
      · by_cases hw : ∃ id request caller, s.phase = .waiting id request caller
        · obtain ⟨id, request, caller, hp⟩ := hw
          rw [underway_waiting hp] at hunder
          refine .inr (underway_of_stage hp ?_)
          cases hunder with
          | queued queue between unread answers =>
            exact .queued (hqueue.trans queue) between unread answers
          | handling queue phase asked unread answers =>
            exact .handling (hqueue.trans queue) phase asked unread answers
          | writing queue phase unread answers =>
            exact .writing (hqueue.trans queue) phase unread answers
          | written queue between unread answers =>
            exact .written (hqueue.trans queue) between unread answers
        · rw [underway_rest hw] at hunder
          exact .inr (underway_of_rest hw
            ⟨hqueue.trans hunder.queue, hunder.between, hunder.unread, hunder.answers⟩)
    · exact h
  · exact h

/-! ## Runs -/

/-- **One step.** -/
theorem Inv.step (h : s.Inv) (op : LinkOp Q R E) : (s.step op).Inv := by
  cases op with
  | call request =>
    simp only [IpcLink.step]
    split
    · next hidle => exact inv_write h hidle
    · exact h
  | unsent request e =>
    cases hp : s.phase with
    | idle => exact inv_unsent h hp e
    | waiting id request' caller => simpa only [IpcLink.step, hp] using h
    | streaming => simpa only [IpcLink.step, hp] using h
    | dropped => simpa only [IpcLink.step, hp] using h
  | subscribe =>
    simp only [IpcLink.step]
    split
    · next hidle => exact inv_write h hidle
    · exact h
  | receive => exact inv_receive h
  | closed => exact inv_closed h
  | deliver => exact inv_deliver h
  | daemon op => exact inv_daemon h op

theorem inv_connect (name : String) (channel : Channel E) :
    (connect name channel : IpcLink Q R E).Inv :=
  inv_write ⟨Nat.le_refl 0, .inr ⟨rfl, trivial, rfl, rfl⟩⟩ rfl

theorem inv_run (h : s.Inv) (ops : List (LinkOp Q R E)) : (ops.foldl IpcLink.step s).Inv := by
  induction ops generalizing s with
  | nil => exact h
  | cons op ops ih => exact ih (h.step op)

/-- **Every call gets its own answer**: whatever events come in between, and wherever the connection
breaks off, the calls that return an answer return what the daemon has answered to them, in order,
and the daemon has answered at most one request more. -/
theorem calls_answered (name : String) (channel : Channel E) (ops : List (LinkOp Q R E)) :
    (ops.foldl IpcLink.step (connect name channel)).answers <+:
        (ops.foldl IpcLink.step (connect name channel)).handled ∧
      (ops.foldl IpcLink.step (connect name channel)).handled.length ≤
        (ops.foldl IpcLink.step (connect name channel)).answers.length + 1 :=
  (inv_run (inv_connect name channel) ops).answers

end IpcLink
end Ipc
end Clipse
