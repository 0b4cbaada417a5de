import Clipse.Ipc.Proof.Client

/-!
# An event stream has every event (`clipse-ipc/src/client.rs`)

`subscribe` turns a connection into a stream of events. A connection that has not asked for events
before is sent none before the response to `Subscribe`, and `next` skips nothing but responses: what
it has returned, and what it has not read yet, is all that the daemon has sent
(`stream_complete`).
-/

namespace Clipse

open Broadcast (Channel)

namespace Ipc
namespace IpcLink

variable {Q R E : Type} [Broadcast E] {s : IpcLink Q R E} {id : UInt64}

omit [Broadcast E] in
/-- The events among frames. -/
def eventsIn (frames : List (Frame (Request Q) (Response R) E)) : List E :=
  frames.filterMap Frame.event?

omit [Broadcast E] in
@[simp] theorem eventsIn_append (frames frames' : List (Frame (Request Q) (Response R) E)) :
    eventsIn (frames ++ frames') = eventsIn frames ++ eventsIn frames' := List.filterMap_append ..

omit [Broadcast E] in
/-- A frame is an event or none. -/
theorem eq_nil_of_replies {frames : List (Frame (Request Q) (Response R) E)}
    (hr : replies frames = []) (he : eventsIn frames = []) : frames = [] := by
  cases frames with
  | nil => rfl
  | cons frame frames =>
    rw [replies_cons] at hr
    cases hev : frame.event? with
    | none => simp [hev] at hr
    | some event => simp [eventsIn, hev] at he

/-- No events have been asked for, and none has been sent. -/
structure Mute (s : IpcLink Q R E) : Prop where
  nexted : s.nexted = []
  subscribed : s.daemon.subscribed = false
  delivered : s.daemon.delivered = []
  inFlight : s.daemon.inFlight = []

/-- Events have been asked for: none has been sent before the response, which is written or still
to come. -/
structure Opening (s : IpcLink Q R E) : Prop where
  nexted : s.nexted = []
  place : (s.unread = [] ∧ s.daemon.delivered = [] ∧ s.daemon.inFlight = [] ∧
      s.daemon.phase ≠ .select) ∨
    ∃ frame rest, s.unread = frame :: rest ∧ frame.event? = none ∧
      eventsIn rest = s.daemon.delivered

/-- The stream and what is left to read of it. -/
def Flowing (s : IpcLink Q R E) : Prop := s.nexted ++ eventsIn s.unread = s.daemon.delivered

/-- What the client has got of the events. -/
def Heard (s : IpcLink Q R E) : Prop :=
  match s.phase with
  | .idle => s.Mute
  | .waiting _ request caller =>
    request ≠ .subscribe ∧ caller ≠ .subscribe ∧ s.Mute ∨
      request = .subscribe ∧ caller = .subscribe ∧ (s.Mute ∨ s.Opening)
  | .streaming => s.Flowing
  | .dropped => s.nexted <+: s.daemon.delivered

/-- Where a request for events has come, events are on. -/
structure Told (s : IpcLink Q R E) : Prop where
  asked : s.asked = some .subscribe → s.daemon.subscribed = true
  handled : ∀ p ∈ s.handled, p.1 = .subscribe → s.daemon.subscribed = true

structure Good (s : IpcLink Q R E) : Prop where
  inv : s.Inv
  told : s.Told
  heard : s.Heard

/-! ## Steps of the daemon -/

section
variable {c : IpcConnection (Request Q) (Response R) E}

/-- Nothing that was written is taken back. -/
theorem written_step (c : IpcConnection (Request Q) (Response R) E)
    (op : ConnectionOp (Request Q) (Response R) E) :
    ∃ frames, (c.step op).written = c.written ++ frames := by
  cases op with
  | flushed =>
    cases h : c.phase with
    | writing frame => exact ⟨[frame], by simp only [IpcConnection.step, h]⟩
    | select => exact ⟨[], by simp only [IpcConnection.step, h, List.append_nil]⟩
    | handling id => exact ⟨[], by simp only [IpcConnection.step, h, List.append_nil]⟩
    | ended => exact ⟨[], by simp only [IpcConnection.step, h, List.append_nil]⟩
  | emit event => exact ⟨[], (List.append_nil _).symm⟩
  | hangUp => exact ⟨[], (List.append_nil _).symm⟩
  | read frame =>
    refine ⟨[], ?_⟩
    rw [List.append_nil]
    simp only [IpcConnection.step]
    split <;> rfl
  | respond response =>
    refine ⟨[], ?_⟩
    rw [List.append_nil]
    simp only [IpcConnection.step]
    split <;> rfl
  | broken =>
    refine ⟨[], ?_⟩
    rw [List.append_nil]
    simp only [IpcConnection.step]
    split <;> rfl
  | request =>
    refine ⟨[], ?_⟩
    rw [List.append_nil]
    simp only [IpcConnection.step]
    split
    · unfold IpcConnection.takeFrame
      split <;> rfl
    · split <;> rfl
    · rfl
  | event =>
    refine ⟨[], ?_⟩
    rw [List.append_nil]
    simp only [IpcConnection.step]
    split
    · split
      · unfold IpcConnection.takeEvent
        split <;> rfl
      · rfl
    · rfl

/-- Events stay on, and are turned on by `Subscribe` alone. -/
theorem subscribed_step (op : ConnectionOp (Request Q) (Response R) E) :
    (c.step op).subscribed = c.subscribed ∨
      op = .request ∧ c.phase = .select ∧ (c.step op).subscribed = true ∧
        ∃ id rest, c.requests = ⟨id, .request .subscribe⟩ :: rest := by
  cases op with
  | emit event => exact .inl rfl
  | hangUp => exact .inl rfl
  | read frame =>
    left
    simp only [IpcConnection.step]
    split <;> rfl
  | respond response =>
    left
    simp only [IpcConnection.step]
    split <;> rfl
  | flushed =>
    left
    simp only [IpcConnection.step]
    split <;> rfl
  | broken =>
    left
    simp only [IpcConnection.step]
    split <;> rfl
  | event =>
    left
    simp only [IpcConnection.step]
    split
    · split
      · unfold IpcConnection.takeEvent
        split <;> rfl
      · rfl
    · rfl
  | request =>
    cases hp : c.phase with
    | select =>
      cases hr : c.requests with
      | nil =>
        left
        simp only [IpcConnection.step, hp, hr]
        split <;> rfl
      | cons frame rest =>
        obtain ⟨id, body⟩ := frame
        simp only [IpcConnection.step, hp, hr, IpcConnection.takeFrame]
        cases body with
        | request request =>
          cases request with
          | subscribe => exact .inr ⟨trivial, trivial, rfl, id, rest, rfl⟩
          | other q => exact .inl rfl
        | response r => exact .inl rfl
        | event e => exact .inl rfl
    | handling id => exact .inl (by simp only [IpcConnection.step, hp])
    | writing frame => exact .inl (by simp only [IpcConnection.step, hp])
    | ended => exact .inl (by simp only [IpcConnection.step, hp])

/-- A connection without events is sent none. -/
theorem quiet_step (hsub : c.subscribed = false) (hdel : c.delivered = []) (hfl : c.inFlight = [])
    (op : ConnectionOp (Request Q) (Response R) E) :
    (c.step op).delivered = [] ∧ (c.step op).inFlight = [] := by
  cases op with
  | emit event => exact ⟨hdel, hfl⟩
  | hangUp => exact ⟨hdel, hfl⟩
  | read frame =>
    simp only [IpcConnection.step]
    split
    · exact ⟨hdel, hfl⟩
    · exact ⟨hdel, hfl⟩
  | respond response =>
    simp only [IpcConnection.step]
    split
    · exact ⟨hdel, rfl⟩
    · exact ⟨hdel, hfl⟩
  | broken =>
    simp only [IpcConnection.step]
    split
    · exact ⟨hdel, rfl⟩
    · exact ⟨hdel, hfl⟩
  | flushed =>
    cases h : c.phase with
    | writing frame =>
      have hnone : frame.event?.toList = [] := by simpa only [IpcConnection.inFlight, h] using hfl
      simp only [IpcConnection.step, h]
      refine ⟨?_, rfl⟩
      rw [IpcConnection.delivered, List.filterMap_append]
      have hev : frame.event? = none := by simpa using hnone
      simp only [List.filterMap_cons, hev, List.filterMap_nil, List.append_nil]
      exact hdel
    | select => exact ⟨by simpa only [IpcConnection.step, h] using hdel, by
        simpa only [IpcConnection.step, h] using hfl⟩
    | handling id => exact ⟨by simpa only [IpcConnection.step, h] using hdel, by
        simpa only [IpcConnection.step, h] using hfl⟩
    | ended => exact ⟨by simpa only [IpcConnection.step, h] using hdel, by
        simpa only [IpcConnection.step, h] using hfl⟩
  | event =>
    simp only [IpcConnection.step, hsub]
    split
    · exact ⟨hdel, hfl⟩
    · exact ⟨hdel, hfl⟩
  | request =>
    simp only [IpcConnection.step]
    split
    · unfold IpcConnection.takeFrame
      split
      · exact ⟨hdel, rfl⟩
      · exact ⟨hdel, rfl⟩
      · exact ⟨hdel, hfl⟩
    · split
      · exact ⟨hdel, hfl⟩
      · exact ⟨hdel, rfl⟩
    · exact ⟨hdel, hfl⟩

/-- A request or a response keeps the loop from events. -/
theorem busy_step (hfl : c.inFlight = []) (hsel : c.phase ≠ .select)
    {op : ConnectionOp (Request Q) (Response R) E} (hop : op ≠ .flushed) :
    (c.step op).written = c.written ∧ (c.step op).inFlight = [] ∧ (c.step op).phase ≠ .select := by
  cases op with
  | emit event => exact ⟨rfl, hfl, hsel⟩
  | hangUp => exact ⟨rfl, hfl, hsel⟩
  | read frame =>
    simp only [IpcConnection.step]
    split
    · exact ⟨rfl, hfl, hsel⟩
    · exact ⟨rfl, hfl, hsel⟩
  | request =>
    simp only [IpcConnection.step]
    split
    · next hp _ => exact absurd hp hsel
    · next hp _ => exact absurd hp hsel
    · exact ⟨rfl, hfl, hsel⟩
  | respond response =>
    simp only [IpcConnection.step]
    split
    · exact ⟨rfl, rfl, by rintro ⟨⟩⟩
    · exact ⟨rfl, hfl, hsel⟩
  | event =>
    have hs : c.step .event = c := by simp only [IpcConnection.step]
    rw [hs]
    exact ⟨rfl, hfl, hsel⟩
  | flushed => exact absurd rfl hop
  | broken =>
    simp only [IpcConnection.step]
    split
    · exact ⟨rfl, rfl, by rintro ⟨⟩⟩
    · exact ⟨rfl, hfl, hsel⟩

end

/-! ## What the steps of the daemon mean for the client -/

section
variable {c' : IpcConnection (Request Q) (Response R) E}
  {frames : List (Frame (Request Q) (Response R) E)}

theorem delivered_append (h : c'.written = s.daemon.written ++ frames) :
    c'.delivered = s.daemon.delivered ++ eventsIn frames := by
  rw [IpcConnection.delivered, h]
  exact List.filterMap_append

theorem Flowing.daemon (h : s.Flowing) (hread : s.read ≤ s.daemon.written.length)
    (hw : c'.written = s.daemon.written ++ frames) : (s.withDaemon c').Flowing := by
  have hun := unread_append hread hw
  show s.nexted ++ eventsIn (s.withDaemon c').unread = c'.delivered
  rw [hun, eventsIn_append, ← List.append_assoc, h, delivered_append hw]

theorem Opening.written (h : s.Opening) (hread : s.read ≤ s.daemon.written.length)
    (hw : c'.written = s.daemon.written ++ frames)
    (hnone : s.unread = [] → s.daemon.delivered = [] → s.daemon.inFlight = [] →
      s.daemon.phase ≠ .select →
      frames = [] ∧ c'.inFlight = [] ∧ c'.phase ≠ .select ∨
        ∃ frame, frames = [frame] ∧ frame.event? = none) : (s.withDaemon c').Opening := by
  have hun := unread_append hread hw
  have hdel := delivered_append hw
  refine ⟨h.nexted, ?_⟩
  rcases h.place with ⟨hnil, hd, hfl, hsel⟩ | ⟨frame, rest, hf, hev, hrest⟩
  · rcases hnone hnil hd hfl hsel with ⟨rfl, hfl', hsel'⟩ | ⟨frame, rfl, hev⟩
    · exact .inl ⟨by rw [hun, hnil]; rfl, by rw [withDaemon, hdel, hd]; rfl, hfl', hsel'⟩
    · refine .inr ⟨frame, [], by rw [hun, hnil]; rfl, hev, ?_⟩
      show eventsIn [] = c'.delivered
      rw [hdel, hd]
      simp [eventsIn, hev]
  · refine .inr ⟨frame, rest ++ frames, by rw [hun, hf]; rfl, hev, ?_⟩
    show eventsIn (rest ++ frames) = c'.delivered
    rw [eventsIn_append, hrest, hdel]

end

/-- Before the response to `Subscribe` no event is sent. -/
theorem Opening.step (h : s.Opening) (hread : s.read ≤ s.daemon.written.length)
    (op : ConnectionOp (Request Q) (Response R) E) :
    (s.withDaemon (s.daemon.step op)).Opening := by
  by_cases hop : op = .flushed
  · subst hop
    have hself : s.daemon.step .flushed = s.daemon →
        (s.withDaemon (s.daemon.step .flushed)).Opening := fun hs => by
      rw [hs]
      exact h
    cases hp : s.daemon.phase with
    | writing frame =>
      have hstep : s.daemon.step .flushed =
          { s.daemon with phase := .select, written := s.daemon.written ++ [frame] } := by
        simp only [IpcConnection.step, hp]
      rw [hstep]
      refine h.written hread rfl fun _ _ hfl _ => .inr ⟨frame, rfl, ?_⟩
      simpa [IpcConnection.inFlight, hp] using hfl
    | select => exact hself (by simp only [IpcConnection.step, hp])
    | handling id => exact hself (by simp only [IpcConnection.step, hp])
    | ended => exact hself (by simp only [IpcConnection.step, hp])
  · obtain ⟨frames, hw⟩ := written_step s.daemon op
    refine h.written hread hw fun _ _ hfl hsel => .inl ?_
    obtain ⟨hw', hbusy⟩ := busy_step hfl hsel hop
    rw [hw'] at hw
    exact ⟨List.append_cancel_left (hw.symm.trans (List.append_nil _).symm), hbusy⟩

theorem Mute.step (h : s.Mute) (op : ConnectionOp (Request Q) (Response R) E)
    (hsub : (s.daemon.step op).subscribed = s.daemon.subscribed) :
    (s.withDaemon (s.daemon.step op)).Mute := by
  obtain ⟨hdel, hfl⟩ := quiet_step h.subscribed h.delivered h.inFlight op
  exact ⟨h.nexted, hsub.trans h.subscribed, hdel, hfl⟩

theorem eventsIn_unread (h : s.daemon.delivered = []) : eventsIn s.unread = [] :=
  List.filterMap_eq_nil_iff.2 fun frame hf =>
    List.filterMap_eq_nil_iff.1 h frame (List.mem_of_mem_drop hf)

/-- The daemon turns events on for the call that has asked for them. -/
theorem Mute.opening (h : s.Mute) (hinv : s.Inv)
    {rest : List (Frame (Request Q) (Response R) E)} (hp : s.daemon.phase = .select)
    (hr : s.daemon.requests = ⟨id, .request .subscribe⟩ :: rest) :
    (∃ caller, s.phase = .waiting id .subscribe caller) ∧
      (s.withDaemon (s.daemon.step .request)).Opening := by
  obtain ⟨id', request, caller, hphase, hr', -, hun, -⟩ :=
    queued_of_requests hinv (by rw [hr]; exact List.cons_ne_nil _ _) hp
  obtain ⟨hf, -⟩ := List.cons_eq_cons.1 (hr.symm.trans hr')
  obtain ⟨rfl, hb⟩ := Frame.mk.inj hf
  obtain rfl := FrameBody.request.inj hb
  have hnil : s.unread = [] := eq_nil_of_replies hun (eventsIn_unread h.delivered)
  have hstep : s.daemon.step .request =
      { s.daemon with requests := rest, subscribed := true, phase := .handling id } := by
    simp only [IpcConnection.step, hp, hr, IpcConnection.takeFrame]
  rw [hstep]
  exact ⟨⟨caller, hphase⟩, h.nexted, .inl ⟨hnil, h.delivered, rfl, by rintro ⟨⟩⟩⟩

/-! ## One step of both -/

theorem Heard.of_eq {s' : IpcLink Q R E} (h : s.Heard) (hphase : s'.phase = s.phase)
    (hdaemon : s'.daemon = s.daemon) (hread : s'.read = s.read) (hnexted : s'.nexted = s.nexted) :
    s'.Heard := by
  have hun : s'.unread = s.unread := by rw [unread, unread, hdaemon, hread]
  have hmute : s.Mute → s'.Mute := fun hm =>
    ⟨hnexted.trans hm.nexted, hdaemon ▸ hm.subscribed, hdaemon ▸ hm.delivered,
      hdaemon ▸ hm.inFlight⟩
  have hopen : s.Opening → s'.Opening := fun ho =>
    ⟨hnexted.trans ho.nexted, by rw [hun, hdaemon]; exact ho.place⟩
  unfold Heard at h ⊢
  rw [hphase]
  cases hp : s.phase with
  | idle =>
    rw [hp] at h
    exact hmute h
  | waiting id request caller =>
    rw [hp] at h
    exact h.imp (fun hm => ⟨hm.1, hm.2.1, hmute hm.2.2⟩)
      fun ho => ⟨ho.1, ho.2.1, ho.2.2.imp hmute hopen⟩
  | streaming =>
    rw [hp] at h
    rw [Flowing] at h ⊢
    rw [hnexted, hun, hdaemon]
    exact h
  | dropped =>
    rw [hp] at h
    rw [hnexted, hdaemon]
    exact h

/-- The daemon goes on. -/
theorem Heard.daemon (h : s.Heard) (hinv : s.Inv) (op : ConnectionOp (Request Q) (Response R) E) :
    (s.withDaemon (s.daemon.step op)).Heard := by
  obtain ⟨frames, hw⟩ := written_step s.daemon op
  have hsub := subscribed_step (c := s.daemon) op
  cases hp : s.phase with
  | idle =>
    have hm : s.Mute := by rwa [Heard, hp] at h
    have hgoal : (s.withDaemon (s.daemon.step op)).Mute := by
      rcases hsub with hsub | ⟨-, hsel, -, id, rest, hr⟩
      · exact hm.step op hsub
      · obtain ⟨⟨caller, hphase⟩, -⟩ := hm.opening hinv hsel hr
        cases hp.symm.trans hphase
    have hp' : (s.withDaemon (s.daemon.step op)).phase = .idle := hp
    rw [Heard, hp']
    exact hgoal
  | waiting id request caller =>
    have hp' : (s.withDaemon (s.daemon.step op)).phase = .waiting id request caller := hp
    rw [Heard, hp] at h
    rw [Heard, hp']
    rcases h with ⟨hne, hcaller, hm⟩ | ⟨rfl, hcaller, hm | ho⟩
    · rcases hsub with hsub | ⟨-, hsel, -, id', rest, hr⟩
      · exact .inl ⟨hne, hcaller, hm.step op hsub⟩
      · obtain ⟨⟨caller', hphase⟩, -⟩ := hm.opening hinv hsel hr
        obtain ⟨-, hreq, -⟩ := ClientPhase.waiting.inj (hp.symm.trans hphase)
        exact absurd hreq hne
    · rcases hsub with hsub | ⟨rfl, hsel, -, id', rest, hr⟩
      · exact .inr ⟨rfl, hcaller, .inl (hm.step op hsub)⟩
      · exact .inr ⟨rfl, hcaller, .inr (hm.opening hinv hsel hr).2⟩
    · exact .inr ⟨rfl, hcaller, .inr (ho.step hinv.read op)⟩
  | streaming =>
    have hp' : (s.withDaemon (s.daemon.step op)).phase = .streaming := hp
    rw [Heard, hp] at h
    rw [Heard, hp']
    exact h.daemon hinv.read hw
  | dropped =>
    have hp' : (s.withDaemon (s.daemon.step op)).phase = .dropped := hp
    rw [Heard, hp] at h
    rw [Heard, hp']
    show s.nexted <+: (s.daemon.step op).delivered
    rw [delivered_append hw]
    exact h.trans (List.prefix_append _ _)

theorem subscribed_mono {c : IpcConnection (Request Q) (Response R) E}
    (op : ConnectionOp (Request Q) (Response R) E) (h : c.subscribed = true) :
    (c.step op).subscribed = true := by
  rcases subscribed_step (c := c) op with hs | ⟨-, -, hs, -⟩
  · exact hs.trans h
  · exact hs

/-- What a step of the daemon adds to what it was asked and what it has answered. -/
theorem Told.daemon (h : s.Told) (op : ConnectionOp (Request Q) (Response R) E) :
    (s.step (.daemon op)).Told := by
  have hsame : (s.withDaemon (s.daemon.step op)).Told :=
    ⟨fun ha => subscribed_mono op (h.asked ha), fun p hp he => subscribed_mono op (h.handled p hp he)⟩
  cases op with
  | read frame => exact h
  | emit event => exact hsame
  | hangUp => exact hsame
  | event => exact hsame
  | flushed => exact hsame
  | broken => exact hsame
  | request =>
    refine ⟨fun ha => ?_, hsame.handled⟩
    change s.daemonTakes = some .subscribe at ha
    unfold daemonTakes at ha
    split at ha
    · next id request rest hp hr =>
      obtain rfl := Option.some.inj ha
      show (s.daemon.step .request).subscribed = true
      simp only [IpcConnection.step, hp, hr, IpcConnection.takeFrame]
    · exact hsame.asked ha
  | respond response =>
    refine ⟨hsame.asked, fun p hp he => ?_⟩
    change p ∈ s.daemonAnswers response at hp
    unfold daemonAnswers at hp
    split at hp
    · rcases List.mem_append.1 hp with hp | hp
      · exact hsame.handled p hp he
      · rw [Option.mem_toList] at hp
        obtain ⟨request, ha, rfl⟩ := Option.map_eq_some_iff.1 hp
        obtain rfl : request = .subscribe := he
        exact hsame.asked ha
    · exact hsame.handled p hp he

/-- The client begins a call. -/
theorem Heard.write (h : s.Heard) (hidle : s.phase = .idle) {request : IpcRequest (Request Q)}
    {caller : Caller} (hcaller : request = .subscribe ↔ caller = .subscribe) :
    (s.write request caller).Heard := by
  rw [Heard, hidle] at h
  have hm : (s.write request caller).Mute := ⟨h.nexted, h.subscribed, h.delivered, h.inFlight⟩
  show request ≠ .subscribe ∧ caller ≠ .subscribe ∧ (s.write request caller).Mute ∨
    request = .subscribe ∧ caller = .subscribe ∧
      ((s.write request caller).Mute ∨ (s.write request caller).Opening)
  by_cases hr : request = .subscribe
  · exact .inr ⟨hr, hcaller.1 hr, .inl hm⟩
  · exact .inl ⟨hr, fun hc => hr (hcaller.2 hc), hm⟩

/-- A call that is no `subscribe` returns. -/
theorem heard_finish {request : IpcRequest (Request Q)} {caller : Caller}
    {result : Except ClientError (Response R)} (hcaller : caller ≠ .subscribe) (hm : s.Mute) :
    (s.finish request caller result).Heard := by
  have hm' : (s.finish request caller result).Mute :=
    ⟨hm.nexted, hm.subscribed, hm.delivered, hm.inFlight⟩
  have hdropped : (s.finish request caller result).nexted <+:
      (s.finish request caller result).daemon.delivered := by
    rw [hm'.nexted]
    exact List.nil_prefix
  unfold Heard
  cases caller with
  | user => exact hm'
  | connect =>
    cases hc : checkHello result with
    | ok u =>
      have hp : (s.finish request .connect result).phase = .idle := by
        simp only [finish, resume, hc]
      rw [hp]
      exact hm'
    | error e =>
      have hp : (s.finish request .connect result).phase = .dropped := by
        simp only [finish, resume, hc]
      rw [hp]
      exact hdropped
  | subscribe => exact absurd rfl hcaller

/-- `subscribe` returns. -/
theorem heard_finish_subscribe {request : IpcRequest (Request Q)}
    {result : Except ClientError (Response R)} (hnexted : s.nexted = [])
    (hflow : (∃ r, result = .ok r) → eventsIn s.unread = s.daemon.delivered) :
    (s.finish request .subscribe result).Heard := by
  have hdropped : (s.finish request .subscribe result).nexted <+:
      (s.finish request .subscribe result).daemon.delivered := by
    show s.nexted <+: _
    rw [hnexted]
    exact List.nil_prefix
  unfold Heard
  cases hc : checkSubscribe result with
  | ok u =>
    have hp : (s.finish request .subscribe result).phase = .streaming := by
      simp only [finish, resume, hc]
    have hok : ∃ r, result = .ok r := by
      cases result with
      | ok r => exact ⟨r, rfl⟩
      | error e => cases hc
    rw [hp]
    show s.nexted ++ eventsIn s.unread = s.daemon.delivered
    rw [hnexted, hflow hok]
    rfl
  | error e =>
    have hp : (s.finish request .subscribe result).phase = .dropped := by
      simp only [finish, resume, hc]
    rw [hp]
    exact hdropped

/-- The client reads a frame. -/
theorem Good.receive (h : s.Good) : (s.step .receive).Heard := by
  simp only [IpcLink.step]
  split
  · next frame rest hun =>
    obtain ⟨hdrop, -⟩ := unread_of_read hun
    cases hev : frame.event? with
    | none =>
      obtain ⟨id, request, caller, response, hp, rfl, -, -, -, hans⟩ :=
        response_of_unread h.inv hun hev
      obtain ⟨result, haccept, hresult⟩ := accept_response (Q := Q) (E := E) id response
      have htake : s.take ⟨id, .response response⟩ =
          { s with read := s.read + 1 }.finish request caller result := by
        simp only [take, hp, haccept]
      have hheard := h.heard
      rw [Heard, hp] at hheard
      rw [htake]
      rcases hheard with ⟨-, hcaller, hm⟩ | ⟨rfl, rfl, hm | ho⟩
      · exact heard_finish hcaller ⟨hm.nexted, hm.subscribed, hm.delivered, hm.inFlight⟩
      · -- the daemon has been asked for events
        have hsub := h.told.handled (.subscribe, response)
          (by rw [hans]; exact List.mem_append_right _ (List.mem_singleton_self _)) rfl
        rw [hm.subscribed] at hsub
        cases hsub
      · refine heard_finish_subscribe ho.nexted fun _ => ?_
        rcases ho.place with ⟨hnil, -⟩ | ⟨frame', rest', hun', -, hrest⟩
        · rw [hun] at hnil
          cases hnil
        · obtain ⟨-, rfl⟩ := List.cons_eq_cons.1 (hun.symm.trans hun')
          show eventsIn (s.daemon.written.drop (s.read + 1)) = _
          rw [hdrop]
          exact hrest
    | some event =>
      have hnone : s.daemon.delivered ≠ [] := by
        intro hd
        have hnil := eventsIn_unread hd
        rw [hun, eventsIn, List.filterMap_cons, hev] at hnil
        cases hnil
      have hheard := h.heard
      cases hp : s.phase with
      | idle =>
        rw [Heard, hp] at hheard
        exact absurd hheard.delivered hnone
      | waiting id request caller =>
        rw [Heard, hp] at hheard
        rcases hheard with ⟨-, -, hm⟩ | ⟨-, -, hm | ho⟩
        · exact absurd hm.delivered hnone
        · exact absurd hm.delivered hnone
        · rcases ho.place with ⟨hnil, -⟩ | ⟨frame', rest', hun', hev', -⟩
          · rw [hun] at hnil
            cases hnil
          · obtain ⟨rfl, -⟩ := List.cons_eq_cons.1 (hun.symm.trans hun')
            rw [hev] at hev'
            cases hev'
      | streaming =>
        rw [Heard, hp] at hheard
        have htake : s.take frame =
            { s with read := s.read + 1, nexted := s.nexted ++ [event] } := by
          simp only [take, hp, hev]
        rw [htake]
        have hp' : ({ s with read := s.read + 1, nexted := s.nexted ++ [event] } :
            IpcLink Q R E).phase = .streaming := hp
        rw [Heard, hp']
        show s.nexted ++ [event] ++ eventsIn (s.daemon.written.drop (s.read + 1)) = _
        rw [Flowing, hun, eventsIn, List.filterMap_cons, hev] at hheard
        rw [hdrop, List.append_assoc]
        exact hheard
      | dropped =>
        have htake : s.take frame = s := by simp only [take, hp]
        rw [htake]
        exact h.heard
  · exact h.heard

/-- The client reads to the end of the stream. -/
theorem Good.closed (h : s.Good) : (s.step .closed).Heard := by
  simp only [IpcLink.step]
  split
  · next hend =>
    have hheard := h.heard
    split
    · next id request caller hp =>
      rw [Heard, hp] at hheard
      rcases hheard with ⟨-, hcaller, hm⟩ | ⟨-, rfl, hm | ho⟩
      · exact heard_finish hcaller hm
      · refine heard_finish_subscribe hm.nexted ?_
        rintro ⟨r, hr⟩
        cases hr
      · refine heard_finish_subscribe ho.nexted ?_
        rintro ⟨r, hr⟩
        cases hr
    · next hp =>
      rw [Heard, hp, Flowing, hend.2] at hheard
      show s.nexted <+: s.daemon.delivered
      rw [← hheard]
      exact List.prefix_append _ _
    · exact h.heard
  · exact h.heard

/-! ## Runs -/

/-- **One step** of a client that asks for events through `subscribe` only. -/
theorem Good.step (h : s.Good) {op : LinkOp Q R E} (hop : op ≠ .call .subscribe) :
    (s.step op).Good := by
  have hinv := h.inv.step op
  cases op with
  | daemon op =>
    refine ⟨hinv, h.told.daemon op, ?_⟩
    have hd := h.heard.daemon h.inv op
    cases op with
    | read frame => exact h.heard
    | request => exact hd.of_eq rfl rfl rfl rfl
    | respond response => exact hd.of_eq rfl rfl rfl rfl
    | emit event => exact hd
    | hangUp => exact hd
    | event => exact hd
    | flushed => exact hd
    | broken => exact hd
  | call request =>
    have hne : request ≠ .subscribe := fun he => hop (he ▸ rfl)
    by_cases hidle : s.phase = .idle
    · have hstep : s.step (.call request) = s.write request .user := by
        simp only [IpcLink.step, hidle]
      rw [hstep] at hinv ⊢
      exact ⟨hinv, ⟨h.told.asked, h.told.handled⟩, h.heard.write hidle
        ⟨fun he => absurd he hne, fun he => by cases he⟩⟩
    · have hstep : s.step (.call request) = s := by simp only [IpcLink.step]
      rw [hstep]
      exact h
  | unsent request e =>
    refine ⟨hinv, ?_, ?_⟩
    · simp only [IpcLink.step]
      split
      · exact ⟨h.told.asked, h.told.handled⟩
      · exact h.told
    · simp only [IpcLink.step]
      split
      · exact h.heard.of_eq rfl rfl rfl rfl
      · exact h.heard
  | subscribe =>
    by_cases hidle : s.phase = .idle
    · have hstep : s.step .subscribe = s.write .subscribe .subscribe := by
        simp only [IpcLink.step, hidle]
      rw [hstep] at hinv ⊢
      exact ⟨hinv, ⟨h.told.asked, h.told.handled⟩, h.heard.write hidle
        ⟨fun _ => rfl, fun _ => rfl⟩⟩
    · have hstep : s.step .subscribe = s := by simp only [IpcLink.step]
      rw [hstep]
      exact h
  | receive =>
    refine ⟨hinv, ?_, h.receive⟩
    simp only [IpcLink.step]
    split
    · unfold take
      split
      · split
        · exact ⟨h.told.asked, h.told.handled⟩
        · exact ⟨h.told.asked, h.told.handled⟩
      · split
        · exact ⟨h.told.asked, h.told.handled⟩
        · exact ⟨h.told.asked, h.told.handled⟩
      · exact h.told
    · exact h.told
  | closed =>
    refine ⟨hinv, ?_, h.closed⟩
    simp only [IpcLink.step]
    split
    · split
      · exact ⟨h.told.asked, h.told.handled⟩
      · exact ⟨h.told.asked, h.told.handled⟩
      · exact h.told
    · exact h.told
  | deliver =>
    refine ⟨hinv, ?_, ?_⟩
    · simp only [IpcLink.step]
      split
      · split
        · exact ⟨fun ha => subscribed_mono _ (h.told.asked ha),
            fun p hp he => subscribed_mono _ (h.told.handled p hp he)⟩
        · exact h.told
      · exact h.told
    · simp only [IpcLink.step]
      split
      · next frame sent hsent =>
        split
        · exact (h.heard.daemon h.inv (.read frame)).of_eq rfl rfl rfl rfl
        · exact h.heard
      · exact h.heard

theorem good_connect (name : String) (channel : Channel E) :
    (connect name channel : IpcLink Q R E).Good where
  inv := inv_connect name channel
  told := ⟨fun ha => (by cases ha), fun p hp => (by cases hp)⟩
  heard := .inl ⟨by rintro ⟨⟩, by rintro ⟨⟩, rfl, rfl, rfl, rfl⟩

theorem good_run (h : s.Good) {ops : List (LinkOp Q R E)} (hops : ∀ op ∈ ops, op ≠ .call .subscribe) :
    (ops.foldl IpcLink.step s).Good := by
  induction ops generalizing s with
  | nil => exact h
  | cons op ops ih =>
    rw [List.forall_mem_cons] at hops
    exact ih (h.step hops.1) hops.2

/-- **The stream has every event**: what `next` has returned, and the events among what the client has
not read, are all that the daemon has sent, in its order. -/
theorem stream_complete (name : String) (channel : Channel E) {ops : List (LinkOp Q R E)}
    (hops : ∀ op ∈ ops, op ≠ .call .subscribe)
    (hstream : (ops.foldl IpcLink.step (connect name channel)).phase = .streaming) :
    (ops.foldl IpcLink.step (connect name channel)).nexted ++
        eventsIn (ops.foldl IpcLink.step (connect name channel)).unread =
      (ops.foldl IpcLink.step (connect name channel)).daemon.delivered := by
  have hheard := (good_run (good_connect name channel) hops).heard
  rwa [Heard, hstream] at hheard

/-! ## A subscription -/

section
attribute [local instance] Broadcast.ofLists

/-- A window connects, subscribes and is sent an event; another has not been read yet. -/
def subscribing : List (LinkOp String String Nat) :=
  [.deliver, .daemon .request, .daemon (.respond (.hello "0.1.0" ipcVersion (.repeated 1))),
    .daemon .flushed, .receive, .subscribe, .deliver, .daemon .request, .daemon (.emit 7),
    .daemon (.respond .ok), .daemon .flushed, .daemon .event, .receive, .daemon .flushed, .receive,
    .daemon (.emit 8), .daemon .event, .daemon .flushed]

theorem stream_complete_subscribing :
    (subscribing.foldl step (connect "clipse-app-events" (Broadcast.channel eventBuffer))).nexted ++
        eventsIn (subscribing.foldl step
          (connect "clipse-app-events" (Broadcast.channel eventBuffer))).unread = [7, 8] :=
  stream_complete "clipse-app-events" (Broadcast.channel eventBuffer) (by simp [subscribing]) rfl

end

end IpcLink
end Ipc
end Clipse
