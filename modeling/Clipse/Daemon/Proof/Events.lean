import Clipse.Daemon.IpcServer
import Clipse.Lib.Stepwise
import Mathlib.Logic.Function.Iterate

/-!
# What an event stream leaves out (`clipsed/src/ipc_server.rs`)

The loop takes no events while it handles a request or writes a frame, and none before `Subscribe`;
what the channel does not hold any more when it comes back is lost, and `serve_connection` only logs
that. So the stream has no gap exactly if a subscribed connection is never further behind than the
channel holds (`no_silent_gap_iff`).

The invariant is a conservation: what the client has been sent, what is being written and what the
connection has not received make up what was emitted since it was accepted.
-/

namespace Clipse

open Broadcast (Channel Documented held unread capacity)

namespace IpcConnection

variable {Q R E : Type} [Broadcast E] {s : IpcConnection Q R E} {op : ConnectionOp Q R E}

/-- `serve_connection` has not returned. -/
def Live (s : IpcConnection Q R E) : Prop := s.phase ≠ .ended

/-- How many events a connection may be behind. -/
def InTime (s : IpcConnection Q R E) : Prop :=
  s.subscribed = true → s.Live → (unread s.channel s.events).length ≤ capacity s.channel

/-- No event is missing from what the client has been sent; and what it will be sent, unless more is
emitted or the connection ends, is the rest. -/
structure NoGap (s : IpcConnection Q R E) : Prop where
  sent : s.delivered <+: s.emitted
  rest : s.subscribed = true → s.Live →
    s.delivered ++ s.inFlight ++ held s.channel s.events = s.emitted

/-- Nothing is lost between the channel and the client. -/
structure Conserved (s : IpcConnection Q R E) : Prop where
  attached : Broadcast.Attached s.channel s.events
  sent : s.delivered <+: s.emitted
  all : s.Live → s.delivered ++ s.inFlight ++ unread s.channel s.events = s.emitted

theorem Conserved.noGap_iff (h : s.Conserved) : s.NoGap ↔ s.InTime := by
  constructor
  · intro hgap hsub hlive
    have hrest := (hgap.rest hsub hlive).trans (h.all hlive).symm
    exact Broadcast.held_eq_unread_iff.1 (List.append_cancel_left hrest)
  · intro htime
    refine ⟨h.sent, fun hsub hlive => ?_⟩
    rw [Broadcast.held_eq_unread_iff.2 (htime hsub hlive)]
    exact h.all hlive

/-! ## One step -/

theorem live_of_eq {phase : ConnectionPhase Q R E} (h : s.phase = phase) (hne : phase ≠ .ended) :
    s.Live := by
  unfold Live
  rwa [h]

omit [Broadcast E] in
@[simp] theorem filterMap_event?_singleton (frame : Frame Q R E) :
    [frame].filterMap Frame.event? = frame.event?.toList := by
  cases h : frame.event? <;> simp [h]

/-- The events are as they were: nothing has been emitted, received or sent. -/
theorem Conserved.of_eq {s' : IpcConnection Q R E} (h : s.Conserved) (hs : s.Live)
    (hchannel : s'.channel = s.channel) (hevents : s'.events = s.events)
    (hwritten : s'.delivered ++ s'.inFlight = s.delivered ++ s.inFlight)
    (hemitted : s'.emitted = s.emitted) : s'.Conserved := by
  have hall := h.all hs
  rw [← hwritten, ← hchannel, ← hevents, ← hemitted] at hall
  refine ⟨?_, ?_, fun _ => hall⟩
  · rw [hchannel, hevents]
    exact h.attached
  · rw [← hall, List.append_assoc]
    exact List.prefix_append _ _

theorem conserved_takeEvent (hdoc : Documented E) (h : s.Conserved) (hphase : s.phase = .select)
    (htime : (unread s.channel s.events).length ≤ capacity s.channel) : s.takeEvent.Conserved := by
  have hall := h.all (live_of_eq hphase nofun)
  rcases Broadcast.recv_cases hdoc h.attached with
    ⟨-, hrecv | hrecv⟩ | ⟨e, r', hrecv, -, hunread⟩ | ⟨n, r', -, hlagged, -⟩
  · have htake : s.takeEvent = s := by
      unfold takeEvent
      rw [hrecv]
    rwa [htake]
  · have htake : s.takeEvent = { s with phase := .ended } := by
      unfold takeEvent
      rw [hrecv]
    rw [htake]
    exact ⟨h.attached, h.sent, fun hlive => absurd rfl hlive⟩
  · have htake : s.takeEvent = { s with events := r', phase := .writing (.event e) } := by
      unfold takeEvent
      rw [hrecv]
    have hattached := hdoc.attached_recv _ _ h.attached
    rw [hrecv] at hattached
    rw [htake]
    refine ⟨hattached, h.sent, fun _ => ?_⟩
    rw [← hall, hunread]
    simp [delivered, inFlight, hphase, Frame.event?, Frame.event]
  · omega

theorem conserved_takeFrame (h : s.Conserved) (hphase : s.phase = .select)
    (frame : Frame Q R E) : (s.takeFrame frame).Conserved := by
  have hlive := live_of_eq hphase nofun
  have hflight : s.inFlight = [] := by
    unfold inFlight
    rw [hphase]
  unfold takeFrame
  split
  · exact h.of_eq hlive rfl rfl (by rw [hflight]; rfl) rfl
  · exact h.of_eq hlive rfl rfl (by rw [hflight]; rfl) rfl
  · exact h

/-- As long as the connection is in time, no step loses anything. -/
theorem Conserved.step (hdoc : Documented E) (h : s.Conserved) (htime : s.InTime)
    (op : ConnectionOp Q R E) : (s.step op).Conserved := by
  cases op with
  | emit event =>
    refine ⟨hdoc.attached_send _ _ _ h.attached, h.sent.trans (List.prefix_append _ _), ?_⟩
    intro hlive
    show s.delivered ++ s.inFlight ++ unread (Broadcast.send s.channel event) s.events = _
    rw [hdoc.unread_send _ _ _ h.attached, ← List.append_assoc, h.all hlive]
    rfl
  | read frame =>
    simp only [IpcConnection.step]
    split
    · exact ⟨h.attached, h.sent, h.all⟩
    · exact h
  | hangUp => exact ⟨h.attached, h.sent, h.all⟩
  | request =>
    simp only [IpcConnection.step]
    split
    · next frame requests hphase _ =>
      have htaken : ({ s with requests } : IpcConnection Q R E).Conserved := ⟨h.attached, h.sent, h.all⟩
      exact conserved_takeFrame htaken hphase frame
    · split
      · exact h
      · exact ⟨h.attached, h.sent, fun hlive => absurd rfl hlive⟩
    · exact h
  | respond response =>
    simp only [IpcConnection.step]
    split
    · next id hphase =>
      refine h.of_eq (live_of_eq hphase nofun) rfl rfl ?_ rfl
      simp [delivered, inFlight, hphase, Frame.event?, Frame.response]
    · exact h
  | event =>
    simp only [IpcConnection.step]
    split
    · next hphase =>
      split
      · next hsub =>
        exact conserved_takeEvent hdoc h hphase (htime hsub (live_of_eq hphase nofun))
      · exact h
    · exact h
  | flushed =>
    simp only [IpcConnection.step]
    split
    · next frame hphase =>
      refine h.of_eq (live_of_eq hphase nofun) rfl rfl ?_ rfl
      simp [delivered, inFlight, hphase]
    · exact h
  | broken =>
    simp only [IpcConnection.step]
    split
    · exact ⟨h.attached, h.sent, fun hlive => absurd rfl hlive⟩
    · exact h

/-- **Keeping up.** Nothing is emitted while a subscribed connection is behind by all that the
channel holds, and `Subscribe` is not taken when the connection is further behind than that. -/
def KeepsUp (s : IpcConnection Q R E) : ConnectionOp Q R E → Prop
  | .emit _ =>
    s.subscribed = true → s.Live → (unread s.channel s.events).length < capacity s.channel
  | .request =>
    s.phase = .select → s.requests.head?.map Frame.body = some (.request .subscribe) →
      (unread s.channel s.events).length ≤ capacity s.channel
  | _ => True

theorem inTime_takeEvent (hdoc : Documented E) (h : s.Conserved)
    (htime : (unread s.channel s.events).length ≤ capacity s.channel) : s.takeEvent.InTime := by
  intro _ _
  unfold takeEvent
  rcases Broadcast.recv_cases hdoc h.attached with
    ⟨-, hrecv | hrecv⟩ | ⟨e, r', hrecv, -, hunread⟩ | ⟨n, r', -, hlagged, -⟩
  · rwa [hrecv]
  · rwa [hrecv]
  · rw [hrecv]
    rw [hunread, List.length_cons] at htime
    exact Nat.le_of_succ_le htime
  · omega

theorem InTime.of_eq {s' : IpcConnection Q R E} (h : s.InTime) (hchannel : s'.channel = s.channel)
    (hevents : s'.events = s.events) (hsub : s'.subscribed = s.subscribed)
    (hlive : s'.Live → s.Live) : s'.InTime := by
  intro hsub' hlive'
  rw [hchannel, hevents]
  exact h (hsub ▸ hsub') (hlive hlive')

/-- Taking a frame puts the connection behind only if it is the `Subscribe`. -/
theorem inTime_takeFrame_iff (htime : s.InTime) (hphase : s.phase = .select) (frame : Frame Q R E) :
    (s.takeFrame frame).InTime ↔
      (frame.body = .request .subscribe →
        (unread s.channel s.events).length ≤ capacity s.channel) := by
  have hlive : s.Live := live_of_eq hphase nofun
  unfold takeFrame
  split
  · next hbody =>
    constructor
    · intro h _
      exact h rfl nofun
    · intro h _ _
      exact h hbody
  · next request hbody =>
    rw [hbody]
    exact iff_of_true (htime.of_eq rfl rfl rfl fun _ => hlive) nofun
  · next hne _ => exact iff_of_true htime fun hbody => absurd hbody hne

/-- What puts a connection behind. -/
theorem inTime_step_iff (hdoc : Documented E) (h : s.Conserved) (htime : s.InTime) :
    (s.step op).InTime ↔ s.KeepsUp op := by
  cases op with
  | emit event =>
    simp only [InTime, Live, step, KeepsUp, hdoc.unread_send _ _ _ h.attached, hdoc.capacity_send,
      List.length_append, List.length_singleton]
    rfl
  | request =>
    simp only [step, KeepsUp]
    split
    · next frame requests hphase hrequests =>
      have htaken : ({ s with requests } : IpcConnection Q R E).InTime := htime
      rw [inTime_takeFrame_iff htaken hphase frame, hrequests]
      simp [hphase]
    · next hphase hrequests =>
      rw [hrequests]
      refine iff_of_true ?_ nofun
      split
      · exact htime
      · intro _ hlive
        exact absurd rfl hlive
    · next hcons hnil =>
      refine iff_of_true htime ?_
      intro hphase
      cases hrequests : s.requests with
      | nil => exact absurd hrequests (hnil hphase)
      | cons frame requests => exact absurd hrequests (hcons frame requests hphase)
  | event =>
    simp only [step, KeepsUp, iff_true]
    split
    · next hphase =>
      split
      · next hsub => exact inTime_takeEvent hdoc h (htime hsub (live_of_eq hphase nofun))
      · exact htime
    · exact htime
  | flushed =>
    simp only [step, KeepsUp, iff_true]
    split
    · next hphase => exact htime.of_eq rfl rfl rfl fun _ => live_of_eq hphase nofun
    · exact htime
  | broken =>
    simp only [step, KeepsUp, iff_true]
    split
    · next hphase => exact htime.of_eq rfl rfl rfl fun _ => live_of_eq hphase nofun
    · exact htime
  | read frame =>
    simp only [step, KeepsUp, iff_true]
    split
    · exact htime
    · exact htime
  | hangUp => exact iff_of_true htime trivial
  | respond response =>
    simp only [step, KeepsUp, iff_true]
    split
    · next hphase => exact htime.of_eq rfl rfl rfl fun _ => live_of_eq hphase nofun
    · exact htime

/-! ## Every run -/

/-- No gap, and none to come. -/
structure Complete (s : IpcConnection Q R E) : Prop where
  conserved : s.Conserved
  inTime : s.InTime

theorem complete_accepted (hdoc : Documented E) (channel : Channel E) :
    (accepted channel : IpcConnection Q R E).Complete where
  conserved := by
    refine ⟨hdoc.attached_subscribe channel, List.prefix_rfl, fun _ => ?_⟩
    show [] ++ [] ++ unread channel (Broadcast.subscribe channel) = []
    rw [hdoc.unread_subscribe]
    rfl
  inTime hsub := by cases hsub

theorem Complete.noGap_step_iff (hdoc : Documented E) (h : s.Complete) :
    (s.step op).NoGap ↔ s.KeepsUp op := by
  rw [(h.conserved.step hdoc h.inTime op).noGap_iff, inTime_step_iff hdoc h.conserved h.inTime]

theorem Complete.step (hdoc : Documented E) (h : s.Complete) (hgap : (s.step op).NoGap) :
    (s.step op).Complete where
  conserved := h.conserved.step hdoc h.inTime op
  inTime := (h.conserved.step hdoc h.inTime op).noGap_iff.1 hgap

/-- **No silent gap**, in any state of a run since the connection was accepted, exactly if the
connection keeps up all along. The channel holds 256 events at least. -/
theorem no_silent_gap_iff (hdoc : Documented E) (before : List E) (ops : List (ConnectionOp Q R E)) :
    eventBuffer ≤ capacity (channelAfter before) ∧
      (Stepwise step (fun s op => (s.step op).NoGap) (accepted (channelAfter before)) ops ↔
        Stepwise step KeepsUp (accepted (channelAfter before)) ops) := by
  constructor
  · rw [channelAfter, Broadcast.capacity_sendAll hdoc]
    exact hdoc.capacity_channel eventBuffer
  · exact stepwise_congr (fun s op h hgap => h.step hdoc hgap)
      (fun s op h => h.noGap_step_iff hdoc) (complete_accepted hdoc _)

/-! ## Left alone -/

/-- The loop takes an event, and the client takes the frame. -/
def round (s : IpcConnection Q R E) : IpcConnection Q R E := (s.step .event).step .flushed

/-- One round sends the next event that is held, or steps over what is not. -/
theorem round_cases (hdoc : Documented E) (hattached : Broadcast.Attached s.channel s.events)
    (hphase : s.phase = .select) (hsub : s.subscribed = true) :
    held s.channel s.events = [] ∨
      ∃ e?, Broadcast.Attached s.round.channel s.round.events ∧
        s.round.phase = .select ∧ s.round.subscribed = true ∧
        s.round.delivered = s.delivered ++ Option.toList e? ∧
        held s.channel s.events = e?.toList ++ held s.round.channel s.round.events ∧
        (unread s.round.channel s.round.events).length < (unread s.channel s.events).length := by
  have hround : s.round = s.takeEvent.step .flushed := by
    simp [round, step, hphase, hsub]
  have hrecvd := hdoc.attached_recv _ _ hattached
  rcases Broadcast.recv_cases hdoc hattached with
    ⟨hnil, -⟩ | ⟨e, r', hrecv, htime, hunread⟩ | ⟨n, r', hrecv, hlagged, hunread⟩
  · left
    simp [held, hnil]
  · right
    have hnext : s.round = { s with
        events := r', phase := .select, written := s.written ++ [.event e] } := by
      simp [hround, takeEvent, hrecv, step]
    have hrest : (unread s.channel r').length ≤ capacity s.channel := by
      rw [hunread, List.length_cons] at htime
      omega
    refine ⟨some e, ?_⟩
    rw [hrecv] at hrecvd
    rw [hnext]
    refine ⟨hrecvd, rfl, hsub, ?_, ?_, ?_⟩
    · simp [delivered, Frame.event?, Frame.event]
    · show _ = [e] ++ held s.channel r'
      rw [Broadcast.held_eq_unread_iff.2 htime, Broadcast.held_eq_unread_iff.2 hrest, hunread]
      rfl
    · show (unread s.channel r').length < _
      rw [hunread, List.length_cons]
      omega
  · right
    have hnext : s.round = { s with events := r' } := by
      simp [hround, takeEvent, hrecv, step, hphase]
    have hheld : (unread s.channel r').length ≤ capacity s.channel := by
      rw [hunread]
      exact Broadcast.length_held_le
    refine ⟨none, ?_⟩
    rw [hrecv] at hrecvd
    rw [hnext]
    refine ⟨hrecvd, hphase, hsub, ?_, ?_, ?_⟩
    · simp [delivered]
    · show _ = [] ++ held s.channel r'
      rw [Broadcast.held_eq_unread_iff.2 hheld, hunread, List.nil_append]
    · show (unread s.channel r').length < _
      omega

/-- What is held for a subscribed connection is sent, if it is left alone. -/
theorem exists_delivered_rounds (hdoc : Documented E)
    (hattached : Broadcast.Attached s.channel s.events) (hphase : s.phase = .select)
    (hsub : s.subscribed = true) :
    ∃ n, (round^[n] s).delivered = s.delivered ++ held s.channel s.events := by
  induction hn : (unread s.channel s.events).length using Nat.strongRecOn generalizing s with
  | ind n ih =>
    rcases round_cases hdoc hattached hphase hsub with
      hnil | ⟨e?, hattached', hphase', hsub', hdelivered, hheld, hless⟩
    · exact ⟨0, by rw [hnil, List.append_nil]; rfl⟩
    · obtain ⟨m, hm⟩ := ih _ (hn ▸ hless) hattached' hphase' hsub' rfl
      refine ⟨m + 1, ?_⟩
      rw [Function.iterate_succ_apply, hm, hdelivered, hheld, List.append_assoc]

/-! ## A window -/

attribute [local instance] Broadcast.ofLists

/-- An event is emitted before the window subscribes, and one while the daemon answers. -/
def windowRun : List (ConnectionOp String String Nat) :=
  [.emit 0, .read ⟨1, .request .subscribe⟩, .request, .emit 1, .respond "Ok", .flushed,
    .event, .flushed, .event, .flushed]

theorem no_silent_gap_window :
    Stepwise step (fun s op => (s.step op).NoGap) (accepted (channelAfter [7])) windowRun ∧
      (windowRun.foldl step (accepted (channelAfter [7]))).delivered = [0, 1] := by
  refine ⟨?_, rfl⟩
  refine (no_silent_gap_iff (Broadcast.documented_ofLists Nat) [7] windowRun).2.2 ?_
  exact ⟨nofun, trivial, fun _ _ => by decide, fun _ _ => by decide, trivial, trivial, trivial,
    trivial, trivial, trivial, trivial⟩

/-- 257 events are emitted while the daemon answers. -/
def busyRun : List (ConnectionOp String String Nat) :=
  [.read ⟨1, .request .subscribe⟩, .request] ++ (List.range 257).map .emit ++
    [.respond "Ok", .flushed, .event, .event]

/-- The window gets the response and then the second event. -/
theorem not_no_silent_gap :
    ¬ ∀ (E : Type) [Broadcast E], Documented E → ∀ before (ops : List (ConnectionOp String String E)),
      Stepwise step (fun s op => (s.step op).NoGap) (accepted (channelAfter before)) ops := by
  intro h
  have hrun := h Nat (Broadcast.documented_ofLists Nat) [] (busyRun ++ [.flushed])
  have hgap := (stepwise_append.1 hrun).2.1.sent
  revert hgap
  decide +kernel

end IpcConnection
end Clipse
