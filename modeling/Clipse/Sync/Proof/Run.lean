import Clipse.Sync.Proof.Turn

/-!
# A whole session

Two honest ends run `run_session` against each other. `completes_session` takes a completed session
apart: after the hellos there are two turns (`Turn`), the dialler's history first.
-/

namespace Clipse

open Duplex

namespace Session

variable [Blake3]

/-- The two ends of a session that `a` dialled, each on a link to the authenticated other. -/
def sessionLink (a b : SyncContext) (epochA epochB : UInt64) : Link syncWire SyncOutcome :=
  ({ proc := run b.clock.device epochA .dialler, state := a },
    { proc := run a.clock.device epochB .responder, state := b })

theorem takeAll_sameDevice {clips : List Clip} {t t' : Taken} {ctx ctx' : SyncContext}
    (h : (takeAll clips t).eval ctx = some (.ok t', ctx')) : SameDevice ctx ctx' := by
  induction clips generalizing t ctx with
  | nil =>
    rw [takeAll_nil] at h
    cases h
    exact .refl _
  | cons clip clips ih =>
    obtain ⟨t₁, ctx₁, hr, h⟩ := takeAll_cons_ok h
    refine SameDevice.trans ?_ (ih h)
    obtain ⟨x, ha, -⟩ := takePush_ok hr
    rcases apply_cases ha with ⟨-, rfl, -⟩ | ⟨-, -, -, -, -, -, hs⟩ | ⟨_, _, -, -, -, -, -, -, hs⟩
    · exact .refl _
    · exact hs
    · exact hs

/-! ## One turn -/

/-- What a turn does in which `a` offers and `b` takes: the pushed clips are merged one by one
(`b₁`, `t`), then the blobs of the merged clips are stored. -/
structure Turn (a b : SyncContext) (t : Taken) (b₁ a' b' : SyncContext) : Prop where
  merged : ∃ o, (takeAll (pushedBy a.store b.store) { outcome := o }).eval b = some (.ok t, b₁)
  stored : b'.store = b₁.store.receiveBlobs (blobsSent a.store b₁.store t)
  sender : Store.SameData a.store a'.store
  deviceA : a'.clock.device = a.clock.device
  deviceB : b'.clock.device = b.clock.device

/-- The traffic of the offering end in a turn. -/
def offerLog (a b b₁ : Store) (t : Taken) (hlc : Hlc) : List (Traffic SyncMessage Bytes) :=
  (summaryPages a.summaries).map .sent ++ [.received (.want (b.wanted a.summaries))] ++
    ((pushedBy a b).map SyncMessage.push).map .sent ++
    [.received (.want (b₁.neededFrom t.missingBlobs []))] ++
    ((blobsSent a b₁ t).map (·.2)).map .sentStream ++ [.received (.ack hlc)]

/-- The traffic of the taking end in a turn. -/
def takeLog (a b b₁ : Store) (t : Taken) (hlc : Hlc) : List (Traffic SyncMessage Bytes) :=
  (summaryPages a.summaries).map .received ++ [.sent (.want (b.wanted a.summaries))] ++
    ((pushedBy a b).map SyncMessage.push).map .received ++
    [.sent (.want (b₁.neededFrom t.missingBlobs []))] ++
    ((blobsSent a b₁ t).map (·.2)).map .receivedStream ++ [.sent (.ack hlc)]

section
omit [Blake3]
variable (a b b₁ : Store) (t : Taken) (hlc : Hlc)

theorem sentMsgs_offerLog : Traffic.sentMsgs (offerLog a b b₁ t hlc) =
    summaryPages a.summaries ++ (pushedBy a b).map .push := by
  simp only [offerLog, Traffic.sentMsgs_append, Traffic.sentMsgs_sent, Traffic.sentMsgs_sentStream,
    Traffic.sentMsgs_received_one, List.append_nil]

theorem sentBytes_offerLog :
    Traffic.sentBytes (offerLog a b b₁ t hlc) = (blobsSent a b₁ t).map (·.2) := by
  simp only [offerLog, Traffic.sentBytes_append, Traffic.sentBytes_sent,
    Traffic.sentBytes_sentStream, Traffic.sentBytes_received_one, List.append_nil, List.nil_append]

theorem sentMsgs_takeLog : Traffic.sentMsgs (takeLog a b b₁ t hlc) =
    [.want (b.wanted a.summaries), .want (b₁.neededFrom t.missingBlobs []), .ack hlc] := by
  simp only [takeLog, Traffic.sentMsgs_append, Traffic.sentMsgs_received, Traffic.sentMsgs_one,
    Traffic.sentMsgs_receivedStream, List.append_nil, List.nil_append, List.cons_append]

theorem receivedMsgs_offerLog : Traffic.receivedMsgs (offerLog a b b₁ t hlc) =
    [.want (b.wanted a.summaries), .want (b₁.neededFrom t.missingBlobs []), .ack hlc] := by
  simp only [offerLog, Traffic.receivedMsgs_append, Traffic.receivedMsgs_sent,
    Traffic.receivedMsgs_one, Traffic.receivedMsgs_sentStream, List.append_nil, List.nil_append,
    List.cons_append]

theorem receivedMsgs_takeLog : Traffic.receivedMsgs (takeLog a b b₁ t hlc) =
    summaryPages a.summaries ++ (pushedBy a b).map .push := by
  simp only [takeLog, Traffic.receivedMsgs_append, Traffic.receivedMsgs_received,
    Traffic.receivedMsgs_sent_one, Traffic.receivedMsgs_receivedStream, List.append_nil]

theorem sentBytes_takeLog : Traffic.sentBytes (takeLog a b b₁ t hlc) = [] := by
  simp only [takeLog, Traffic.sentBytes_append, Traffic.sentBytes_received,
    Traffic.sentBytes_receivedStream, Traffic.sentBytes_sent_one, List.append_nil]

end

section
variable {α : Type} {a b : SyncContext} {qa qb : SyncOutcome → Session α} {oa ob : SyncOutcome}
  {la lb : List (Traffic SyncMessage Bytes)}

/-- A turn in which every pushed clip can be merged goes through. -/
theorem steps_turn {t : Taken} {b₁ : SyncContext}
    (h : (takeAll (pushedBy a.store b.store) { outcome := ob }).eval b = some (.ok t, b₁)) :
    ∃ a' b' oa' ob' hlc, Turn a b t b₁ a' b' ∧
      Steps (⟨offerOurHistory oa >>= qa, a, [], [], la⟩, ⟨takeTheirHistory ob >>= qb, b, [], [], lb⟩)
        (⟨qa oa', a', [], [], la ++ offerLog a.store b.store b₁.store t hlc⟩,
          ⟨qb ob', b', [], [], lb ++ takeLog a.store b.store b₁.store t hlc⟩) := by
  obtain ⟨a', b', oa', ob', hlc, hsame, ha, hst, hb, hblobs⟩ := @steps_blobs _ α a b₁ qa qb
    (la ++ (summaryPages a.store.summaries).map .sent ++
      [.received (.want (b.store.wanted a.store.summaries))] ++
      ((pushedBy a.store b.store).map SyncMessage.push).map .sent)
    (lb ++ (summaryPages a.store.summaries).map .received ++
      [.sent (.want (b.store.wanted a.store.summaries))] ++
      ((pushedBy a.store b.store).map SyncMessage.push).map .received)
    { oa with sent := oa.sent + (pushedBy a.store b.store).length } t
  refine ⟨a', b', oa', ob', hlc, ⟨⟨ob, h⟩, hst, hsame, congrArg _ ha, ?_⟩, ?_⟩
  · rw [hb, (takeAll_sameDevice h).clock]
  · simp only [offerOurHistory, takeTheirHistory, bind_assoc]
    refine (steps_offerClips oa ob).trans ?_
    refine (steps_takePushes (List.append_nil _).symm h).swap.trans ?_
    simpa only [offerLog, takeLog, List.append_assoc, Prod.swap_prod_mk] using hblobs

/-- A turn in which a pushed clip cannot be merged ends the taking end with an error. -/
theorem steps_turn_error {e : SyncError} {b₁ : SyncContext}
    (h : (takeAll (pushedBy a.store b.store) { outcome := ob }).eval b = some (.error e, b₁)) :
    ∃ A B : End syncWire α, B.proc = .fail e ∧
      Steps (⟨offerOurHistory oa >>= qa, a, [], [], la⟩,
        ⟨takeTheirHistory ob >>= qb, b, [], [], lb⟩) (A, B) := by
  simp only [offerOurHistory, takeTheirHistory, bind_assoc]
  obtain ⟨E, hE, hs⟩ := @steps_takePushes_error α _ b b₁ [] [] _ _ _ _ _ e _ (List.append_nil _).symm h
  exact ⟨_, E, hE, (steps_offerClips oa ob).trans hs.swap⟩

/-- A completed run that begins with a turn has gone through it. -/
theorem completes_turn {F : Link syncWire α}
    (h : Completes (⟨offerOurHistory oa >>= qa, a, [], [], la⟩,
      ⟨takeTheirHistory ob >>= qb, b, [], [], lb⟩) F) :
    ∃ t b₁ a' b' oa' ob' hlc, Turn a b t b₁ a' b' ∧
      Completes (⟨qa oa', a', [], [], la ++ offerLog a.store b.store b₁.store t hlc⟩,
        ⟨qb ob', b', [], [], lb ++ takeLog a.store b.store b₁.store t hlc⟩) F := by
  obtain ⟨⟨r, b₁⟩, hr⟩ :=
    (takeAll_silent (pushedBy a.store b.store) { outcome := ob }).eval b
  cases r with
  | error e =>
    obtain ⟨A, B, hB, hs⟩ := @steps_turn_error _ α a b qa qb oa ob la lb e b₁ hr
    exact absurd ((completes_steps hs).1 h).swap (not_completes_of_fail hB)
  | ok t =>
    obtain ⟨a', b', oa', ob', hlc, ht, hs⟩ := @steps_turn _ α a b qa qb oa ob la lb t b₁ hr
    exact ⟨t, b₁, a', b', oa', ob', hlc, ht, (completes_steps hs).1 h⟩

end

/-! ## The session -/

/-- The `Hello` that an end sends. -/
def helloOf (ctx : SyncContext) (epoch : UInt64) : SyncMessage :=
  .hello ctx.clock.device epoch protocolVersion ctx.store.maxHlc ctx.label ctx.platform

/-- Two honest ends accept each other's hello. -/
theorem steps_hello (a b : SyncContext) (epochA epochB : UInt64) :
    Steps (sessionLink a b epochA epochB)
      (⟨offerOurHistory {} >>= takeTheirHistory, a, [], [],
          [.sent (helloOf a epochA), .received (helloOf b epochB)]⟩,
        ⟨takeTheirHistory {} >>= offerOurHistory, b, [], [],
          [.received (helloOf a epochA), .sent (helloOf b epochB)]⟩) := by
  simp only [sessionLink, run, sendHello, receiveHello, bind_assoc]
  refine (steps_eval (Proc.eval_read _ _ _)).trans ?_
  refine (steps_tell (W := syncWire) _).trans ?_
  refine (steps_hear (W := syncWire) _).swap.trans ?_
  simp only [ne_eq, not_true_eq_false, ↓reduceIte]
  refine (steps_eval (Proc.eval_pure _ _)).swap.trans ?_
  refine (steps_eval (Proc.eval_read _ _ _)).swap.trans ?_
  refine (steps_tell (W := syncWire) _).swap.trans ?_
  refine (steps_hear (W := syncWire) _).trans ?_
  simp only [not_true_eq_false, ↓reduceIte]
  exact steps_eval (Proc.eval_pure _ _)

/-- A session may break off between the clips and the blobs of its first turn. -/
theorem steps_clips {a b b₁ : SyncContext} {epochA epochB : UInt64} {t : Taken}
    (h : (takeAll (pushedBy a.store b.store) { outcome := {} }).eval b = some (.ok t, b₁)) :
    ∃ L, Steps (sessionLink a b epochA epochB) L ∧ L.1.state = a ∧ L.2.state = b₁ := by
  have hs := steps_hello a b epochA epochB
  simp only [offerOurHistory, takeTheirHistory, bind_assoc] at hs
  exact ⟨_, hs.trans ((steps_offerClips {} {}).trans
    (steps_takePushes (List.append_nil _).symm h).swap), rfl, rfl⟩

/-- **A completed session is two turns**: first `b` takes what it lacks of `a`, then `a` takes what
it lacks of `b`. -/
theorem completes_session {a b : SyncContext} {epochA epochB : UInt64}
    {F : Link syncWire SyncOutcome} (h : Completes (sessionLink a b epochA epochB) F) :
    ∃ t b₁ a' b' hlc t' a₁ hlc', Turn a b t b₁ a' b' ∧ Turn b' a' t' a₁ F.2.state F.1.state ∧
      F.1.log = [.sent (helloOf a epochA), .received (helloOf b epochB)] ++
        offerLog a.store b.store b₁.store t hlc ++
        takeLog b'.store a'.store a₁.store t' hlc' ∧
      F.2.log = [.received (helloOf a epochA), .sent (helloOf b epochB)] ++
        takeLog a.store b.store b₁.store t hlc ++
        offerLog b'.store a'.store a₁.store t' hlc' := by
  have h := (completes_steps (steps_hello a b epochA epochB)).1 h
  obtain ⟨t, b₁, a', b', oa, ob, hlc, hturn, h⟩ := completes_turn h
  rw [← bind_pure (takeTheirHistory oa), ← bind_pure (offerOurHistory ob)] at h
  obtain ⟨t', a₁, b'', a'', ob', oa', hlc', hturn', h⟩ := completes_turn h.swap
  have hF := h.unique (Completes.of_finished ⟨⟨_, rfl⟩, ⟨_, rfl⟩⟩)
  obtain ⟨F₁, F₂⟩ := F
  simp only [Prod.swap_prod_mk, Prod.mk.injEq] at hF
  obtain ⟨rfl, rfl⟩ := hF
  exact ⟨t, b₁, a', b', hlc, t', a₁, hlc', hturn, hturn', rfl, rfl⟩

end Session
end Clipse
