import Clipse.Lib.Proc
import Mathlib.Logic.Relation

/-!
# Two processes on a duplex link

`End`: one end of a link, with its program, its own state, the messages and streams in flight to
it, and the history of its traffic. Either end may take its next step at any time (`Step`).

The ends share nothing but the two FIFO channels, so their steps commute (`step_diamond`) and a
run that finishes always finishes in the same place: `Completes c F` holds before a step iff it
holds after it (`completes_left`, `completes_right`). This lets a run be followed in any one order:
`completes_eval` runs what an end does between two messages.
-/

namespace Duplex

variable {W : Wire} {α : Type}

/-- What an end can be seen to do on the link. -/
inductive Traffic (M B : Type) where
  | sent (m : M)
  | received (m : M)
  | sentStream (b : B)
  | receivedStream (b : B)

namespace Traffic

variable {M B : Type}

def sentMsgs (log : List (Traffic M B)) : List M :=
  log.filterMap fun
    | sent m => some m
    | _ => none

def receivedMsgs (log : List (Traffic M B)) : List M :=
  log.filterMap fun
    | received m => some m
    | _ => none

def sentBytes (log : List (Traffic M B)) : List B :=
  log.filterMap fun
    | sentStream b => some b
    | _ => none

def receivedBytes (log : List (Traffic M B)) : List B :=
  log.filterMap fun
    | receivedStream b => some b
    | _ => none

section
variable (log log' : List (Traffic M B)) (ms : List M) (bs : List B)

@[simp] theorem sentMsgs_append : sentMsgs (log ++ log') = sentMsgs log ++ sentMsgs log' :=
  List.filterMap_append

@[simp] theorem sentMsgs_sent : sentMsgs (ms.map (sent (B := B))) = ms :=
  (List.filterMap_map ..).trans (List.filterMap_some ..)

@[simp] theorem sentMsgs_received : sentMsgs (ms.map (received (B := B))) = [] := by
  simp [sentMsgs, List.filterMap_map]

@[simp] theorem sentMsgs_sentStream : sentMsgs (bs.map (sentStream (M := M))) = [] := by
  simp [sentMsgs, List.filterMap_map]

@[simp] theorem sentMsgs_receivedStream : sentMsgs (bs.map (receivedStream (M := M))) = [] := by
  simp [sentMsgs, List.filterMap_map]

@[simp] theorem receivedMsgs_append :
    receivedMsgs (log ++ log') = receivedMsgs log ++ receivedMsgs log' :=
  List.filterMap_append

@[simp] theorem receivedMsgs_received : receivedMsgs (ms.map (received (B := B))) = ms :=
  (List.filterMap_map ..).trans (List.filterMap_some ..)

@[simp] theorem receivedMsgs_sent : receivedMsgs (ms.map (sent (B := B))) = [] := by
  simp [receivedMsgs, List.filterMap_map]

@[simp] theorem receivedMsgs_receivedStream :
    receivedMsgs (bs.map (receivedStream (M := M))) = [] := by
  simp [receivedMsgs, List.filterMap_map]

@[simp] theorem sentBytes_append : sentBytes (log ++ log') = sentBytes log ++ sentBytes log' :=
  List.filterMap_append

@[simp] theorem sentBytes_sentStream : sentBytes (bs.map (sentStream (M := M))) = bs :=
  (List.filterMap_map ..).trans (List.filterMap_some ..)

@[simp] theorem sentBytes_receivedStream :
    sentBytes (bs.map (receivedStream (M := M))) = [] := by
  simp [sentBytes, List.filterMap_map]

@[simp] theorem sentBytes_sent : sentBytes (ms.map (sent (B := B))) = [] := by
  simp [sentBytes, List.filterMap_map]

@[simp] theorem sentBytes_received : sentBytes (ms.map (received (B := B))) = [] := by
  simp [sentBytes, List.filterMap_map]

@[simp] theorem receivedMsgs_sentStream :
    receivedMsgs (bs.map (sentStream (M := M))) = [] := by
  simp [receivedMsgs, List.filterMap_map]

@[simp] theorem receivedBytes_append :
    receivedBytes (log ++ log') = receivedBytes log ++ receivedBytes log' :=
  List.filterMap_append

@[simp] theorem receivedBytes_receivedStream :
    receivedBytes (bs.map (receivedStream (M := M))) = bs :=
  (List.filterMap_map ..).trans (List.filterMap_some ..)

@[simp] theorem receivedBytes_sent : receivedBytes (ms.map (sent (B := B))) = [] := by
  simp [receivedBytes, List.filterMap_map]

@[simp] theorem receivedBytes_received : receivedBytes (ms.map (received (B := B))) = [] := by
  simp [receivedBytes, List.filterMap_map]

@[simp] theorem receivedBytes_sentStream :
    receivedBytes (bs.map (sentStream (M := M))) = [] := by
  simp [receivedBytes, List.filterMap_map]

end

@[simp] theorem sentMsgs_nil : sentMsgs ([] : List (Traffic M B)) = [] := rfl
@[simp] theorem receivedMsgs_nil : receivedMsgs ([] : List (Traffic M B)) = [] := rfl
@[simp] theorem sentBytes_nil : sentBytes ([] : List (Traffic M B)) = [] := rfl
@[simp] theorem sentMsgs_one (m : M) : sentMsgs [sent (B := B) m] = [m] := rfl
@[simp] theorem sentMsgs_received_one (m : M) : sentMsgs [received (B := B) m] = [] := rfl
@[simp] theorem receivedMsgs_one (m : M) : receivedMsgs [received (B := B) m] = [m] := rfl
@[simp] theorem receivedMsgs_sent_one (m : M) : receivedMsgs [sent (B := B) m] = [] := rfl
@[simp] theorem sentBytes_sent_one (m : M) : sentBytes [sent (B := B) m] = [] := rfl
@[simp] theorem sentBytes_received_one (m : M) : sentBytes [received (B := B) m] = [] := rfl
@[simp] theorem receivedBytes_sent_one (m : M) : receivedBytes [sent (B := B) m] = [] := rfl
@[simp] theorem receivedBytes_received_one (m : M) : receivedBytes [received (B := B) m] = [] := rfl

end Traffic

structure End (W : Wire) (α : Type) where
  proc : Proc W α
  state : W.State
  /-- Control messages in flight to this end, oldest first. -/
  inbox : List W.Msg := []
  /-- Byte streams in flight to this end. -/
  streams : List W.Stream := []
  /-- The end's traffic so far. -/
  log : List (Traffic W.Msg W.Stream) := []

namespace End

/-- What an end does next by itself: the end after it, and what it puts on the link. `none` when
it waits or has ended. -/
def next (e : End W α) : Option (End W α × List W.Msg × List W.Stream) :=
  match e.proc with
  | .done _ | .fail _ => none
  | .send m k => some ({ e with proc := k, log := e.log ++ [.sent m] }, [m], [])
  | .sendStream b k => some ({ e with proc := k, log := e.log ++ [.sentStream b] }, [], [b])
  | .recv k =>
    match e.inbox with
    | [] => none
    | m :: ms => some ({ e with proc := k m, inbox := ms, log := e.log ++ [.received m] }, [], [])
  | .gather acc more k =>
    match e.inbox with
    | [] => none
    | m :: ms =>
      let proc :=
        match more acc m with
        | some acc => .gather acc more k
        | none => k acc m
      some ({ e with proc, inbox := ms, log := e.log ++ [.received m] }, [], [])
  | .recvStream k =>
    match e.streams with
    | [] => none
    | b :: bs =>
      some ({ e with proc := k b, streams := bs, log := e.log ++ [.receivedStream b] }, [], [])
  | .call _ f k => some ({ e with proc := k e.state, state := f e.state }, [], [])

/-- The control messages an end has sent. -/
def sent (e : End W α) : List W.Msg := Traffic.sentMsgs e.log

/-- The control messages an end has received. -/
def received (e : End W α) : List W.Msg := Traffic.receivedMsgs e.log

/-- The byte streams an end has sent. -/
def sentStreams (e : End W α) : List W.Stream := Traffic.sentBytes e.log

/-- Messages and streams reach the end. -/
def deliver (e : End W α) (ms : List W.Msg) (bs : List W.Stream) : End W α :=
  { e with inbox := e.inbox ++ ms, streams := e.streams ++ bs }

/-- The next step of an end and what it does to the peer `p`. -/
def step (e p : End W α) : Option (End W α × End W α) :=
  e.next.map fun r => (r.1, p.deliver r.2.1 r.2.2)

/-- The end waits for its peer. -/
def Waiting (e : End W α) : Prop :=
  match e.proc with
  | .recv _ | .gather _ _ _ | .recvStream _ => True
  | _ => False

/-- What arrives later does not change what an end does now. -/
theorem next_deliver {e e' : End W α} {ms : List W.Msg} {bs : List W.Stream}
    (h : e.next = some (e', ms, bs)) (ms' : List W.Msg) (bs' : List W.Stream) :
    (e.deliver ms' bs').next = some (e'.deliver ms' bs', ms, bs) := by
  obtain ⟨proc, state, inbox, streams, log⟩ := e
  cases proc with
  | done | fail => simp [next] at h
  | send | sendStream | call =>
    simp only [next, Option.some.injEq, Prod.mk.injEq] at h
    obtain ⟨rfl, rfl, rfl⟩ := h
    rfl
  | recv k =>
    cases inbox with
    | nil => simp [next] at h
    | cons m inbox =>
      simp only [next, Option.some.injEq, Prod.mk.injEq] at h
      obtain ⟨rfl, rfl, rfl⟩ := h
      rfl
  | gather acc more k =>
    cases inbox with
    | nil => simp [next] at h
    | cons m inbox =>
      simp only [next, Option.some.injEq, Prod.mk.injEq] at h
      obtain ⟨rfl, rfl, rfl⟩ := h
      rfl
  | recvStream k =>
    cases streams with
    | nil => simp [next] at h
    | cons b streams =>
      simp only [next, Option.some.injEq, Prod.mk.injEq] at h
      obtain ⟨rfl, rfl, rfl⟩ := h
      rfl

theorem next_done {e : End W α} {a : α} (h : e.proc = .done a) : e.next = none := by
  simp [next, h]

theorem next_fail {e : End W α} {err : W.Err} (h : e.proc = .fail err) : e.next = none := by
  simp [next, h]

theorem step_eq_some {e p e' p' : End W α} :
    e.step p = some (e', p') ↔
      ∃ ms bs, e.next = some (e', ms, bs) ∧ p' = p.deliver ms bs := by
  simp only [step, Option.map_eq_some_iff, Prod.exists, Prod.mk.injEq]
  constructor
  · rintro ⟨e₁, ms, bs, h, rfl, rfl⟩
    exact ⟨ms, bs, h, rfl⟩
  · rintro ⟨ms, bs, h, rfl⟩
    exact ⟨e', ms, bs, h, rfl, rfl⟩

end End

/-- The two ends of a link. -/
abbrev Link (W : Wire) (α : Type) := End W α × End W α

/-- One of the ends takes a step. -/
inductive Step : Link W α → Link W α → Prop where
  | left {e p e' p' : End W α} (h : e.step p = some (e', p')) : Step (e, p) (e', p')
  | right {e p e' p' : End W α} (h : p.step e = some (p', e')) : Step (e, p) (e', p')

abbrev Steps : Link W α → Link W α → Prop := Relation.ReflTransGen Step

theorem Step.swap {c c' : Link W α} (h : Step c c') : Step c.swap c'.swap := by
  cases h with
  | left h => exact .right h
  | right h => exact .left h

theorem Steps.swap {c c' : Link W α} (h : Steps c c') : Steps c.swap c'.swap := by
  induction h with
  | refl => exact .refl
  | tail _ hs ih => exact ih.tail hs.swap

/-! ## Confluence -/

/-- Steps of different ends commute. -/
theorem step_diamond {e p e₁ p₁ e₂ p₂ : End W α} (h₁ : e.step p = some (e₁, p₁))
    (h₂ : p.step e = some (p₂, e₂)) :
    ∃ e₃ p₃, p₁.step e₁ = some (p₃, e₃) ∧ e₂.step p₂ = some (e₃, p₃) := by
  obtain ⟨ms, bs, hn₁, rfl⟩ := End.step_eq_some.1 h₁
  obtain ⟨ms', bs', hn₂, rfl⟩ := End.step_eq_some.1 h₂
  exact ⟨e₁.deliver ms' bs', p₂.deliver ms bs,
    End.step_eq_some.2 ⟨ms', bs', End.next_deliver hn₂ ms bs, rfl⟩,
    End.step_eq_some.2 ⟨ms, bs, End.next_deliver hn₁ ms' bs', rfl⟩⟩

/-- Two different steps from one state meet again after one more step each. -/
theorem step_local_confluent {a b c : Link W α} (hb : Step a b) (hc : Step a c) :
    b = c ∨ ∃ d, Step b d ∧ Step c d := by
  cases hb with
  | left hb =>
    cases hc with
    | left hc => exact .inl (Option.some.inj (hb.symm.trans hc))
    | right hc =>
      obtain ⟨e, p, h₁, h₂⟩ := step_diamond hb hc
      exact .inr ⟨(e, p), .right h₁, .left h₂⟩
  | right hb =>
    cases hc with
    | left hc =>
      obtain ⟨e, p, h₁, h₂⟩ := step_diamond hc hb
      exact .inr ⟨(e, p), .left h₂, .right h₁⟩
    | right hc =>
      have h := Option.some.inj (hb.symm.trans hc)
      simp only [Prod.mk.injEq] at h
      exact .inl (by rw [h.1, h.2])

theorem steps_confluent {a b c : Link W α} (hb : Steps a b) (hc : Steps a c) :
    ∃ d, Steps b d ∧ Steps c d := by
  refine Relation.church_rosser (fun a b c hb hc => ?_) hb hc
  rcases step_local_confluent hb hc with rfl | ⟨d, hbd, hcd⟩
  · exact ⟨b, .refl, .refl⟩
  · exact ⟨d, .single hbd, .single hcd⟩

/-! ## Runs that complete -/

/-- Both ends have returned. -/
def Finished (c : Link W α) : Prop :=
  (∃ a, c.1.proc = .done a) ∧ ∃ a, c.2.proc = .done a

/-- The run of the link from `c`, undisturbed, ends in `F` with both programs returning. -/
def Completes (c F : Link W α) : Prop := Steps c F ∧ Finished F

theorem Finished.not_step {c c' : Link W α} (h : Finished c) : ¬ Step c c' := by
  obtain ⟨⟨a, ha⟩, ⟨b, hb⟩⟩ := h
  rintro (hs | hs)
  · obtain ⟨ms, bs, hn, -⟩ := End.step_eq_some.1 hs
    rw [End.next_done ha] at hn
    cases hn
  · obtain ⟨ms, bs, hn, -⟩ := End.step_eq_some.1 hs
    rw [End.next_done hb] at hn
    cases hn

theorem Finished.steps_eq {c c' : Link W α} (h : Finished c) (hs : Steps c c') : c' = c := by
  induction hs with
  | refl => rfl
  | tail _ hs ih => exact absurd (ih ▸ hs) h.not_step

/-- **A completing run is followed step by step**, whichever end moves. -/
theorem completes_step {c c' F : Link W α} (h : Step c c') : Completes c F ↔ Completes c' F := by
  refine ⟨fun ⟨hs, hf⟩ => ⟨?_, hf⟩, fun ⟨hs, hf⟩ => ⟨.head h hs, hf⟩⟩
  obtain ⟨d, hF, hc'⟩ := steps_confluent hs (.single h)
  exact hf.steps_eq hF ▸ hc'

theorem completes_steps {c c' F : Link W α} (h : Steps c c') :
    Completes c F ↔ Completes c' F := by
  induction h with
  | refl => rfl
  | tail _ hs ih => exact ih.trans (completes_step hs)

/-- A run completes in one way. -/
theorem Completes.unique {c F F' : Link W α} (h : Completes c F) (h' : Completes c F') : F = F' :=
  h'.2.steps_eq ((completes_steps h'.1).1 h).1

theorem Completes.swap {c F : Link W α} (h : Completes c F) : Completes c.swap F.swap :=
  ⟨h.1.swap, h.2.2, h.2.1⟩

theorem Completes.of_finished {c : Link W α} (h : Finished c) : Completes c c := ⟨.refl, h⟩

/-- An end that has failed stays as it is. -/
theorem steps_fail {c c' : Link W α} {e : W.Err} (h : Steps c c') (he : c.1.proc = .fail e) :
    c'.1.proc = .fail e := by
  induction h with
  | refl => exact he
  | tail _ hs ih =>
    cases hs with
    | left hs =>
      obtain ⟨ms, bs, hn, -⟩ := End.step_eq_some.1 hs
      rw [End.next_fail ih] at hn
      cases hn
    | right hs =>
      obtain ⟨ms, bs, -, rfl⟩ := End.step_eq_some.1 hs
      exact ih

/-- An end that has failed never returns. -/
theorem not_completes_of_fail {c F : Link W α} {e : W.Err} (h : c.1.proc = .fail e) :
    ¬ Completes c F := by
  rintro ⟨hs, ⟨a, ha⟩, -⟩
  rw [steps_fail hs h] at ha
  cases ha

/-! ## History -/

theorem End.next_log {e e' : End W α} {ms : List W.Msg} {bs : List W.Stream}
    (h : e.next = some (e', ms, bs)) : e.log <+: e'.log := by
  obtain ⟨proc, state, inbox, streams, log⟩ := e
  cases proc with
  | done | fail => simp [next] at h
  | send | sendStream =>
    cases h
    exact List.prefix_append _ _
  | call =>
    cases h
    exact List.prefix_refl _
  | recv | gather =>
    cases inbox with
    | nil => simp [next] at h
    | cons =>
      cases h
      exact List.prefix_append _ _
  | recvStream =>
    cases streams with
    | nil => simp [next] at h
    | cons =>
      cases h
      exact List.prefix_append _ _

/-- Traffic is never undone. -/
theorem steps_log {c c' : Link W α} (h : Steps c c') :
    c.1.log <+: c'.1.log ∧ c.2.log <+: c'.2.log := by
  induction h with
  | refl => exact ⟨List.prefix_refl _, List.prefix_refl _⟩
  | tail _ hs ih =>
    cases hs with
    | left hs =>
      obtain ⟨ms, bs, hn, rfl⟩ := End.step_eq_some.1 hs
      exact ⟨ih.1.trans (End.next_log hn), ih.2⟩
    | right hs =>
      obtain ⟨ms, bs, hn, rfl⟩ := End.step_eq_some.1 hs
      exact ⟨ih.1, ih.2.trans (End.next_log hn)⟩

/-- Every run from a state whose run completes is on its way there. -/
theorem Completes.of_steps {c c' F : Link W α} (h : Completes c F) (hs : Steps c c') :
    Steps c' F := ((completes_steps hs).1 h).1

/-! ## What the left end does

One rule for each kind of program in front of a continuation `q`; `Steps.swap` gives them for the
other end. -/

section
variable {β : Type} {q : β → Proc W α} {p : End W α} {s s' : W.State} {inbox : List W.Msg}
  {streams : List W.Stream} {log : List (Traffic W.Msg W.Stream)}

theorem steps_next {e e' : End W α} {ms : List W.Msg} {bs : List W.Stream}
    (h : e.next = some (e', ms, bs)) : Steps (e, p) (e', p.deliver ms bs) :=
  .single (.left (End.step_eq_some.2 ⟨ms, bs, h, rfl⟩))

@[simp] theorem deliver_nil (e : End W α) : e.deliver [] [] = e := by simp [End.deliver]

theorem deliver_deliver (e : End W α) (ms ms' : List W.Msg) (bs bs' : List W.Stream) :
    (e.deliver ms bs).deliver ms' bs' = e.deliver (ms ++ ms') (bs ++ bs') := by
  simp [End.deliver, List.append_assoc]

theorem steps_quiet {e e' : End W α} (h : e.next = some (e', [], [])) :
    Steps (e, p) (e', p) := by
  have hs := steps_next (p := p) h
  rwa [deliver_nil] at hs

theorem steps_tell {q : Unit → Proc W α} (m : W.Msg) :
    Steps (⟨.tell m >>= q, s, inbox, streams, log⟩, p)
      (⟨q (), s, inbox, streams, log ++ [.sent m]⟩, p.deliver [m] []) :=
  steps_next rfl

theorem steps_tellStream {q : Unit → Proc W α} (b : W.Stream) :
    Steps (⟨.tellStream b >>= q, s, inbox, streams, log⟩, p)
      (⟨q (), s, inbox, streams, log ++ [.sentStream b]⟩, p.deliver [] [b]) :=
  steps_next rfl

theorem steps_hear {q : W.Msg → Proc W α} (m : W.Msg) :
    Steps (⟨.hear >>= q, s, m :: inbox, streams, log⟩, p)
      (⟨q m, s, inbox, streams, log ++ [.received m]⟩, p) :=
  steps_quiet rfl

theorem steps_hearStream {q : W.Stream → Proc W α} (b : W.Stream) :
    Steps (⟨.hearStream >>= q, s, inbox, b :: streams, log⟩, p)
      (⟨q b, s, inbox, streams, log ++ [.receivedStream b]⟩, p) :=
  steps_quiet rfl

/-- A receiving loop takes the messages that extend its accumulator and the one that ends it. -/
theorem steps_hearWhile {q : W.Acc × W.Msg → Proc W α} {more : W.Acc → W.Msg → Option W.Acc}
    {m : W.Msg} {acc' : W.Acc} (hm : more acc' m = none) {ms : List W.Msg} :
    ∀ {acc : W.Acc} {log : List (Traffic W.Msg W.Stream)}, ms.foldlM more acc = some acc' →
      Steps (⟨.hearWhile acc more >>= q, s, ms ++ m :: inbox, streams, log⟩, p)
        (⟨q (acc', m), s, inbox, streams, log ++ (ms ++ [m]).map .received⟩, p) := by
  induction ms with
  | nil =>
    intro acc log h
    obtain rfl : acc = acc' := by simpa using h
    refine steps_quiet ?_
    simp only [End.next, Proc.hearWhile, bind, Proc.bind, List.nil_append, hm]
    rfl
  | cons m₀ ms ih =>
    intro acc log h
    rw [List.foldlM_cons] at h
    obtain ⟨acc₁, h₁, h₂⟩ := Option.bind_eq_some_iff.1 h
    have hs := @ih acc₁ (log ++ [.received m₀]) h₂
    rw [List.append_assoc] at hs
    refine .trans (steps_quiet ?_) hs
    simp only [End.next, Proc.hearWhile, bind, Proc.bind, List.cons_append, h₁]

/-- Between two messages an end runs by itself. -/
theorem steps_eval {t : Proc W β} {a : β} (h : t.eval s = some (.ok a, s')) :
    Steps (⟨t >>= q, s, inbox, streams, log⟩, p) (⟨q a, s', inbox, streams, log⟩, p) := by
  induction t generalizing s with
  | done b =>
    simp only [Proc.eval, Option.some.injEq, Prod.mk.injEq, Except.ok.injEq] at h
    obtain ⟨rfl, rfl⟩ := h
    exact .refl
  | call name f k ih =>
    have hs : Steps (⟨.call name f k >>= q, s, inbox, streams, log⟩, p)
        (⟨k s >>= q, f s, inbox, streams, log⟩, p) := steps_quiet rfl
    exact hs.trans (ih s h)
  | fail => simp [Proc.eval] at h
  | send | sendStream | recv | gather | recvStream => simp [Proc.eval] at h

theorem steps_eval_error {t : Proc W β} {err : W.Err} (h : t.eval s = some (.error err, s')) :
    Steps (⟨t >>= q, s, inbox, streams, log⟩, p) (⟨.fail err, s', inbox, streams, log⟩, p) := by
  induction t generalizing s with
  | fail e =>
    simp only [Proc.eval, Option.some.injEq, Prod.mk.injEq, Except.error.injEq] at h
    obtain ⟨rfl, rfl⟩ := h
    exact .refl
  | call name f k ih =>
    have hs : Steps (⟨.call name f k >>= q, s, inbox, streams, log⟩, p)
        (⟨k s >>= q, f s, inbox, streams, log⟩, p) := steps_quiet rfl
    exact hs.trans (ih s h)
  | done => simp [Proc.eval] at h
  | send | sendStream | recv | gather | recvStream => simp [Proc.eval] at h

end

/-! ## One end against any peer

`Ends e F`: the end `e` returns by itself, as `F`, from the messages and streams that are already
in flight to it. Whatever a peer does, an end of a link that returns has done so from the messages
it was sent (`ends_of_steps`); the rules below take such a run apart. -/

/-- The end takes steps by itself. -/
abbrev Solo : End W α → End W α → Prop :=
  Relation.ReflTransGen fun e e' => ∃ ms bs, e.next = some (e', ms, bs)

def Ends (e F : End W α) : Prop := Solo e F ∧ ∃ a, F.proc = .done a

theorem Solo.deliver {e e' : End W α} (h : Solo e e') (ms : List W.Msg) (bs : List W.Stream) :
    Solo (e.deliver ms bs) (e'.deliver ms bs) := by
  induction h with
  | refl => exact .refl
  | tail _ hs ih =>
    obtain ⟨ms', bs', hn⟩ := hs
    exact ih.tail ⟨ms', bs', End.next_deliver hn ms bs⟩

theorem solo_of_steps {c c' : Link W α} (h : Steps c c') :
    ∃ ms bs, Solo (c.1.deliver ms bs) c'.1 := by
  induction h with
  | refl => exact ⟨[], [], by rw [deliver_nil]⟩
  | tail _ hs ih =>
    obtain ⟨ms, bs, hsolo⟩ := ih
    cases hs with
    | left hs =>
      obtain ⟨ms', bs', hn, -⟩ := End.step_eq_some.1 hs
      exact ⟨ms, bs, hsolo.tail ⟨ms', bs', hn⟩⟩
    | right hs =>
      obtain ⟨ms', bs', -, rfl⟩ := End.step_eq_some.1 hs
      exact ⟨ms ++ ms', bs ++ bs', deliver_deliver c.1 ms ms' bs bs' ▸ hsolo.deliver ms' bs'⟩

theorem ends_of_steps {c c' : Link W α} {a : α} (h : Steps c c') (ha : c'.1.proc = .done a) :
    ∃ ms bs, Ends (c.1.deliver ms bs) c'.1 := by
  obtain ⟨ms, bs, hs⟩ := solo_of_steps h
  exact ⟨ms, bs, hs, a, ha⟩

section
variable {β : Type} {q : β → Proc W α} {s s' : W.State} {inbox : List W.Msg}
  {streams : List W.Stream} {log : List (Traffic W.Msg W.Stream)} {F : End W α}

/-- A step that an end can take is on its way to returning. -/
theorem Ends.next {e e' F : End W α} {ms : List W.Msg} {bs : List W.Stream} (h : Ends e F)
    (hn : e.next = some (e', ms, bs)) : Ends e' F := by
  obtain ⟨hs, a, ha⟩ := h
  refine ⟨?_, a, ha⟩
  rcases hs.cases_head with rfl | ⟨e₁, ⟨ms', bs', hn'⟩, hs⟩
  · rw [End.next_done ha] at hn
    cases hn
  · rw [hn] at hn'
    cases hn'
    exact hs

/-- An end that is stuck has returned. -/
theorem Ends.stuck {e F : End W α} (h : Ends e F) (hn : e.next = none) : e = F := by
  rcases h.1.cases_head with rfl | ⟨e₁, ⟨ms', bs', hn'⟩, -⟩
  · rfl
  · rw [hn] at hn'
    cases hn'

theorem ends_tell {q : Unit → Proc W α} {m : W.Msg}
    (h : Ends ⟨.tell m >>= q, s, inbox, streams, log⟩ F) :
    Ends ⟨q (), s, inbox, streams, log ++ [.sent m]⟩ F :=
  h.next rfl

theorem ends_tellStream {q : Unit → Proc W α} {b : W.Stream}
    (h : Ends ⟨.tellStream b >>= q, s, inbox, streams, log⟩ F) :
    Ends ⟨q (), s, inbox, streams, log ++ [.sentStream b]⟩ F :=
  h.next rfl

theorem ends_hear {q : W.Msg → Proc W α}
    (h : Ends ⟨.hear >>= q, s, inbox, streams, log⟩ F) :
    ∃ m rest, inbox = m :: rest ∧ Ends ⟨q m, s, rest, streams, log ++ [.received m]⟩ F := by
  cases inbox with
  | nil =>
    obtain ⟨a, ha⟩ := h.2
    rw [← h.stuck rfl] at ha
    cases ha
  | cons m rest => exact ⟨m, rest, rfl, h.next rfl⟩

theorem ends_hearStream {q : W.Stream → Proc W α}
    (h : Ends ⟨.hearStream >>= q, s, inbox, streams, log⟩ F) :
    ∃ b rest, streams = b :: rest ∧
      Ends ⟨q b, s, inbox, rest, log ++ [.receivedStream b]⟩ F := by
  cases streams with
  | nil =>
    obtain ⟨a, ha⟩ := h.2
    rw [← h.stuck rfl] at ha
    cases ha
  | cons b rest => exact ⟨b, rest, rfl, h.next rfl⟩

theorem ends_hearWhile {q : W.Acc × W.Msg → Proc W α} {more : W.Acc → W.Msg → Option W.Acc}
    {acc : W.Acc} (h : Ends ⟨.hearWhile acc more >>= q, s, inbox, streams, log⟩ F) :
    ∃ ms m rest acc', inbox = ms ++ m :: rest ∧ ms.foldlM more acc = some acc' ∧
      more acc' m = none ∧
      Ends ⟨q (acc', m), s, rest, streams, log ++ (ms ++ [m]).map .received⟩ F := by
  induction inbox generalizing acc log with
  | nil =>
    obtain ⟨a, ha⟩ := h.2
    rw [← h.stuck rfl] at ha
    cases ha
  | cons m inbox ih =>
    have hn := h.next rfl
    cases hm : more acc m with
    | none =>
      simp only [Proc.bind, hm] at hn
      exact ⟨[], m, inbox, acc, rfl, rfl, hm, hn⟩
    | some acc₁ =>
      simp only [hm] at hn
      obtain ⟨ms, m', rest, acc', rfl, hf, hm', hE⟩ := ih hn
      refine ⟨m :: ms, m', rest, acc', rfl, ?_, hm', ?_⟩
      · rw [List.foldlM_cons, hm]
        exact hf
      · rwa [List.append_assoc] at hE

theorem ends_eval {t : Proc W β} {a : β} (ht : t.eval s = some (.ok a, s'))
    (h : Ends ⟨t >>= q, s, inbox, streams, log⟩ F) : Ends ⟨q a, s', inbox, streams, log⟩ F := by
  induction t generalizing s with
  | done b =>
    simp only [Proc.eval, Option.some.injEq, Prod.mk.injEq, Except.ok.injEq] at ht
    obtain ⟨rfl, rfl⟩ := ht
    exact h
  | call name f k ih => exact ih s ht (h.next rfl)
  | fail => simp [Proc.eval] at ht
  | send | sendStream | recv | gather | recvStream => simp [Proc.eval] at ht

/-- A program that fails does not return. -/
theorem not_ends_of_error {t : Proc W β} {err : W.Err} (ht : t.eval s = some (.error err, s')) :
    ¬ Ends ⟨t >>= q, s, inbox, streams, log⟩ F := by
  intro h
  induction t generalizing s with
  | fail e =>
    obtain ⟨a, ha⟩ := h.2
    rw [← h.stuck rfl] at ha
    cases ha
  | call name f k ih => exact ih s ht (h.next rfl)
  | done => simp [Proc.eval] at ht
  | send | sendStream | recv | gather | recvStream => simp [Proc.eval] at ht

end

end Duplex
