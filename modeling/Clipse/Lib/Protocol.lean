import Clipse.Lib.Duplex

/-!
# Rules for the ends of a link

`Obeys R Q p x`: started in phase `x`, the program `p` sends only what the rules `R` allow, is ready
for everything that they let its peer send, keeps the invariant of `R` in each of its calls, and
ends in a phase with a result for which `Q` holds. Nothing is assumed about the state between two
calls but the invariant, so other tasks may change it at any time (`Busy`).

* `Obeys.bind`: the rules for a sequence of programs.
* `kept`: in a run of two ends that obey rules without phases the invariant holds throughout;
  `kept_alone`: so it does of one end if it may be sent anything.
* `not_deadlocked`: two ends that obey the two sides of a half-duplex protocol never wait for each
  other.
* `in_order`: they read what they are sent in the order in which it was sent, over both channels;
  for this an end may also wait in a phase of its own (`laxRules`).
-/

namespace Duplex

/-- What travels in one direction of a link. -/
inductive Item (M B : Type) where
  | msg (m : M)
  | stream (b : B)

namespace Traffic

variable {M B : Type}

/-- What was sent, in order. -/
def sentItems (log : List (Traffic M B)) : List (Item M B) :=
  log.filterMap fun
    | sent m => some (.msg m)
    | sentStream b => some (.stream b)
    | _ => none

/-- What was received, in order. -/
def receivedItems (log : List (Traffic M B)) : List (Item M B) :=
  log.filterMap fun
    | received m => some (.msg m)
    | receivedStream b => some (.stream b)
    | _ => none

theorem sentItems_append (log log' : List (Traffic M B)) :
    sentItems (log ++ log') = sentItems log ++ sentItems log' := List.filterMap_append

theorem receivedItems_append (log log' : List (Traffic M B)) :
    receivedItems (log ++ log') = receivedItems log ++ receivedItems log' := List.filterMap_append

end Traffic

namespace Item

variable {M B : Type}

def msgs (is : List (Item M B)) : List M :=
  is.filterMap fun
    | msg m => some m
    | stream _ => none

def byteStreams (is : List (Item M B)) : List B :=
  is.filterMap fun
    | msg _ => none
    | stream b => some b

theorem msgs_append (is js : List (Item M B)) : msgs (is ++ js) = msgs is ++ msgs js :=
  List.filterMap_append

theorem byteStreams_append (is js : List (Item M B)) :
    byteStreams (is ++ js) = byteStreams is ++ byteStreams js := List.filterMap_append

/-- Items that bring nothing. -/
theorem eq_nil {is : List (Item M B)} (hm : msgs is = []) (hb : byteStreams is = []) : is = [] := by
  cases is with
  | nil => rfl
  | cons i is => cases i with
    | msg m => cases hm
    | stream b => cases hb

theorem eq_msg {is : List (Item M B)} {m : M} (hm : msgs is = [m]) (hb : byteStreams is = []) :
    is = [.msg m] := by
  cases is with
  | nil => cases hm
  | cons i is => cases i with
    | msg m' =>
      obtain ⟨rfl, hm'⟩ := List.cons.inj hm
      have hnil : is = [] := eq_nil hm' hb
      rw [hnil]
    | stream b => cases hb

theorem eq_stream {is : List (Item M B)} {b : B} (hm : msgs is = []) (hb : byteStreams is = [b]) :
    is = [.stream b] := by
  cases is with
  | nil => cases hb
  | cons i is => cases i with
    | msg m => cases hm
    | stream b' =>
      obtain ⟨rfl, hb'⟩ := List.cons.inj hb
      have hnil : is = [] := eq_nil hm hb'
      rw [hnil]

end Item

/-- Rules of conduct, for programs that go through phases of type `σ`. -/
structure Rules (W : Wire) (σ : Type) where
  send : σ → Item W.Msg W.Stream → σ → Prop
  recv : σ → Item W.Msg W.Stream → σ → Prop
  /-- Phases in which a message is awaited. -/
  awaitsMsg : σ → Prop
  /-- Phases in which a stream is awaited. -/
  awaitsStream : σ → Prop
  inv : W.State → Prop
  /-- What a call may rely on. -/
  ok : W.Call → W.State → Prop

section
variable {W : Wire} {σ α β : Type}

def Obeys (R : Rules W σ) (Q : σ → α → Prop) : Proc W α → σ → Prop
  | .done a, x => Q x a
  | .fail _, _ => True
  | .send m k, x => ∃ y, R.send x (.msg m) y ∧ Obeys R Q k y
  | .sendStream b k, x => ∃ y, R.send x (.stream b) y ∧ Obeys R Q k y
  | .recv k, x => R.awaitsMsg x ∧ ∀ m y, R.recv x (.msg m) y → Obeys R Q (k m) y
  | .gather _ more k, x => R.awaitsMsg x ∧ ∀ acc m y, R.recv x (.msg m) y →
      ((more acc m).isSome → y = x) ∧ (more acc m = none → Obeys R Q (k acc m) y)
  | .recvStream k, x => R.awaitsStream x ∧ ∀ b y, R.recv x (.stream b) y → Obeys R Q (k b) y
  | .call name f k, x => ∀ s, R.inv s → R.ok name s → R.inv (f s) ∧ Obeys R Q (k s) x

variable {R : Rules W σ} {Q Q' : σ → α → Prop} {x : σ}

/-! ## Programs -/

/-- **A sequence obeys** when the second program obeys wherever the first may end. -/
theorem Obeys.bind {p : Proc W β} {q : β → Proc W α} {P : σ → β → Prop} (hp : Obeys R P p x)
    (hq : ∀ y a, P y a → Obeys R Q (q a) y) : Obeys R Q (p >>= q) x := by
  change Obeys R Q (p.bind q) x
  induction p generalizing x with
  | done a => exact hq x a hp
  | fail e => trivial
  | send m k ih =>
    obtain ⟨y, hs, hk⟩ := hp
    exact ⟨y, hs, ih hk⟩
  | sendStream b k ih =>
    obtain ⟨y, hs, hk⟩ := hp
    exact ⟨y, hs, ih hk⟩
  | recv k ih => exact ⟨hp.1, fun m y hr => ih m (hp.2 m y hr)⟩
  | gather acc more k ih =>
    exact ⟨hp.1, fun acc m y hr => ⟨(hp.2 acc m y hr).1, fun hn => ih acc m ((hp.2 acc m y hr).2 hn)⟩⟩
  | recvStream k ih => exact ⟨hp.1, fun b y hr => ih b (hp.2 b y hr)⟩
  | call name f k ih => exact fun s hi hok => ⟨(hp s hi hok).1, ih s (hp s hi hok).2⟩

theorem Obeys.mono {p : Proc W α} (hp : Obeys R Q p x) (h : ∀ y a, Q y a → Q' y a) :
    Obeys R Q' p x := by
  rw [← bind_pure p]
  exact hp.bind h

theorem obeys_act {name : W.Call} {f : W.State → α × W.State}
    (h : ∀ s, R.inv s → R.ok name s → R.inv (f s).2 ∧ Q x (f s).1) :
    Obeys R Q (Proc.act name f) x := h

theorem obeys_read {name : W.Call} {f : W.State → α}
    (h : ∀ s, R.inv s → R.ok name s → Q x (f s)) : Obeys R Q (Proc.read name f) x :=
  fun s hi hok => ⟨hi, h s hi hok⟩

theorem obeys_attempt {name : W.Call} {f : W.State → Except W.Err (α × W.State)}
    (h : ∀ s a s', R.inv s → R.ok name s → f s = .ok (a, s') → R.inv s' ∧ Q x a) :
    Obeys R Q (Proc.attempt name f) x := by
  intro s hi hok
  dsimp only
  cases hf : f s with
  | error e => exact ⟨hi, trivial⟩
  | ok r => exact h s r.1 r.2 hi hok hf

theorem obeys_tell {q : Unit → Proc W α} {m : W.Msg} {y : σ} (hs : R.send x (.msg m) y)
    (hq : Obeys R Q (q ()) y) : Obeys R Q (Proc.tell m >>= q) x := ⟨y, hs, hq⟩

theorem obeys_tellStream {q : Unit → Proc W α} {b : W.Stream} {y : σ}
    (hs : R.send x (.stream b) y) (hq : Obeys R Q (q ()) y) :
    Obeys R Q (Proc.tellStream b >>= q) x := ⟨y, hs, hq⟩

theorem obeys_hear {q : W.Msg → Proc W α} (hw : R.awaitsMsg x)
    (hq : ∀ m y, R.recv x (.msg m) y → Obeys R Q (q m) y) : Obeys R Q (Proc.hear >>= q) x :=
  ⟨hw, hq⟩

theorem obeys_hearStream {q : W.Stream → Proc W α} (hw : R.awaitsStream x)
    (hq : ∀ b y, R.recv x (.stream b) y → Obeys R Q (q b) y) :
    Obeys R Q (Proc.hearStream >>= q) x := ⟨hw, hq⟩

theorem obeys_hearWhile {q : W.Acc × W.Msg → Proc W α} {acc : W.Acc}
    {more : W.Acc → W.Msg → Option W.Acc} (hw : R.awaitsMsg x)
    (hmore : ∀ acc m y, R.recv x (.msg m) y → (more acc m).isSome → y = x)
    (hq : ∀ acc m y, R.recv x (.msg m) y → more acc m = none → Obeys R Q (q (acc, m)) y) :
    Obeys R Q (Proc.hearWhile acc more >>= q) x :=
  ⟨hw, fun acc m y hr => ⟨hmore acc m y hr, hq acc m y hr⟩⟩

/-! ## Steps -/

/-- The traffic of a step: what it puts on the link, and what it takes from what was in flight. -/
theorem End.next_items {e e' : End W α} {ms : List W.Msg} {bs : List W.Stream}
    (h : e.next = some (e', ms, bs)) :
    ∃ got, Traffic.sentItems e'.log =
        Traffic.sentItems e.log ++ (ms.map .msg ++ bs.map .stream) ∧
      Traffic.receivedItems e'.log = Traffic.receivedItems e.log ++ got ∧
      e.inbox = Item.msgs got ++ e'.inbox ∧ e.streams = Item.byteStreams got ++ e'.streams := by
  obtain ⟨proc, state, inbox, streams, log⟩ := e
  cases proc with
  | done | fail => simp [End.next] at h
  | send m k =>
    cases h
    exact ⟨[], Traffic.sentItems_append _ _, Traffic.receivedItems_append _ _, rfl, rfl⟩
  | sendStream b k =>
    cases h
    exact ⟨[], Traffic.sentItems_append _ _, Traffic.receivedItems_append _ _, rfl, rfl⟩
  | call name f k =>
    cases h
    exact ⟨[], (List.append_nil _).symm, (List.append_nil _).symm, rfl, rfl⟩
  | recv | gather =>
    cases inbox with
    | nil => simp [End.next] at h
    | cons m inbox =>
      cases h
      exact ⟨[.msg m], Traffic.sentItems_append _ _, Traffic.receivedItems_append _ _, rfl, rfl⟩
  | recvStream k =>
    cases streams with
    | nil => simp [End.next] at h
    | cons b streams =>
      cases h
      exact ⟨[.stream b], Traffic.sentItems_append _ _, Traffic.receivedItems_append _ _, rfl, rfl⟩

theorem Traffic.sentMsgs_eq {M B : Type} (log : List (Traffic M B)) :
    sentMsgs log = Item.msgs (sentItems log) := by
  induction log with
  | nil => rfl
  | cons t log ih =>
    cases t with
    | sent m => exact congrArg (m :: ·) ih
    | received | sentStream | receivedStream => exact ih

/-- The messages that a step sends. -/
theorem End.next_sent {e e' : End W α} {ms : List W.Msg} {bs : List W.Stream}
    (h : e.next = some (e', ms, bs)) : e'.sent = e.sent ++ ms := by
  obtain ⟨-, hsent, -⟩ := End.next_items h
  have hms : Item.msgs (ms.map (Item.msg (B := W.Stream))) = ms :=
    (List.filterMap_map ..).trans (List.filterMap_some ..)
  have hbs : Item.msgs (bs.map (Item.stream (M := W.Msg))) = [] := by
    simp [Item.msgs, List.filterMap_map]
  unfold End.sent
  rw [Traffic.sentMsgs_eq, hsent, Item.msgs_append, Item.msgs_append, hms, hbs, List.append_nil,
    Traffic.sentMsgs_eq]

/-- The next call of the end can rely on what it needs. -/
def End.Fine (ok : W.Call → W.State → Prop) (e : End W α) : Prop :=
  match e.proc with
  | .call name _ _ => ok name e.state
  | _ => True

/-- What an end that obeys does in a step. -/
inductive Conduct (R : Rules W σ) (Q : σ → α → Prop) (x : σ) (e e' : End W α) :
    List W.Msg → List W.Stream → Prop where
  | sends {m : W.Msg} {y : σ} (hs : R.send x (.msg m) y) (ho : Obeys R Q e'.proc y)
      (hstate : e'.state = e.state) (hin : e'.inbox = e.inbox) (hst : e'.streams = e.streams) :
      Conduct R Q x e e' [m] []
  | sendsStream {b : W.Stream} {y : σ} (hs : R.send x (.stream b) y) (ho : Obeys R Q e'.proc y)
      (hstate : e'.state = e.state) (hin : e'.inbox = e.inbox) (hst : e'.streams = e.streams) :
      Conduct R Q x e e' [] [b]
  | hears {m : W.Msg} (hw : R.awaitsMsg x) (ho : ∀ y, R.recv x (.msg m) y → Obeys R Q e'.proc y)
      (hstate : e'.state = e.state) (hin : e.inbox = m :: e'.inbox) (hst : e'.streams = e.streams) :
      Conduct R Q x e e' [] []
  | hearsStream {b : W.Stream} (hw : R.awaitsStream x)
      (ho : ∀ y, R.recv x (.stream b) y → Obeys R Q e'.proc y) (hstate : e'.state = e.state)
      (hin : e'.inbox = e.inbox) (hst : e.streams = b :: e'.streams) : Conduct R Q x e e' [] []
  | calls (ho : Obeys R Q e'.proc x) (hi : R.inv e'.state) (hin : e'.inbox = e.inbox)
      (hst : e'.streams = e.streams) : Conduct R Q x e e' [] []

/-- **One step of an end that obeys.** -/
theorem Obeys.next {e e' : End W α} {ms : List W.Msg} {bs : List W.Stream}
    (h : Obeys R Q e.proc x) (hi : R.inv e.state) (hok : e.Fine R.ok)
    (hn : e.next = some (e', ms, bs)) : Conduct R Q x e e' ms bs := by
  obtain ⟨proc, state, inbox, streams, log⟩ := e
  cases proc with
  | done | fail => simp [End.next] at hn
  | send m k =>
    simp only [End.next, Option.some.injEq, Prod.mk.injEq] at hn
    obtain ⟨rfl, rfl, rfl⟩ := hn
    obtain ⟨y, hs, hk⟩ := h
    exact .sends hs hk rfl rfl rfl
  | sendStream b k =>
    simp only [End.next, Option.some.injEq, Prod.mk.injEq] at hn
    obtain ⟨rfl, rfl, rfl⟩ := hn
    obtain ⟨y, hs, hk⟩ := h
    exact .sendsStream hs hk rfl rfl rfl
  | recv k =>
    cases inbox with
    | nil => simp [End.next] at hn
    | cons m inbox =>
      simp only [End.next, Option.some.injEq, Prod.mk.injEq] at hn
      obtain ⟨rfl, rfl, rfl⟩ := hn
      exact .hears h.1 (h.2 m) rfl rfl rfl
  | gather acc more k =>
    cases inbox with
    | nil => simp [End.next] at hn
    | cons m inbox =>
      simp only [End.next, Option.some.injEq, Prod.mk.injEq] at hn
      obtain ⟨rfl, rfl, rfl⟩ := hn
      refine .hears h.1 (fun y hr => ?_) rfl rfl rfl
      obtain ⟨hstay, hgo⟩ := h.2 acc m y hr
      cases hm : more acc m with
      | none => exact hgo hm
      | some acc' =>
        rw [hm] at hstay
        rw [hstay rfl]
        exact h
  | recvStream k =>
    cases streams with
    | nil => simp [End.next] at hn
    | cons b streams =>
      simp only [End.next, Option.some.injEq, Prod.mk.injEq] at hn
      obtain ⟨rfl, rfl, rfl⟩ := hn
      exact .hearsStream h.1 (h.2 b) rfl rfl rfl
  | call name f k =>
    simp only [End.next, Option.some.injEq, Prod.mk.injEq] at hn
    obtain ⟨rfl, rfl, rfl⟩ := hn
    obtain ⟨hi', hk⟩ := h state hi hok
    exact .calls hk hi' rfl rfl

/-! ## Runs among other tasks -/

/-- An end takes a step, with a call that finds what it needs; or another task changes the state of
an end. -/
inductive Busy (ok : W.Call → W.State → Prop) (env : W.State → W.State → Prop) :
    Link W α → Link W α → Prop where
  | left {e p e' p' : End W α} (h : e.step p = some (e', p')) (hok : e.Fine ok) :
      Busy ok env (e, p) (e', p')
  | right {e p e' p' : End W α} (h : p.step e = some (p', e')) (hok : p.Fine ok) :
      Busy ok env (e, p) (e', p')
  | disturbLeft {e p : End W α} {s : W.State} (h : env e.state s) :
      Busy ok env (e, p) ({ e with state := s }, p)
  | disturbRight {e p : End W α} {s : W.State} (h : env p.state s) :
      Busy ok env (e, p) (e, { p with state := s })

abbrev BusyRun (ok : W.Call → W.State → Prop) (env : W.State → W.State → Prop) :
    Link W α → Link W α → Prop := Relation.ReflTransGen (Busy ok env)

theorem End.fine_of {ok : W.Call → W.State → Prop} (hok : ∀ c s, ok c s) (e : End W α) :
    e.Fine ok := by
  unfold End.Fine
  split
  · exact hok _ _
  · trivial

theorem End.fine_true (e : End W α) : e.Fine fun _ _ => True := End.fine_of (fun _ _ => trivial) e

theorem Steps.busy {env : W.State → W.State → Prop} {c c' : Link W α} (h : Steps c c') :
    BusyRun (fun _ _ => True) env c c' := by
  induction h with
  | refl => exact .refl
  | tail _ hs ih =>
    cases hs with
    | left h => exact ih.tail (.left h (End.fine_true _))
    | right h => exact ih.tail (.right h (End.fine_true _))

/-! ## Rules without phases -/

section
variable {R : Rules W Unit} {Q : Unit → α → Prop}

/-- The end obeys, its state is sound, and so is what is in flight to it. -/
structure Sane (R : Rules W Unit) (Q : Unit → α → Prop) (e : End W α) : Prop where
  obeys : Obeys R Q e.proc ()
  inv : R.inv e.state
  inbox : ∀ m ∈ e.inbox, R.recv () (.msg m) ()
  streams : ∀ b ∈ e.streams, R.recv () (.stream b) ()

theorem Sane.step {e p e' p' : End W α} (hsend : ∀ i, R.send () i () → R.recv () i ())
    (he : Sane R Q e) (hp : Sane R Q p) (hok : e.Fine R.ok) (h : e.step p = some (e', p')) :
    Sane R Q e' ∧ Sane R Q p' := by
  obtain ⟨ms, bs, hn, rfl⟩ := End.step_eq_some.1 h
  have hdeliver : (∀ m ∈ ms, R.recv () (.msg m) ()) → (∀ b ∈ bs, R.recv () (.stream b) ()) →
      Sane R Q (p.deliver ms bs) := by
    intro hms hbs
    refine ⟨hp.obeys, hp.inv, fun m hm => ?_, fun b hb => ?_⟩
    · exact (List.mem_append.1 hm).elim (hp.inbox m) (hms m)
    · exact (List.mem_append.1 hb).elim (hp.streams b) (hbs b)
  cases he.obeys.next he.inv hok hn with
  | sends hs ho hstate hin hst =>
    refine ⟨⟨ho, hstate ▸ he.inv, hin ▸ he.inbox, hst ▸ he.streams⟩, hdeliver ?_ (by simp)⟩
    exact fun m hm => List.mem_singleton.1 hm ▸ hsend _ hs
  | sendsStream hs ho hstate hin hst =>
    refine ⟨⟨ho, hstate ▸ he.inv, hin ▸ he.inbox, hst ▸ he.streams⟩, hdeliver (by simp) ?_⟩
    exact fun b hb => List.mem_singleton.1 hb ▸ hsend _ hs
  | hears hw ho hstate hin hst =>
    have hall := he.inbox
    rw [hin] at hall
    refine ⟨⟨ho () (hall _ List.mem_cons_self), hstate ▸ he.inv,
      fun m hm => hall m (List.mem_cons_of_mem _ hm), hst ▸ he.streams⟩, hdeliver (by simp) (by simp)⟩
  | hearsStream hw ho hstate hin hst =>
    have hall := he.streams
    rw [hst] at hall
    refine ⟨⟨ho () (hall _ List.mem_cons_self), hstate ▸ he.inv, hin ▸ he.inbox,
      fun b hb => hall b (List.mem_cons_of_mem _ hb)⟩, hdeliver (by simp) (by simp)⟩
  | calls ho hi hin hst =>
    exact ⟨⟨ho, hi, hin ▸ he.inbox, hst ▸ he.streams⟩, hdeliver (by simp) (by simp)⟩

/-- **The invariant holds throughout a run** of two ends that obey the same rules. -/
theorem kept {env : W.State → W.State → Prop} {c c' : Link W α}
    (hsend : ∀ i, R.send () i () → R.recv () i ())
    (henv : ∀ s s', env s s' → R.inv s → R.inv s') (h : BusyRun R.ok env c c')
    (hl : Sane R Q c.1) (hr : Sane R Q c.2) : Sane R Q c'.1 ∧ Sane R Q c'.2 := by
  induction h with
  | refl => exact ⟨hl, hr⟩
  | tail _ hs ih =>
    obtain ⟨hl, hr⟩ := ih
    cases hs with
    | left h hok => exact hl.step hsend hr hok h
    | right h hok => exact (hr.step hsend hl hok h).symm
    | disturbLeft h => exact ⟨⟨hl.obeys, henv _ _ h hl.inv, hl.inbox, hl.streams⟩, hr⟩
    | disturbRight h => exact ⟨hl, ⟨hr.obeys, henv _ _ h hr.inv, hr.inbox, hr.streams⟩⟩

/-- **An end keeps its invariant against any peer**, if nothing that it may be sent breaks the
rules. -/
theorem kept_alone {e : End W α} (hrecv : ∀ i, R.recv () i ()) (hok : ∀ c s, R.ok c s)
    (ho : Obeys R Q e.proc ()) (hi : R.inv e.state) {p : End W α} {c : Link W α}
    (h : Steps (e, p) c) : R.inv c.1.state := by
  have hboth : Obeys R Q c.1.proc () ∧ R.inv c.1.state := by
    induction h with
    | refl => exact ⟨ho, hi⟩
    | tail _ hs ih =>
      obtain ⟨ho, hi⟩ := ih
      cases hs with
      | left h =>
        obtain ⟨ms, bs, hn, -⟩ := End.step_eq_some.1 h
        cases ho.next hi (End.fine_of hok _) hn with
        | sends _ ho hstate | sendsStream _ ho hstate => exact ⟨ho, hstate ▸ hi⟩
        | hears _ ho hstate | hearsStream _ ho hstate => exact ⟨ho () (hrecv _), hstate ▸ hi⟩
        | calls ho hi => exact ⟨ho, hi⟩
      | right h =>
        obtain ⟨ms, bs, -, rfl⟩ := End.step_eq_some.1 h
        exact ⟨ho, hi⟩
  exact hboth.2

end

end

/-! ## Half-duplex protocols -/

/-- In each phase one side sends: one item, of one kind, which leads to the next phase. -/
structure Protocol (W : Wire) (σ : Type) where
  /-- Whether the left end sends. -/
  left : σ → Bool
  /-- Whether the item of a phase is a stream. -/
  streams : σ → Bool
  next : σ → Item W.Msg W.Stream → Option σ
  next_kind : ∀ {x i y}, next x i = some y →
    streams x = match i with | .msg _ => false | .stream _ => true

namespace Protocol

variable {W : Wire} {σ α : Type} {P : Protocol W σ} {Q : σ → α → Prop}
  {ok : W.Call → W.State → Prop} {side : Bool}

/-- The rules for one side. -/
def rules (P : Protocol W σ) (ok : W.Call → W.State → Prop) (side : Bool) : Rules W σ where
  send x i y := P.left x = side ∧ P.next x i = some y
  recv x i y := P.next x i = some y
  awaitsMsg x := P.left x = !side ∧ P.streams x = false
  awaitsStream x := P.left x = !side ∧ P.streams x = true
  inv _ := True
  ok := ok

/-- The items lead from one phase to another, all sent by one side. -/
def Walk (P : Protocol W σ) (side : Bool) : σ → List (Item W.Msg W.Stream) → σ → Prop
  | x, [], z => x = z
  | x, i :: is, z => P.left x = side ∧ ∃ y, P.next x i = some y ∧ P.Walk side y is z

theorem Walk.append {x y z : σ} {is : List (Item W.Msg W.Stream)} {i : Item W.Msg W.Stream}
    (h : P.Walk side x is y) (hl : P.left y = side) (hn : P.next y i = some z) :
    P.Walk side x (is ++ [i]) z := by
  induction is generalizing x with
  | nil =>
    obtain rfl : x = y := h
    exact ⟨hl, z, hn, rfl⟩
  | cons j is ih =>
    obtain ⟨hl', w, hn', hw⟩ := h
    exact ⟨hl', w, hn', ih hw⟩

/-- Rules under which one side sends and receives as the protocol says, but may wait in any phase
of its own. -/
def laxRules (P : Protocol W σ) (side : Bool) : Rules W σ where
  send x i y := P.left x = side ∧ P.next x i = some y
  recv x i y := P.left x = (!side) ∧ P.next x i = some y
  awaitsMsg x := P.left x = (!side) → P.streams x = false
  awaitsStream x := P.left x = (!side) → P.streams x = true
  inv _ := True
  ok _ _ := True

/-- An end that obeys the rules sends in its own phases, as the protocol says, and hears out its
peer in the others. -/
structure Speaks (P : Protocol W σ) (R : Rules W σ) (side : Bool) : Prop where
  send : ∀ {x i y}, R.send x i y → P.left x = side ∧ P.next x i = some y
  recv : ∀ {x i y}, P.left x = (!side) → P.next x i = some y → R.recv x i y
  awaitsMsg : ∀ {x}, R.awaitsMsg x → P.left x = (!side) → P.streams x = false
  awaitsStream : ∀ {x}, R.awaitsStream x → P.left x = (!side) → P.streams x = true
  inv : ∀ s, R.inv s

theorem speaks_rules (P : Protocol W σ) (ok : W.Call → W.State → Prop) (side : Bool) :
    P.Speaks (P.rules ok side) side :=
  ⟨fun h => h, fun _ h => h, fun h _ => h.2, fun h _ => h.2, fun _ => trivial⟩

theorem speaks_laxRules (P : Protocol W σ) (side : Bool) : P.Speaks (P.laxRules side) side :=
  ⟨fun h => h, fun h h' => ⟨h, h'⟩, fun h => h, fun h => h, fun _ => trivial⟩

/-- The rules let an end of the given side do what the protocol says. -/
structure Allows (P : Protocol W σ) (R : Rules W σ) (side : Bool) : Prop where
  send : ∀ {x i y}, P.left x = side → P.next x i = some y → R.send x i y
  recv : ∀ {x i y}, R.recv x i y → P.next x i = some y
  awaitsMsg : ∀ {x}, P.left x = (!side) → P.streams x = false → R.awaitsMsg x
  awaitsStream : ∀ {x}, P.left x = (!side) → P.streams x = true → R.awaitsStream x
  inv : ∀ s, R.inv s

theorem allows_rules (P : Protocol W σ) (ok : W.Call → W.State → Prop) (side : Bool) :
    P.Allows (P.rules ok side) side :=
  ⟨fun h h' => ⟨h, h'⟩, fun h => h, fun h h' => ⟨h, h'⟩, fun h h' => ⟨h, h'⟩, fun _ => trivial⟩

theorem allows_laxRules (P : Protocol W σ) (side : Bool) : P.Allows (P.laxRules side) side :=
  ⟨fun h h' => ⟨h, h'⟩, fun h => h.2, fun _ h _ => h, fun _ h _ => h, fun _ => trivial⟩

/-- End `e`, on the given side, is ahead of `p` by the items `is`, which are in flight to `p`. -/
def AheadBy (P : Protocol W σ) (R : Bool → Rules W σ) (Q : σ → α → Prop) (side : Bool)
    (is : List (Item W.Msg W.Stream)) (e p : End W α) : Prop :=
  e.inbox = [] ∧ e.streams = [] ∧ ∃ x y, Obeys (R side) Q e.proc x ∧
    Obeys (R (!side)) Q p.proc y ∧ P.Walk side y is x ∧ p.inbox = Item.msgs is ∧
    p.streams = Item.byteStreams is

section
variable {R : Bool → Rules W σ} {is : List (Item W.Msg W.Stream)}

/-- The end that is ahead takes a step: it may send more. -/
theorem AheadBy.step {e p e' p' : End W α} (hR : ∀ side, P.Speaks (R side) side)
    (h : P.AheadBy R Q side is e p) (hok : e.Fine (R side).ok) (hs : e.step p = some (e', p')) :
    ∃ js, P.AheadBy R Q side (is ++ js) e' p' ∧
      Traffic.sentItems e'.log = Traffic.sentItems e.log ++ js ∧
      Traffic.receivedItems e'.log = Traffic.receivedItems e.log ∧ p'.log = p.log := by
  obtain ⟨hin, hst, x, y, he, hp, hw, hpin, hpst⟩ := h
  obtain ⟨ms, bs, hn, rfl⟩ := End.step_eq_some.1 hs
  obtain ⟨got, hsent, hgot, hgm, hgb⟩ := End.next_items hn
  have hnil : got = [] := by
    rw [hin] at hgm
    rw [hst] at hgb
    exact Item.eq_nil (List.append_eq_nil_iff.1 hgm.symm).1 (List.append_eq_nil_iff.1 hgb.symm).1
  rw [hnil, List.append_nil] at hgot
  cases he.next ((hR side).inv _) hok hn with
  | @sends m z hsend ho hstate hin' hst' =>
    obtain ⟨hl, hnext⟩ := (hR side).send hsend
    refine ⟨[.msg m], ⟨hin'.trans hin, hst'.trans hst, z, y, ho, hp, hw.append hl hnext, ?_, ?_⟩,
      hsent, hgot, rfl⟩
    · rw [Item.msgs_append, ← hpin]
      rfl
    · rw [Item.byteStreams_append, ← hpst]
      rfl
  | @sendsStream b z hsend ho hstate hin' hst' =>
    obtain ⟨hl, hnext⟩ := (hR side).send hsend
    refine ⟨[.stream b], ⟨hin'.trans hin, hst'.trans hst, z, y, ho, hp, hw.append hl hnext, ?_, ?_⟩,
      hsent, hgot, rfl⟩
    · rw [Item.msgs_append, ← hpin]
      rfl
    · rw [Item.byteStreams_append, ← hpst]
      rfl
  | hears hw' ho hstate hin' hst' =>
    rw [hin] at hin'
    cases hin'
  | hearsStream hw' ho hstate hin' hst' =>
    rw [hst] at hst'
    cases hst'
  | calls ho hi hin' hst' =>
    refine ⟨[], ?_, hsent, hgot, rfl⟩
    rw [deliver_nil, List.append_nil]
    exact ⟨hin'.trans hin, hst'.trans hst, x, y, ho, hp, hw, hpin, hpst⟩

/-- The end that is behind takes a step: it catches up, or it had and is ahead now. -/
theorem AheadBy.step_behind {e p e' p' : End W α} (hR : ∀ side, P.Speaks (R side) side)
    (h : P.AheadBy R Q side is e p) (hok : p.Fine (R (!side)).ok)
    (hs : p.step e = some (p', e')) :
    (∃ got is', is = got ++ is' ∧ P.AheadBy R Q side is' e' p' ∧
      Traffic.sentItems p'.log = Traffic.sentItems p.log ∧
      Traffic.receivedItems p'.log = Traffic.receivedItems p.log ++ got ∧ e'.log = e.log) ∨
    (is = [] ∧ ∃ js, P.AheadBy R Q (!side) js p' e' ∧
      Traffic.sentItems p'.log = Traffic.sentItems p.log ++ js ∧
      Traffic.receivedItems p'.log = Traffic.receivedItems p.log ∧ e'.log = e.log) := by
  obtain ⟨hin, hst, x, y, he, hp, hw, hpin, hpst⟩ := h
  obtain ⟨ms, bs, hn, rfl⟩ := End.step_eq_some.1 hs
  obtain ⟨got, hsent, hgot, hgm, hgb⟩ := End.next_items hn
  -- an end that is behind waits, so it sends nothing before it has caught up
  have hcaught : P.left y = (!side) → is = [] := by
    intro hl
    cases is with
    | nil => rfl
    | cons i is =>
      obtain ⟨hl', -⟩ := hw
      rw [hl] at hl'
      cases side <;> cases hl'
  -- a step that takes nothing from the link receives nothing
  have hquiet : p'.inbox = p.inbox → p'.streams = p.streams →
      Traffic.receivedItems p'.log = Traffic.receivedItems p.log := by
    intro hin' hst'
    have hnil : got = [] := by
      rw [hin'] at hgm
      rw [hst'] at hgb
      exact Item.eq_nil (List.self_eq_append_left.1 hgm) (List.self_eq_append_left.1 hgb)
    rwa [hnil, List.append_nil] at hgot
  have he' : Obeys (R (!!side)) Q e.proc x := by
    rw [Bool.not_not]
    exact he
  cases hp.next ((hR (!side)).inv _) hok hn with
  | @sends m z hsend ho hstate hin' hst' =>
    obtain ⟨hl, hnext⟩ := (hR (!side)).send hsend
    obtain rfl := hcaught hl
    obtain rfl : y = x := hw
    refine .inr ⟨rfl, [.msg m], ⟨hin'.trans hpin, hst'.trans hpst, z, y, ho, he',
      ⟨hl, z, hnext, rfl⟩, ?_, ?_⟩, hsent, hquiet hin' hst', rfl⟩
    · simp [End.deliver, hin, Item.msgs]
    · simp [End.deliver, hst, Item.byteStreams]
  | @sendsStream b z hsend ho hstate hin' hst' =>
    obtain ⟨hl, hnext⟩ := (hR (!side)).send hsend
    obtain rfl := hcaught hl
    obtain rfl : y = x := hw
    refine .inr ⟨rfl, [.stream b], ⟨hin'.trans hpin, hst'.trans hpst, z, y, ho, he',
      ⟨hl, z, hnext, rfl⟩, ?_, ?_⟩, hsent, hquiet hin' hst', rfl⟩
    · simp [End.deliver, hin, Item.msgs]
    · simp [End.deliver, hst, Item.byteStreams]
  | @hears m hw' ho hstate hin' hst' =>
    cases is with
    | nil =>
      rw [hpin] at hin'
      cases hin'
    | cons i is =>
      obtain ⟨hl, z, hnext, hw⟩ := hw
      have hl' : P.left y = (!!side) := by rwa [Bool.not_not]
      cases i with
      | stream b =>
        have hkind := P.next_kind hnext
        rw [(hR (!side)).awaitsMsg hw' hl'] at hkind
        cases hkind
      | msg m' =>
        rw [hpin] at hin'
        obtain ⟨rfl, hrest⟩ := List.cons.inj hin'
        refine .inl ⟨[.msg m'], is, rfl, ⟨?_, ?_, x, z, he, ho z ((hR (!side)).recv hl' hnext), hw,
          hrest.symm, hst'.trans hpst⟩, ?_, ?_, rfl⟩
        · simp [End.deliver, hin]
        · simp [End.deliver, hst]
        · rw [hsent]
          exact List.append_nil _
        · rw [hgot]
          have hm : Item.msgs got = [m'] := by
            rw [hpin] at hgm
            exact (List.append_left_inj p'.inbox).1 (hgm.symm.trans (congrArg (m' :: ·) hrest))
          have hb : Item.byteStreams got = [] := by
            rw [hst'] at hgb
            exact List.self_eq_append_left.1 hgb
          rw [Item.eq_msg hm hb]
  | @hearsStream b hw' ho hstate hin' hst' =>
    cases is with
    | nil =>
      rw [hpst] at hst'
      cases hst'
    | cons i is =>
      obtain ⟨hl, z, hnext, hw⟩ := hw
      have hl' : P.left y = (!!side) := by rwa [Bool.not_not]
      cases i with
      | msg m =>
        have hkind := P.next_kind hnext
        rw [(hR (!side)).awaitsStream hw' hl'] at hkind
        cases hkind
      | stream b' =>
        rw [hpst] at hst'
        obtain ⟨rfl, hrest⟩ := List.cons.inj hst'
        refine .inl ⟨[.stream b'], is, rfl, ⟨?_, ?_, x, z, he, ho z ((hR (!side)).recv hl' hnext), hw,
          hin'.trans hpin, hrest.symm⟩, ?_, ?_, rfl⟩
        · simp [End.deliver, hin]
        · simp [End.deliver, hst]
        · rw [hsent]
          exact List.append_nil _
        · rw [hgot]
          have hb : Item.byteStreams got = [b'] := by
            rw [hpst] at hgb
            exact (List.append_left_inj p'.streams).1 (hgb.symm.trans (congrArg (b' :: ·) hrest))
          have hm : Item.msgs got = [] := by
            rw [hin'] at hgm
            exact List.self_eq_append_left.1 hgm
          rw [Item.eq_stream hm hb]
  | calls ho hi hin' hst' =>
    refine .inl ⟨[], is, rfl, ⟨?_, ?_, x, y, he, ho, hw, hin'.trans hpin, hst'.trans hpst⟩, ?_, ?_,
      rfl⟩
    · simp [End.deliver, hin]
    · simp [End.deliver, hst]
    · rw [hsent]
      exact List.append_nil _
    · rw [hquiet hin' hst', List.append_nil]

end

/-- End `e`, on the given side, is ahead of `p` by what is in flight to `p`. -/
def Ahead (P : Protocol W σ) (ok : W.Call → W.State → Prop) (Q : σ → α → Prop) (side : Bool)
    (e p : End W α) : Prop := ∃ is, P.AheadBy (P.rules ok) Q side is e p

theorem Ahead.step {e p e' p' : End W α} (h : P.Ahead ok Q side e p) (hok : e.Fine ok)
    (hs : e.step p = some (e', p')) : P.Ahead ok Q side e' p' := by
  obtain ⟨is, h⟩ := h
  obtain ⟨js, h', -⟩ := h.step (P.speaks_rules ok) hok hs
  exact ⟨_, h'⟩

theorem Ahead.step_behind {e p e' p' : End W α} (h : P.Ahead ok Q side e p) (hok : p.Fine ok)
    (hs : p.step e = some (p', e')) : P.Ahead ok Q side e' p' ∨ P.Ahead ok Q (!side) p' e' := by
  obtain ⟨is, h⟩ := h
  rcases h.step_behind (P.speaks_rules ok) hok hs with ⟨-, is', -, h', -⟩ | ⟨-, js, h', -⟩
  · exact .inl ⟨_, h'⟩
  · exact .inr ⟨_, h'⟩

/-- Both ends wait and nothing is in flight. -/
def Deadlocked (c : Link W α) : Prop :=
  c.1.Waiting ∧ c.2.Waiting ∧ c.1.inbox = [] ∧ c.1.streams = [] ∧ c.2.inbox = [] ∧ c.2.streams = []

/-- An end that waits is in a phase in which its peer sends. -/
theorem left_of_waiting {e : End W α} {x : σ} (h : Obeys (P.rules ok side) Q e.proc x)
    (hw : e.Waiting) : P.left x = !side := by
  unfold End.Waiting at hw
  split at hw
  · next hp =>
    rw [hp] at h
    exact h.1.1
  · next hp =>
    rw [hp] at h
    exact h.1.1
  · next hp =>
    rw [hp] at h
    exact h.1.1
  · cases hw

theorem Ahead.not_deadlocked {e p : End W α} (h : P.Ahead ok Q side e p) :
    ¬ (e.Waiting ∧ p.Waiting ∧ p.inbox = [] ∧ p.streams = []) := by
  rintro ⟨hwe, hwp, hin, hst⟩
  obtain ⟨is, -, -, x, y, he, hp, hw, hpin, hpst⟩ := h
  have hnil : is = [] := by
    cases is with
    | nil => rfl
    | cons i is =>
      cases i with
      | msg m =>
        rw [hpin] at hin
        cases hin
      | stream b =>
        rw [hpst] at hst
        cases hst
  subst hnil
  obtain rfl : y = x := hw
  have h₁ := left_of_waiting he hwe
  have h₂ := left_of_waiting hp hwp
  rw [h₁] at h₂
  cases side <;> cases h₂

/-- The phases and the traffic of the two ends fit together. -/
def Aligned (P : Protocol W σ) (ok : W.Call → W.State → Prop) (Q : σ → α → Prop) (c : Link W α) :
    Prop :=
  P.Ahead ok Q true c.1 c.2 ∨ P.Ahead ok Q false c.2 c.1

theorem Aligned.not_deadlocked {c : Link W α} (h : P.Aligned ok Q c) : ¬ Deadlocked c := by
  rintro ⟨hl, hr, hli, hls, hri, hrs⟩
  rcases h with h | h
  · exact h.not_deadlocked ⟨hl, hr, hri, hrs⟩
  · exact h.not_deadlocked ⟨hr, hl, hli, hls⟩

theorem Ahead.disturb {e p : End W α} (h : P.Ahead ok Q side e p) (s s' : W.State) :
    P.Ahead ok Q side { e with state := s } { p with state := s' } := h

theorem Aligned.busy {env : W.State → W.State → Prop} {c c' : Link W α} (h : P.Aligned ok Q c)
    (hs : Busy ok env c c') : P.Aligned ok Q c' := by
  cases hs with
  | left hs hok =>
    rcases h with h | h
    · exact .inl (h.step hok hs)
    · exact (h.step_behind hok hs).symm
  | right hs hok =>
    rcases h with h | h
    · exact h.step_behind hok hs
    · exact .inr (h.step hok hs)
  | disturbLeft _ => exact h.imp (·.disturb _ _) (·.disturb _ _)
  | disturbRight _ => exact h.imp (·.disturb _ _) (·.disturb _ _)

/-- **No deadlock**, whatever other tasks do to the states of the ends. -/
theorem not_deadlocked {env : W.State → W.State → Prop} {p q : Proc W α} {s s' : W.State} {x : σ}
    {c : Link W α} (hl : Obeys (P.rules ok true) Q p x) (hr : Obeys (P.rules ok false) Q q x)
    (h : BusyRun ok env ({ proc := p, state := s }, { proc := q, state := s' }) c) :
    ¬ Deadlocked c := by
  suffices ha : P.Aligned ok Q c from ha.not_deadlocked
  induction h with
  | refl => exact .inl ⟨[], rfl, rfl, x, x, hl, hr, rfl, rfl, rfl⟩
  | tail _ hs ih => exact ih.busy hs

/-! ## Order -/

/-- What `e` has sent is what `p` has received and then what is in flight to `p`. -/
def InOrder (e p : End W α) : Prop :=
  ∃ is, Traffic.sentItems e.log = Traffic.receivedItems p.log ++ is ∧ p.inbox = Item.msgs is ∧
    p.streams = Item.byteStreams is

/-- One end is ahead by what it has sent and its peer has not received. -/
def Orderly (P : Protocol W σ) (Q : σ → α → Prop) (side : Bool) (e p : End W α) : Prop :=
  ∃ is, P.AheadBy P.laxRules Q side is e p ∧
    Traffic.sentItems e.log = Traffic.receivedItems p.log ++ is ∧
    Traffic.sentItems p.log = Traffic.receivedItems e.log

theorem Orderly.inOrder {e p : End W α} (h : P.Orderly Q side e p) : InOrder e p ∧ InOrder p e := by
  obtain ⟨is, ⟨hin, hst, x, y, -, -, -, hpin, hpst⟩, hsent, hsent'⟩ := h
  exact ⟨⟨is, hsent, hpin, hpst⟩, ⟨[], by rw [List.append_nil, hsent'], hin, hst⟩⟩

theorem Orderly.step {e p e' p' : End W α} (h : P.Orderly Q side e p)
    (hs : e.step p = some (e', p')) : P.Orderly Q side e' p' := by
  obtain ⟨is, ha, hsent, hsent'⟩ := h
  obtain ⟨js, ha', hs', hr', hp'⟩ := ha.step P.speaks_laxRules (End.fine_true e) hs
  refine ⟨is ++ js, ha', ?_, ?_⟩
  · rw [hs', hsent, hp', List.append_assoc]
  · rw [hp', hsent', hr']

theorem Orderly.step_behind {e p e' p' : End W α} (h : P.Orderly Q side e p)
    (hs : p.step e = some (p', e')) : P.Orderly Q side e' p' ∨ P.Orderly Q (!side) p' e' := by
  obtain ⟨is, ha, hsent, hsent'⟩ := h
  rcases ha.step_behind P.speaks_laxRules (End.fine_true p) hs with
    ⟨got, is', rfl, ha', hs', hr', he'⟩ | ⟨rfl, js, ha', hs', hr', he'⟩
  · refine .inl ⟨is', ha', ?_, ?_⟩
    · rw [he', hsent, hr', List.append_assoc]
    · rw [hs', hsent', he']
  · refine .inr ⟨js, ha', ?_, ?_⟩
    · rw [hs', hsent', he']
    · rw [he', hsent, hr', List.append_nil]

/-- **The ends read in order**: over both channels, what one has received is the beginning of what
the other has sent, and the rest is in flight. -/
theorem in_order {p q : Proc W α} {s s' : W.State} {x : σ} {c : Link W α}
    (hl : Obeys (P.laxRules true) Q p x) (hr : Obeys (P.laxRules false) Q q x)
    (h : Steps ({ proc := p, state := s }, { proc := q, state := s' }) c) :
    InOrder c.1 c.2 ∧ InOrder c.2 c.1 := by
  suffices ha : P.Orderly Q true c.1 c.2 ∨ P.Orderly Q false c.2 c.1 from
    ha.elim Orderly.inOrder fun ha => ha.inOrder.symm
  induction h with
  | refl => exact .inl ⟨[], ⟨rfl, rfl, x, x, hl, hr, rfl, rfl, rfl⟩, rfl, rfl⟩
  | tail _ hs ih =>
    cases hs with
    | left hs => exact ih.elim (fun h => .inl (h.step hs)) fun h => (h.step_behind hs).symm
    | right hs => exact ih.elim (fun h => h.step_behind hs) fun h => .inr (h.step hs)

end Protocol
end Duplex
