import Clipse.Lib.Duplex

/-!
# One end at every point of its run

`Throughout J Q p s log`: begun in state `s` with the history `log`, the program `p` meets `J` at
every point, whatever it is sent, and where it returns a result `a` it also meets `Q a`. Nothing is
assumed about the peer, and a run that is broken off has met `J` too (`Throughout.solo`).

* `Throughout.bind`: the rule for a sequence of programs.
* `throughout_steady`: programs that only call and keep an invariant.
-/

namespace Duplex

variable {W : Wire} {α β : Type}

/-- What can be said of an end at one point: of its state and its traffic so far. -/
abbrev Point (W : Wire) := W.State → List (Traffic W.Msg W.Stream) → Prop

def Throughout (J : Point W) (Q : α → Point W) : Proc W α → Point W
  | .done a, s, log => J s log ∧ Q a s log
  | .fail _, s, log => J s log
  | .send m k, s, log => J s log ∧ Throughout J Q k s (log ++ [.sent m])
  | .sendStream b k, s, log => J s log ∧ Throughout J Q k s (log ++ [.sentStream b])
  | .recv k, s, log => J s log ∧ ∀ m, Throughout J Q (k m) s (log ++ [.received m])
  | .gather acc more k, s, log =>
    ∀ (ms : List W.Msg) acc', ms.foldlM more acc = some acc' → J s (log ++ ms.map .received) ∧
      ∀ m, more acc' m = none →
        Throughout J Q (k acc' m) s (log ++ ms.map .received ++ [.received m])
  | .recvStream k, s, log => J s log ∧ ∀ b, Throughout J Q (k b) s (log ++ [.receivedStream b])
  | .call _ f k, s, log => J s log ∧ Throughout J Q (k s) (f s) log

variable {J : Point W} {Q Q' : α → Point W} {p : Proc W α} {s : W.State}
  {log : List (Traffic W.Msg W.Stream)}

/-- It holds where the run begins. -/
theorem Throughout.point (h : Throughout J Q p s log) : J s log := by
  cases p with
  | fail => exact h
  | gather acc more k =>
    have hj := (h [] acc rfl).1
    rwa [List.map_nil, List.append_nil] at hj
  | done | send | sendStream | recv | recvStream | call => exact h.1

/-! ## Runs -/

/-- One step of the end. -/
theorem Throughout.next {e e' : End W α} {ms : List W.Msg} {bs : List W.Stream}
    (h : Throughout J Q e.proc e.state e.log) (hn : e.next = some (e', ms, bs)) :
    Throughout J Q e'.proc e'.state e'.log := by
  obtain ⟨proc, state, inbox, streams, log⟩ := e
  cases proc with
  | done | fail => simp [End.next] at hn
  | send | sendStream | call =>
    simp only [End.next, Option.some.injEq, Prod.mk.injEq] at hn
    obtain ⟨rfl, -, -⟩ := hn
    exact h.2
  | recv k =>
    cases inbox with
    | nil => simp [End.next] at hn
    | cons m inbox =>
      simp only [End.next, Option.some.injEq, Prod.mk.injEq] at hn
      obtain ⟨rfl, -, -⟩ := hn
      exact h.2 m
  | recvStream k =>
    cases streams with
    | nil => simp [End.next] at hn
    | cons b streams =>
      simp only [End.next, Option.some.injEq, Prod.mk.injEq] at hn
      obtain ⟨rfl, -, -⟩ := hn
      exact h.2 b
  | gather acc more k =>
    cases inbox with
    | nil => simp [End.next] at hn
    | cons m inbox =>
      simp only [End.next, Option.some.injEq, Prod.mk.injEq] at hn
      obtain ⟨rfl, -, -⟩ := hn
      cases hm : more acc m with
      | none =>
        have hk := (h [] acc rfl).2 m hm
        rwa [List.map_nil, List.append_nil] at hk
      | some acc₁ =>
        -- the loop goes on: what it has received grows at the front
        intro ms acc' hms
        have hf : (m :: ms).foldlM more acc = some acc' := by
          rw [List.foldlM_cons, hm]
          exact hms
        have hk := h (m :: ms) acc' hf
        rwa [List.map_cons, List.append_cons] at hk

/-- **Every point of a run meets it**, whatever the peer has sent so far. -/
theorem Throughout.solo {e e' : End W α} (h : Throughout J Q e.proc e.state e.log)
    (hs : Solo e e') : Throughout J Q e'.proc e'.state e'.log := by
  induction hs with
  | refl => exact h
  | tail _ hs ih =>
    obtain ⟨ms, bs, hn⟩ := hs
    exact ih.next hn

/-! ## Programs -/

/-- **A sequence** meets it when the second program does wherever the first may end. -/
theorem Throughout.bind {p : Proc W β} {q : β → Proc W α} {P : β → Point W}
    (hp : Throughout J P p s log)
    (hq : ∀ a s log, J s log → P a s log → Throughout J Q (q a) s log) :
    Throughout J Q (p >>= q) s log := by
  change Throughout J Q (p.bind q) s log
  induction p generalizing s log with
  | done a => exact hq a s log hp.1 hp.2
  | fail e => exact hp
  | send m k ih | sendStream b k ih => exact ⟨hp.1, ih hp.2⟩
  | recv k ih | recvStream k ih => exact ⟨hp.1, fun x => ih x (hp.2 x)⟩
  | gather acc more k ih =>
    exact fun ms acc' hms => ⟨(hp ms acc' hms).1, fun m hm => ih acc' m ((hp ms acc' hms).2 m hm)⟩
  | call name f k ih => exact ⟨hp.1, ih s hp.2⟩

theorem Throughout.mono (h : Throughout J Q p s log)
    (hQ : ∀ a s log, Q a s log → Q' a s log) : Throughout J Q' p s log := by
  rw [← bind_pure p]
  exact h.bind fun a s log hj ha => ⟨hj, hQ a s log ha⟩

theorem throughout_tell {q : Unit → Proc W α} {m : W.Msg} (hj : J s log)
    (hq : Throughout J Q (q ()) s (log ++ [.sent m])) :
    Throughout J Q (Proc.tell m >>= q) s log := ⟨hj, hq⟩

theorem throughout_tellStream {q : Unit → Proc W α} {b : W.Stream} (hj : J s log)
    (hq : Throughout J Q (q ()) s (log ++ [.sentStream b])) :
    Throughout J Q (Proc.tellStream b >>= q) s log := ⟨hj, hq⟩

theorem throughout_hear {q : W.Msg → Proc W α} (hj : J s log)
    (hq : ∀ m, Throughout J Q (q m) s (log ++ [.received m])) :
    Throughout J Q (Proc.hear >>= q) s log := ⟨hj, hq⟩

theorem throughout_hearStream {q : W.Stream → Proc W α} (hj : J s log)
    (hq : ∀ b, Throughout J Q (q b) s (log ++ [.receivedStream b])) :
    Throughout J Q (Proc.hearStream >>= q) s log := ⟨hj, hq⟩

theorem throughout_hearWhile {q : W.Acc × W.Msg → Proc W α} {acc : W.Acc}
    {more : W.Acc → W.Msg → Option W.Acc}
    (h : ∀ (ms : List W.Msg) acc', ms.foldlM more acc = some acc' → J s (log ++ ms.map .received) ∧
      ∀ m, more acc' m = none →
        Throughout J Q (q (acc', m)) s (log ++ ms.map .received ++ [.received m])) :
    Throughout J Q (Proc.hearWhile acc more >>= q) s log := h

theorem throughout_read {q : β → Proc W α} {name : W.Call} {f : W.State → β} (hj : J s log)
    (hq : Throughout J Q (q (f s)) s log) : Throughout J Q (Proc.read name f >>= q) s log :=
  ⟨hj, hq⟩

theorem throughout_act {q : β → Proc W α} {name : W.Call} {f : W.State → β × W.State}
    (hj : J s log) (hq : Throughout J Q (q (f s).1) (f s).2 log) :
    Throughout J Q (Proc.act name f >>= q) s log := ⟨hj, hq⟩

theorem throughout_attempt {q : β → Proc W α} {name : W.Call}
    {f : W.State → Except W.Err (β × W.State)} (hj : J s log)
    (hq : ∀ b s', f s = .ok (b, s') → Throughout J Q (q b) s' log) :
    Throughout J Q (Proc.attempt name f >>= q) s log := by
  refine ⟨hj, ?_⟩
  dsimp only
  cases hf : f s with
  | error e => exact hj
  | ok r => exact hq r.1 r.2 hf

/-- The program only calls, and its calls keep `I`. -/
def Steady (I : W.State → Prop) : Proc W α → Prop
  | .done _ | .fail _ => True
  | .call _ f k => ∀ s, I s → I (f s) ∧ Steady I (k s)
  | _ => False

theorem throughout_steady {I : W.State → Prop} (h : Steady I p) (hi : I s)
    (hJ : ∀ s, I s → J s log) : Throughout J (fun _ s' log' => I s' ∧ log' = log) p s log := by
  induction p generalizing s with
  | done a => exact ⟨hJ s hi, hi, rfl⟩
  | fail e => exact hJ s hi
  | call name f k ih => exact ⟨hJ s hi, ih s (h s hi).2 (h s hi).1⟩
  | send | sendStream | recv | gather | recvStream => exact h.elim

theorem Steady.bind {I : W.State → Prop} {p : Proc W β} {q : β → Proc W α} (hp : Steady I p)
    (hq : ∀ a, Steady I (q a)) : Steady I (p >>= q) := by
  change Steady I (p.bind q)
  induction p with
  | done a => exact hq a
  | fail e => trivial
  | call name f k ih => exact fun s hi => ⟨(hp s hi).1, ih s (hp s hi).2⟩
  | send | sendStream | recv | gather | recvStream => exact hp.elim

theorem steady_act {I : W.State → Prop} {name : W.Call} {f : W.State → α × W.State}
    (h : ∀ s, I s → I (f s).2) : Steady I (Proc.act name f) := fun s hi => ⟨h s hi, trivial⟩

theorem steady_read {I : W.State → Prop} {name : W.Call} {f : W.State → α} :
    Steady I (Proc.read name f) := fun _ hi => ⟨hi, trivial⟩

theorem steady_attempt {I : W.State → Prop} {name : W.Call}
    {f : W.State → Except W.Err (α × W.State)}
    (h : ∀ s a s', I s → f s = .ok (a, s') → I s') : Steady I (Proc.attempt name f) := by
  intro s hi
  dsimp only
  cases hf : f s with
  | error e => exact ⟨hi, trivial⟩
  | ok r => exact ⟨h s r.1 r.2 hi hf, trivial⟩

end Duplex
