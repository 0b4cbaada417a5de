import Clipse.Lib.Proc
import Mathlib.Logic.Function.Basic

/-!
# Tasks over one state

Programs that only call, taking turns over one shared state. A step is one call of one task
(`Tasks.step`), so a list of tasks' names is an interleaving.

* `advance_attempt`, `advance_read`: the step of a program that begins with a call.
* `Calls P`: every call that the program can make meets `P`.
-/

namespace Proc

variable {W : Wire} {α β : Type}

/-- One call; nothing where the program has ended or waits for a message. -/
def advance : Proc W α → W.State → Proc W α × W.State
  | call _ f k, s => (k s, f s)
  | p, s => (p, s)

/-- The name of the call that comes next. -/
def next : Proc W α → Option W.Call
  | call name _ _ => some name
  | _ => none

def Ended : Proc W α → Prop
  | done _ | fail _ => True
  | _ => False

instance : (p : Proc W α) → Decidable p.Ended
  | done _ | fail _ => .isTrue trivial
  | send .. | sendStream .. | recv .. | gather .. | recvStream .. | call .. => .isFalse id

/-- Every call that the program can make meets `P`, and it does nothing else. -/
def Calls (P : W.Call → (W.State → W.State) → Prop) : Proc W α → Prop
  | done _ | fail _ => True
  | call name f k => P name f ∧ ∀ s, (k s).Calls P
  | _ => False

section
variable (name : W.Call) (k : β → Proc W α) (s : W.State)

theorem advance_read (f : W.State → β) : (read name f >>= k).advance s = (k (f s), s) := rfl

theorem advance_attempt (f : W.State → Except W.Err (β × W.State)) :
    (attempt name f >>= k).advance s =
      match f s with
      | .ok r => (k r.1, r.2)
      | .error e => (fail e, s) := by
  change (Proc.bind (match f s with | .ok r => done r.1 | .error e => fail e) k,
    match f s with | .ok r => r.2 | .error _ => s) = _
  cases f s with
  | ok r => rfl
  | error e => rfl

end

theorem next_of_ended {p : Proc W α} (h : p.Ended) : p.next = none := by
  cases p with
  | done | fail => rfl
  | call | send | sendStream | recv | gather | recvStream => exact h.elim

section
variable {P : W.Call → (W.State → W.State) → Prop}

theorem Calls.bind {p : Proc W β} {q : β → Proc W α} (hp : p.Calls P) (hq : ∀ a, (q a).Calls P) :
    (p >>= q).Calls P := by
  change (p.bind q).Calls P
  induction p with
  | done a => exact hq a
  | fail e => trivial
  | call name f k ih => exact ⟨hp.1, fun s => ih s (hp.2 s)⟩
  | send | sendStream | recv | gather | recvStream => exact hp.elim

theorem calls_read {name : W.Call} {f : W.State → β} (h : P name id) :
    (read name f).Calls P := ⟨h, fun _ => trivial⟩

theorem calls_act {name : W.Call} {f : W.State → β × W.State} (h : P name fun s => (f s).2) :
    (act name f).Calls P := ⟨h, fun _ => trivial⟩

/-- The next step of such a program. -/
theorem Calls.advance {p : Proc W α} (h : p.Calls P) (s : W.State) :
    (p.advance s).1.Calls P ∧
      ((p.advance s).2 = s ∧ p.next = none ∨
        ∃ name f, p.next = some name ∧ P name f ∧ (p.advance s).2 = f s) := by
  cases p with
  | done | fail => exact ⟨trivial, .inl ⟨rfl, rfl⟩⟩
  | call name f k => exact ⟨h.2 s, .inr ⟨name, f, rfl, h.1, rfl⟩⟩
  | send | sendStream | recv | gather | recvStream => exact h.elim

end

end Proc

/-- A shared state, and what is left of each task's program. -/
structure Tasks (W : Wire) (ι α : Type) where
  state : W.State
  programs : ι → Proc W α

namespace Tasks

variable {W : Wire} {ι α : Type} [DecidableEq ι]

def step (t : Tasks W ι α) (i : ι) : Tasks W ι α where
  state := ((t.programs i).advance t.state).2
  programs := Function.update t.programs i ((t.programs i).advance t.state).1

@[simp] theorem programs_step_self (t : Tasks W ι α) (i : ι) :
    (t.step i).programs i = ((t.programs i).advance t.state).1 :=
  Function.update_self i _ t.programs

@[simp] theorem programs_step_of_ne (t : Tasks W ι α) {i j : ι} (h : j ≠ i) :
    (t.step i).programs j = t.programs j := Function.update_of_ne h _ t.programs

end Tasks
