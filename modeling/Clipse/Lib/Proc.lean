import Mathlib.Logic.Basic

/-!
# Processes

`Proc W α`: a program that computes an `α`, fails with an error, and on the way talks to one peer
over two FIFO channels (control messages and byte streams) and calls operations of a shared state.
Each call is atomic and carries its name, so that a statement about a run can speak about it.

* `Proc` is a monad; `fail` ends the program (`?` in Rust).
* `Proc.eval`: what a program does that only calls. `eval_bind` evaluates a sequence.
-/

/-- What the processes of one system exchange and call. -/
structure Wire where
  Msg : Type
  Stream : Type
  State : Type
  /-- What a receiving loop accumulates. -/
  Acc : Type
  Err : Type
  /-- The names of calls. -/
  Call : Type

inductive Proc (W : Wire) (α : Type) where
  | done (a : α)
  | fail (e : W.Err)
  | send (m : W.Msg) (k : Proc W α)
  | sendStream (b : W.Stream) (k : Proc W α)
  | recv (k : W.Msg → Proc W α)
  /-- Receive in a loop: stay while `more` extends the accumulator. -/
  | gather (acc : W.Acc) (more : W.Acc → W.Msg → Option W.Acc) (k : W.Acc → W.Msg → Proc W α)
  | recvStream (k : W.Stream → Proc W α)
  /-- An atomic update of the state; the rest of the program may look at the state before it. -/
  | call (name : W.Call) (f : W.State → W.State) (k : W.State → Proc W α)

namespace Proc

variable {W : Wire} {α β γ : Type}

/-- Sequencing: `q` runs on the result of `p`. -/
def bind : Proc W α → (α → Proc W β) → Proc W β
  | done a, q => q a
  | fail e, _ => fail e
  | send m k, q => send m (k.bind q)
  | sendStream b k, q => sendStream b (k.bind q)
  | recv k, q => recv fun m => (k m).bind q
  | gather acc more k, q => gather acc more fun acc m => (k acc m).bind q
  | recvStream k, q => recvStream fun b => (k b).bind q
  | call name f k, q => call name f fun s => (k s).bind q

instance : Monad (Proc W) where
  pure := done
  bind := bind

theorem bind_done (p : Proc W α) : p.bind done = p := by
  induction p with
  | done | fail => rfl
  | send _ _ ih | sendStream _ _ ih => rw [bind, ih]
  | recv _ ih | recvStream _ ih | call _ _ _ ih => simp only [bind, ih]
  | gather _ _ _ ih => simp only [bind, ih]

theorem bind_bind (p : Proc W α) (q : α → Proc W β) (r : β → Proc W γ) :
    (p.bind q).bind r = p.bind fun a => (q a).bind r := by
  induction p with
  | done | fail => rfl
  | send _ _ ih | sendStream _ _ ih => simp only [bind, ih]
  | recv _ ih | recvStream _ ih | call _ _ _ ih => simp only [bind, ih]
  | gather _ _ _ ih => simp only [bind, ih]

instance : LawfulMonad (Proc W) := 
  LawfulMonad.mk' _ bind_done (fun _ _ => rfl) bind_bind

/-- Call an operation with a result. -/
def act (name : W.Call) (f : W.State → β × W.State) : Proc W β :=
  call name (fun s => (f s).2) fun s => done (f s).1

/-- Read the state. -/
def read (name : W.Call) (f : W.State → β) : Proc W β := call name id fun s => done (f s)

/-- Call an operation that may fail; a failed call changes nothing and ends the program. -/
def attempt (name : W.Call) (f : W.State → Except W.Err (β × W.State)) : Proc W β :=
  call name
    (fun s => match f s with
      | .ok r => r.2
      | .error _ => s)
    fun s => match f s with
      | .ok r => done r.1
      | .error e => fail e

/-- Send a control message. -/
def tell (m : W.Msg) : Proc W Unit := send m (done ())

/-- Send a byte stream. -/
def tellStream (b : W.Stream) : Proc W Unit := sendStream b (done ())

/-- Receive the next control message. -/
def hear : Proc W W.Msg := recv done

/-- Receive the next byte stream. -/
def hearStream : Proc W W.Stream := recvStream done

/-- Receive control messages as long as `more` extends the accumulator; the message that ends the
loop is part of the result. -/
def hearWhile (acc : W.Acc) (more : W.Acc → W.Msg → Option W.Acc) : Proc W (W.Acc × W.Msg) :=
  gather acc more fun acc m => done (acc, m)

/-! ## Programs that only call -/

/-- The result of a program that does not communicate: what it returns or the error it ends with,
and the state it leaves. `none` for a program that communicates. -/
def eval : Proc W α → W.State → Option (Except W.Err α × W.State)
  | done a, s => some (.ok a, s)
  | fail e, s => some (.error e, s)
  | call _ f k, s => (k s).eval (f s)
  | _, _ => none

@[simp] theorem eval_pure (a : α) (s : W.State) : (pure a : Proc W α).eval s = some (.ok a, s) :=
  rfl

@[simp] theorem eval_fail (e : W.Err) (s : W.State) :
    (fail e : Proc W α).eval s = some (.error e, s) := rfl

@[simp] theorem eval_act (name : W.Call) (f : W.State → β × W.State) (s : W.State) :
    (act name f).eval s = some (.ok (f s).1, (f s).2) := rfl

@[simp] theorem eval_read (name : W.Call) (f : W.State → β) (s : W.State) :
    (read name f).eval s = some (.ok (f s), s) := rfl

theorem eval_attempt (name : W.Call) (f : W.State → Except W.Err (β × W.State)) (s : W.State) :
    (attempt name f).eval s =
      match f s with
      | .ok r => some (.ok r.1, r.2)
      | .error e => some (.error e, s) := by
  cases h : f s <;> simp [attempt, eval, h]

/-- A sequence of programs: an error of the first ends it. -/
theorem eval_bind (p : Proc W α) (q : α → Proc W β) (s : W.State) :
    (p >>= q).eval s =
      match p.eval s with
      | some (.ok a, s') => (q a).eval s'
      | some (.error e, s') => some (.error e, s')
      | none => none := by
  change (p.bind q).eval s = _
  induction p generalizing s with
  | call _ f k ih => exact ih s (f s)
  | done | fail => rfl
  | send | sendStream | recv | gather | recvStream => rfl

/-- The program only calls. -/
def Silent : Proc W α → Prop
  | done _ | fail _ => True
  | call _ _ k => ∀ s, (k s).Silent
  | _ => False

theorem Silent.bind {p : Proc W α} {q : α → Proc W β} (hp : p.Silent) (hq : ∀ a, (q a).Silent) :
    (p >>= q).Silent := by
  induction p with
  | done a => exact hq a
  | fail => trivial
  | call _ _ k ih => exact fun s => ih s (hp s)
  | send | sendStream | recv | gather | recvStream => exact hp.elim

theorem silent_act (name : W.Call) (f : W.State → β × W.State) : (act name f).Silent :=
  fun _ => trivial

theorem silent_read (name : W.Call) (f : W.State → β) : (read name f).Silent := fun _ => trivial

theorem silent_attempt (name : W.Call) (f : W.State → Except W.Err (β × W.State)) :
    (attempt name f).Silent := by
  intro s
  cases h : f s <;> simp [h, Silent]

/-- A program that only calls returns or fails. -/
theorem Silent.eval {p : Proc W α} (hp : p.Silent) (s : W.State) : ∃ r, p.eval s = some r := by
  induction p generalizing s with
  | done a => exact ⟨_, rfl⟩
  | fail e => exact ⟨_, rfl⟩
  | call _ f k ih => exact ih s (hp s) (f s)
  | send | sendStream | recv | gather | recvStream => exact hp.elim

theorem eval_bind_ok {p : Proc W α} {q : α → Proc W β} {s s' : W.State} {a : α}
    (h : p.eval s = some (.ok a, s')) : (p >>= q).eval s = (q a).eval s' := by
  rw [eval_bind, h]

end Proc
