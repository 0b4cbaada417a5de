import Mathlib.Data.List.Basic

/-!
# A broadcast channel

A bounded channel on which every receiver gets every value that is sent after it subscribed, in
order. Where a receiver falls behind by more than the channel holds, the oldest values are lost to it:
the next `recv` only says how many.

The channel is a parameter, and `Documented` is what it promises, told by the values that a receiver
has not been given (`unread`). Of those it will be given the last `capacity` (`held`).
-/

inductive RecvOutcome (E : Type) where
  | ok (e : E)
  | lagged (missed : Nat)
  /-- There is nothing to receive yet. -/
  | pending
  | closed
deriving DecidableEq

/-- A channel and one of its receivers. -/
class Broadcast (E : Type) where
  Channel : Type
  Receiver : Type
  channel : Nat → Channel
  send : Channel → E → Channel
  subscribe : Channel → Receiver
  recv : Channel → Receiver → RecvOutcome E × Receiver
  /-- The receiver is one of the channel's. -/
  Attached : Channel → Receiver → Prop
  /-- How many values the channel holds at most. -/
  capacity : Channel → Nat
  /-- What has been sent since the receiver subscribed and `recv` has not gone past. -/
  unread : Channel → Receiver → List E

namespace Broadcast

structure Documented (E : Type) [Broadcast E] : Prop where
  capacity_channel : ∀ n : Nat, n ≤ capacity (channel n : Channel E)
  capacity_send : ∀ (c : Channel E) e, capacity (send c e) = capacity c
  attached_subscribe : ∀ c : Channel E, Attached c (subscribe c)
  attached_send : ∀ (c : Channel E) r e, Attached c r → Attached (send c e) r
  attached_recv : ∀ (c : Channel E) r, Attached c r → Attached c (recv c r).2
  unread_subscribe : ∀ c : Channel E, unread c (subscribe c) = []
  unread_send : ∀ (c : Channel E) r e, Attached c r → unread (send c e) r = unread c r ++ [e]
  recv_nil : ∀ (c : Channel E) r, Attached c r → unread c r = [] →
    recv c r = (.pending, r) ∨ recv c r = (.closed, r)
  recv_cons : ∀ (c : Channel E) r e rest, Attached c r → unread c r = e :: rest →
    (unread c r).length ≤ capacity c → ∃ r', recv c r = (.ok e, r') ∧ unread c r' = rest
  recv_lagged : ∀ (c : Channel E) r, Attached c r → capacity c < (unread c r).length →
    ∃ r', recv c r = (.lagged ((unread c r).length - capacity c), r') ∧
      unread c r' = (unread c r).drop ((unread c r).length - capacity c)

section
variable {E : Type} [Broadcast E] {c : Channel E} {r r' : Receiver E}

/-- What the receiver will still be given. -/
def held (c : Channel E) (r : Receiver E) : List E :=
  (unread c r).drop ((unread c r).length - capacity c)

theorem held_eq_unread_iff : held c r = unread c r ↔ (unread c r).length ≤ capacity c := by
  unfold held
  constructor
  · intro h
    have hlength := congrArg List.length h
    rw [List.length_drop] at hlength
    omega
  · intro h
    rw [Nat.sub_eq_zero_of_le h, List.drop_zero]

theorem length_held_le : (held c r).length ≤ capacity c := by
  unfold held
  rw [List.length_drop]
  omega

theorem capacity_sendAll (hdoc : Documented E) (es : List E) (c : Channel E) :
    capacity (es.foldl send c) = capacity c := by
  induction es generalizing c with
  | nil => rfl
  | cons e es ih => rw [List.foldl_cons, ih, hdoc.capacity_send]

/-- What `recv` can do, with what it leaves unread. -/
theorem recv_cases (hdoc : Documented E) (h : Attached c r) :
    (unread c r = [] ∧ (recv c r = (.pending, r) ∨ recv c r = (.closed, r))) ∨
    (∃ e r', recv c r = (.ok e, r') ∧ (unread c r).length ≤ capacity c ∧
      unread c r = e :: unread c r') ∨
    ∃ n r', recv c r = (.lagged n, r') ∧ capacity c < (unread c r).length ∧
      unread c r' = held c r := by
  rcases Nat.lt_or_ge (capacity c) (unread c r).length with hlagged | htime
  · obtain ⟨r', hrecv, hunread⟩ := hdoc.recv_lagged c r h hlagged
    exact .inr (.inr ⟨_, r', hrecv, hlagged, hunread⟩)
  · cases hu : unread c r with
    | nil => exact .inl ⟨rfl, hdoc.recv_nil c r h hu⟩
    | cons e rest =>
      obtain ⟨r', hrecv, hunread⟩ := hdoc.recv_cons c r e rest h hu htime
      exact .inr (.inl ⟨e, r', hrecv, hu ▸ htime, by rw [hunread]⟩)

end

/-! ## A channel that does so -/

/-- The value at the receiver's position, of all that was sent. -/
def recvAt {E : Type} (c : Nat × List E) (r : Nat) : RecvOutcome E × Nat :=
  if c.1 < c.2.length - r then (.lagged (c.2.length - r - c.1), c.2.length - c.1)
  else
    match c.2[r]? with
    | some e => (.ok e, r + 1)
    | none => (.pending, r)

theorem recvAt_le {E : Type} {c : Nat × List E} {r : Nat} (h : r ≤ c.2.length) :
    (recvAt c r).2 ≤ c.2.length := by
  unfold recvAt
  split
  · exact Nat.sub_le _ _
  · split
    · next hr => exact (List.getElem?_eq_some_iff.1 hr).1
    · exact h

/-- All that was sent, and how far the receiver is. -/
@[reducible]
def ofLists (E : Type) : Broadcast E where
  Channel := Nat × List E
  Receiver := Nat
  channel n := (n, [])
  send c e := (c.1, c.2 ++ [e])
  subscribe c := c.2.length
  recv := recvAt
  Attached c r := r ≤ c.2.length
  capacity c := c.1
  unread c r := c.2.drop r

theorem documented_ofLists (E : Type) : @Documented E (ofLists E) := by
  let _ := ofLists E
  refine
    { capacity_channel := fun n => Nat.le_refl n
      capacity_send := fun _ _ => rfl
      attached_subscribe := fun c => Nat.le_refl c.2.length
      attached_send := ?_
      attached_recv := fun _ _ => recvAt_le
      unread_subscribe := fun c => List.drop_length
      unread_send := fun c r e h => List.drop_append_of_le_length h
      recv_nil := ?_, recv_cons := ?_, recv_lagged := ?_ }
  · intro (c : Nat × List E) (r : Nat) e (h : r ≤ c.2.length)
    show r ≤ (c.2 ++ [e]).length
    rw [List.length_append]
    omega
  · intro (c : Nat × List E) (r : Nat) _ (hnil : c.2.drop r = [])
    have hr : c.2.length ≤ r := List.drop_eq_nil_iff.1 hnil
    left
    show recvAt c r = _
    rw [recvAt, if_neg (by omega), List.getElem?_eq_none hr]
  · intro (c : Nat × List E) (r : Nat) e rest (h : r ≤ c.2.length) (hcons : c.2.drop r = e :: rest)
      (htime : (c.2.drop r).length ≤ c.1)
    rw [List.length_drop] at htime
    have hr : c.2[r]? = some e := by
      rw [← Nat.add_zero r, ← List.getElem?_drop, hcons]
      rfl
    refine ⟨r + 1, ?_, ?_⟩
    · show recvAt c r = _
      rw [recvAt, if_neg (by omega), hr]
    · show c.2.drop (r + 1) = rest
      rw [← List.drop_drop, hcons]
      rfl
  · intro (c : Nat × List E) (r : Nat) _ (hlagged : c.1 < (c.2.drop r).length)
    show ∃ r', recvAt c r = (.lagged ((c.2.drop r).length - c.1), r') ∧
      c.2.drop r' = (c.2.drop r).drop ((c.2.drop r).length - c.1)
    rw [List.length_drop] at hlagged ⊢
    refine ⟨c.2.length - c.1, ?_, ?_⟩
    · rw [recvAt, if_pos hlagged]
    · rw [List.drop_drop]
      congr 1
      omega

end Broadcast
