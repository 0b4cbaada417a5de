import Clipse.Lib.Duplex
import Mathlib.Order.GameAdd
import Mathlib.SetTheory.Ordinal.Family

/-!
# Links come to rest

A program is a tree, so a run of two of them cannot go on for ever: every step moves one end down
its tree, or takes a message out of an inbox while a receiving loop goes round.

* `step_wellFounded`: there is no infinite run; `exists_rest` follows a run to its end, also one of
  chosen steps only.
* `AtRest.steps_of`: the end is the same for every run.
-/

namespace Proc

variable {W : Wire} {α : Type}

/-- The height of a program. A receiving loop is as high whatever it has accumulated. -/
noncomputable def rank : Proc W α → Ordinal.{0}
  | done _ | fail _ => 0
  | send _ k | sendStream _ k => k.rank + 1
  | recv k => ⨆ m, (k m).rank + 1
  | gather _ _ k => ⨆ x : W.Acc × W.Msg, (k x.1 x.2).rank + 1
  | recvStream k => ⨆ b, (k b).rank + 1
  | call _ _ k => ⨆ s, (k s).rank + 1

end Proc

namespace Duplex

open Relation

variable {W : Wire} {α : Type}

/-- A step leads to a lower program, or a receiving loop takes a message and goes round. -/
theorem End.next_rank {e e' : End W α} {ms : List W.Msg} {bs : List W.Stream}
    (h : e.next = some (e', ms, bs)) :
    e'.proc.rank < e.proc.rank ∨
      (e'.proc.rank = e.proc.rank ∧ e'.inbox.length < e.inbox.length ∧ ms = [] ∧ bs = []) := by
  obtain ⟨proc, state, inbox, streams, log⟩ := e
  cases proc with
  | done | fail => simp [End.next] at h
  | send | sendStream =>
    cases h
    exact .inl (lt_add_one _)
  | call name f k =>
    cases h
    exact .inl (Ordinal.lt_iSup_add_one (fun s => (k s).rank) state)
  | recv k =>
    cases inbox with
    | nil => simp [End.next] at h
    | cons m inbox =>
      cases h
      exact .inl (Ordinal.lt_iSup_add_one (fun m => (k m).rank) m)
  | recvStream k =>
    cases streams with
    | nil => simp [End.next] at h
    | cons b streams =>
      cases h
      exact .inl (Ordinal.lt_iSup_add_one (fun b => (k b).rank) b)
  | gather acc more k =>
    cases inbox with
    | nil => simp [End.next] at h
    | cons m inbox =>
      cases hm : more acc m with
      | some acc' =>
        simp only [End.next, hm, Option.some.injEq, Prod.mk.injEq] at h
        obtain ⟨rfl, rfl, rfl⟩ := h
        exact .inr ⟨rfl, Nat.lt_succ_self _, rfl, rfl⟩
      | none =>
        simp only [End.next, hm, Option.some.injEq, Prod.mk.injEq] at h
        obtain ⟨rfl, rfl, rfl⟩ := h
        exact .inl (Ordinal.lt_iSup_add_one (fun x : W.Acc × W.Msg => (k x.1 x.2).rank) (acc, m))

/-- What decreases in every step. -/
noncomputable def measure (c : Link W α) : (Ordinal.{0} × Ordinal.{0}) × Nat :=
  ((c.1.proc.rank, c.2.proc.rank), c.1.inbox.length + c.2.inbox.length)

theorem step_measure {c c' : Link W α} (h : Step c c') :
    Prod.Lex (Prod.GameAdd (· < ·) (· < ·)) (· < ·) (measure c') (measure c) := by
  cases h with
  | left h =>
    obtain ⟨ms, bs, hn, rfl⟩ := End.step_eq_some.1 h
    rcases End.next_rank hn with hlt | ⟨heq, hlen, rfl, rfl⟩
    · exact .left _ _ (.fst hlt)
    · rw [deliver_nil]
      unfold measure
      rw [heq]
      exact .right _ (Nat.add_lt_add_right hlen _)
  | right h =>
    obtain ⟨ms, bs, hn, rfl⟩ := End.step_eq_some.1 h
    rcases End.next_rank hn with hlt | ⟨heq, hlen, rfl, rfl⟩
    · exact .left _ _ (.snd hlt)
    · rw [deliver_nil]
      unfold measure
      rw [heq]
      exact .right _ (Nat.add_lt_add_left hlen _)

/-- **There is no infinite run.** -/
theorem step_wellFounded : WellFounded fun c' c : Link W α => Step c c' :=
  Subrelation.wf step_measure
    (InvImage.wf measure ((Ordinal.lt_wf.prod_gameAdd Ordinal.lt_wf).prod_lex Nat.lt_wfRel.wf))

/-- A run of chosen steps comes to an end. -/
theorem exists_rest {r : Link W α → Link W α → Prop} (hr : ∀ {c c'}, r c c' → Step c c')
    (c : Link W α) : ∃ F, ReflTransGen r c F ∧ ∀ c', ¬ r F c' := by
  induction c using step_wellFounded.induction with
  | _ c ih =>
    by_cases h : ∃ c', r c c'
    · obtain ⟨c', hc⟩ := h
      obtain ⟨F, hF, hrest⟩ := ih c' (hr hc)
      exact ⟨F, .head hc hF, hrest⟩
    · exact ⟨c, .refl, not_exists.1 h⟩

/-- No end can take a step. -/
def AtRest (c : Link W α) : Prop := c.1.next = none ∧ c.2.next = none

theorem AtRest.not_step {c c' : Link W α} (h : AtRest c) : ¬ Step c c' := by
  intro hs
  cases hs with
  | left hs =>
    obtain ⟨ms, bs, hn, -⟩ := End.step_eq_some.1 hs
    rw [h.1] at hn
    cases hn
  | right hs =>
    obtain ⟨ms, bs, hn, -⟩ := End.step_eq_some.1 hs
    rw [h.2] at hn
    cases hn

theorem AtRest.steps_eq {c c' : Link W α} (h : AtRest c) (hs : Steps c c') : c' = c := by
  induction hs with
  | refl => rfl
  | tail _ hs ih => exact absurd (ih ▸ hs) h.not_step

/-- **Every run is on its way to the same end.** -/
theorem AtRest.steps_of {c c' F : Link W α} (h : AtRest F) (hF : Steps c F) (hs : Steps c c') :
    Steps c' F := by
  obtain ⟨d, hFd, hd⟩ := steps_confluent hF hs
  exact h.steps_eq hFd ▸ hd

end Duplex
