import Clipse.Ipc.Endpoint

/-!
# How many daemons there can be

Two processes that start at the same time can both find the same stale file, and the second one then
removes the file that the first has just bound. Every such removal lets one more daemon run at the
same time, and nothing else does (`one_daemon`); starts that do not overlap never do it.
-/

namespace Clipse
namespace Ipc
namespace Endpoint

/-- The file belongs to a daemon that lives. -/
def Named (s : Endpoint) : Prop := ∃ q ∈ s.listening, s.socket = some q

instance (s : Endpoint) : Decidable s.Named := inferInstanceAs (Decidable (∃ q ∈ s.listening, _))

/-- Each daemon but the one that the file belongs to is paid for by a removal. -/
structure Counted (s : Endpoint) : Prop where
  nodup : s.listening.Nodup
  mem_iff : ∀ p, p ∈ s.listening ↔ s.phase p = .listening
  paid : s.listening.length ≤ s.displaced + if s.Named then 1 else 0

variable {s : Endpoint} {p : Nat}

theorem phase_move (phase : BindPhase) (q : Nat) :
    (s.move p phase).phase q = if q = p then phase else s.phase q := by
  unfold move
  exact Function.update_apply s.phase p phase q

/-- A process that does not listen goes on to something else. -/
theorem Counted.move (h : s.Counted) (hp : s.phase p ≠ .listening) {phase : BindPhase}
    (hphase : phase ≠ .listening) : (s.move p phase).Counted where
  nodup := h.nodup
  mem_iff q := by
    rw [phase_move]
    show q ∈ s.listening ↔ _
    split
    · next hq => simp [hphase, h.mem_iff, hq, hp]
    · exact h.mem_iff q
  paid := h.paid

theorem Counted.remove (h : s.Counted) (hp : s.phase p ≠ .listening) {q : Nat}
    (hsocket : s.socket = some q) :
    Counted { s.move p .clear with
      socket := none
      displaced := s.displaced + if q ∈ s.listening then 1 else 0 } where
  nodup := h.nodup
  mem_iff := (h.move hp (show BindPhase.clear ≠ .listening by simp)).mem_iff
  paid := by
    have hnamed : s.Named ↔ q ∈ s.listening := by
      constructor
      · rintro ⟨r, hr, hrq⟩
        obtain rfl : q = r := Option.some.inj (hsocket.symm.trans hrq)
        exact hr
      · exact fun hq => ⟨q, hq, hsocket⟩
    have hpaid := h.paid
    simp only [hnamed] at hpaid
    exact Nat.le_trans hpaid (Nat.le_add_right _ _)

theorem Counted.bind (h : s.Counted) (hp : s.phase p ≠ .listening) (hsocket : s.socket = none) :
    Counted { s.move p .listening with socket := some p, listening := p :: s.listening } where
  nodup := List.nodup_cons.2 ⟨fun hmem => hp ((h.mem_iff p).1 hmem), h.nodup⟩
  mem_iff q := by
    show q ∈ p :: s.listening ↔ (s.move p .listening).phase q = _
    rw [phase_move, List.mem_cons, h.mem_iff]
    split
    · next hq => simp [hq]
    · next hq => simp [hq]
  paid := by
    have hnone : ¬ s.Named := by
      rintro ⟨q, -, hq⟩
      rw [hsocket] at hq
      cases hq
    have hpaid := h.paid
    rw [if_neg hnone] at hpaid
    rw [if_pos ⟨p, List.mem_cons_self, rfl⟩]
    exact Nat.succ_le_succ hpaid

/-- A daemon ends. The file is removed, or stays as it is. -/
theorem Counted.leave (h : s.Counted) {socket : Option Nat}
    (hsocket : socket = s.socket ∨ socket = none ∧ p ∈ s.listening) :
    Counted { s.move p .ended with socket, listening := s.listening.erase p } where
  nodup := h.nodup.erase p
  mem_iff q := by
    show q ∈ s.listening.erase p ↔ (s.move p .ended).phase q = _
    rw [phase_move, h.nodup.mem_erase_iff, h.mem_iff]
    split
    · next hq => simp [hq]
    · next hq => simp [hq]
  paid := by
    show (s.listening.erase p).length ≤ s.displaced + _
    have hpaid := h.paid
    by_cases hp : p ∈ s.listening
    · -- One fewer: that makes up for a file that no longer belongs to a daemon.
      rw [List.length_erase_of_mem hp]
      split at hpaid <;> omega
    · rw [List.erase_of_not_mem hp]
      obtain rfl : socket = s.socket := hsocket.resolve_right fun hnone => hp hnone.2
      exact hpaid

theorem Counted.step (h : s.Counted) (op : EndpointOp) : (s.step op).Counted := by
  have hother {p : Nat} {phase : BindPhase} (hp : s.phase p = phase) (hphase : phase ≠ .listening) :
      s.phase p ≠ .listening := by rw [hp]; exact hphase
  cases op with
  | look p =>
    unfold Endpoint.step
    dsimp only
    split
    · next hp => exact h.move (hother hp (by simp)) (by split <;> simp)
    · exact h
  | connect p =>
    unfold Endpoint.step
    dsimp only
    split
    · next hp =>
      split
      · exact h.move (hother hp (by simp)) (by split <;> simp)
      · exact h.move (hother hp (by simp)) (by simp)
    · exact h
  | remove p =>
    unfold Endpoint.step
    dsimp only
    split
    · next hp =>
      split
      · exact h.move (hother hp (by simp)) (by simp)
      · next q hq => exact h.remove (hother hp (by simp)) hq
    · exact h
  | bind p =>
    unfold Endpoint.step
    dsimp only
    split
    · next hp =>
      split
      · exact h.move (hother hp (by simp)) (by simp)
      · next hsocket => exact h.bind (hother hp (by simp)) hsocket
    · exact h
  | drop p =>
    unfold Endpoint.step
    dsimp only
    split
    · next hp => exact h.leave (.inr ⟨rfl, (h.mem_iff p).2 hp⟩)
    · exact h
  | kill p => exact h.leave (.inl rfl)

theorem Counted.run (h : s.Counted) (ops : List EndpointOp) : (s.run ops).Counted := by
  induction ops generalizing s with
  | nil => exact h
  | cons op ops ih => exact ih (h.step op)

theorem counted_initial (socket : Option Nat) : (initial socket).Counted where
  nodup := List.nodup_nil
  mem_iff p := by simp [initial]
  paid := Nat.zero_le _

theorem Counted.length_le (h : s.Counted) : s.listening.length ≤ 1 + s.displaced := by
  have hpaid := h.paid
  split at hpaid <;> omega

/-! ## Starts that do not overlap -/

/-- No process is in the middle of a start. -/
def Settled (s : Endpoint) : Prop :=
  ∀ p, s.phase p = .idle ∨ s.phase p = .listening ∨ s.phase p = .ended

theorem Settled.move (h : s.Settled) {phase : BindPhase}
    (hphase : phase = .idle ∨ phase = .listening ∨ phase = .ended) : (s.move p phase).Settled := by
  intro q
  rw [phase_move]
  split
  · exact hphase
  · exact h q

/-- What a start does when nobody interferes. -/
theorem start_eq (h : s.Settled) (p : Nat) :
    ∃ phase socket listening, (phase = .idle ∨ phase = .listening ∨ phase = .ended) ∧
      s.run (Whole.start p).ops = { s.move p phase with socket, listening } := by
  have hsame : s = { s.move p (s.phase p) with socket := s.socket, listening := s.listening } := by
    unfold Endpoint.move
    rw [Function.update_eq_self]
  by_cases hidle : s.phase p = .idle
  · cases hsocket : s.socket with
    | none =>
      refine ⟨.listening, some p, p :: s.listening, by simp, ?_⟩
      simp [run, Whole.ops, Endpoint.step, Endpoint.move, hidle, hsocket]
    | some q =>
      by_cases hq : q ∈ s.listening
      · refine ⟨.ended, some q, s.listening, by simp, ?_⟩
        simp [run, Whole.ops, Endpoint.step, Endpoint.move, hidle, hsocket, hq]
      · refine ⟨.listening, some p, p :: s.listening, by simp, ?_⟩
        simp [run, Whole.ops, Endpoint.step, Endpoint.move, hidle, hsocket, hq]
  · have hphase := (h p).resolve_left hidle
    refine ⟨s.phase p, s.socket, s.listening, .inr hphase, ?_⟩
    rw [← hsame]
    rcases hphase with hp | hp <;> simp [run, Whole.ops, Endpoint.step, hp]

theorem Settled.whole (h : s.Settled) (op : Whole) :
    (s.run op.ops).Settled ∧ (s.run op.ops).displaced = s.displaced := by
  cases op with
  | start p =>
    obtain ⟨phase, socket, listening, hphase, he⟩ := start_eq h p
    rw [he]
    exact ⟨h.move hphase, rfl⟩
  | drop p =>
    show (s.step (.drop p)).Settled ∧ (s.step (.drop p)).displaced = _
    unfold Endpoint.step
    dsimp only
    split
    · exact ⟨h.move (by simp), rfl⟩
    · exact ⟨h, rfl⟩
  | kill p => exact ⟨h.move (by simp), rfl⟩

theorem Settled.wholes (h : s.Settled) (ops : List Whole) :
    (s.run (ops.flatMap Whole.ops)).displaced = s.displaced := by
  induction ops generalizing s with
  | nil => rfl
  | cons op ops ih =>
    obtain ⟨hsettled, hdisplaced⟩ := h.whole op
    have happend : s.run ((op :: ops).flatMap Whole.ops) =
        (s.run op.ops).run (ops.flatMap Whole.ops) := List.foldl_append
    rw [happend, ih hsettled, hdisplaced]

/-- **One daemon at a time.** However the steps of any number of starts, exits and kills interleave,
whatever file was left over before, at most one daemon listens for every time that the file of a
living one was removed, and one more. Where no two starts overlap, that never happens. -/
theorem one_daemon (socket : Option Nat) :
    (∀ ops, ((initial socket).run ops).listening.Nodup ∧
      ((initial socket).run ops).listening.length ≤ 1 + ((initial socket).run ops).displaced) ∧
    ∀ ops : List Whole, ((initial socket).run (ops.flatMap Whole.ops)).listening.length ≤ 1 := by
  have hcounted (ops : List EndpointOp) : ((initial socket).run ops).Counted :=
    (counted_initial socket).run ops
  refine ⟨fun ops => ⟨(hcounted ops).nodup, (hcounted ops).length_le⟩, fun ops => ?_⟩
  have hsettled : (initial socket).Settled := fun p => .inl rfl
  have hle := (hcounted (ops.flatMap Whole.ops)).length_le
  rw [hsettled.wholes ops] at hle
  exact hle

/-- Two starts that find the same stale file can both go on to listen. -/
example : ((initial (some 0)).run
    [.look 1, .connect 1, .look 2, .connect 2, .remove 1, .bind 1, .remove 2, .bind 2]).listening =
      [2, 1] := by decide

end Endpoint
end Ipc
end Clipse
