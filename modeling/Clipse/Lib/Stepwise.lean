import Mathlib.Data.List.Basic
import Mathlib.Logic.Relation

/-!
# What every step of a run meets

A system is a function `step` from a state and an action to the next state, and a run a list of
actions. `Stepwise step P s as`: taken one after another from `s`, every action meets `P` in the state
it is taken in.

* `Stepwise.invariant`: what the steps with `P` keep holds where such a run ends.
* `stepwise_congr`: conditions that agree wherever an invariant holds have the same runs, if the steps
  that meet them keep the invariant.

Where the next state is not a function of the action, a run lists each action with the state it led
to; `Trail R s run` says that its steps are in the relation `R`, whether that is what the system can
do or what is asked of it (`trail_congr`). `Along R s as s'` names the actions and the last state only.
-/

variable {S A : Type}

def Stepwise (step : S → A → S) (P : S → A → Prop) : S → List A → Prop
  | _, [] => True
  | s, a :: as => P s a ∧ Stepwise step P (step s a) as

section
variable {step : S → A → S} {P Q : S → A → Prop} {I : S → Prop} {s : S}

theorem stepwise_append {as bs : List A} :
    Stepwise step P s (as ++ bs) ↔ Stepwise step P s as ∧ Stepwise step P (as.foldl step s) bs := by
  induction as generalizing s with
  | nil => simp [Stepwise]
  | cons a as ih =>
    simp only [List.cons_append, Stepwise, List.foldl_cons, ih]
    exact and_assoc.symm

/-- The definition, with the steps of the run named by what comes before them. -/
theorem stepwise_iff_forall {as : List A} :
    Stepwise step P s as ↔
      ∀ before a after, as = before ++ a :: after → P (before.foldl step s) a := by
  constructor
  · rintro h before a after rfl
    exact (stepwise_append.1 h).2.1
  · intro h
    induction as generalizing s with
    | nil => trivial
    | cons a as ih =>
      refine ⟨h [] a as rfl, ih fun before b after he => ?_⟩
      exact h (a :: before) b after (by rw [he, List.cons_append])

theorem stepwise_and {as : List A} :
    Stepwise step (fun s a => P s a ∧ Q s a) s as ↔ Stepwise step P s as ∧ Stepwise step Q s as := by
  induction as generalizing s with
  | nil => simp [Stepwise]
  | cons a as ih =>
    rw [Stepwise, Stepwise, Stepwise, ih]
    exact and_and_and_comm

theorem Stepwise.invariant {as : List A} (hI : ∀ s a, I s → P s a → I (step s a))
    (h : Stepwise step P s as) (hs : I s) : I (as.foldl step s) := by
  induction as generalizing s with
  | nil => exact hs
  | cons a as ih => exact ih h.2 (hI s a hs h.1)

theorem Stepwise.imp {as : List A} (hI : ∀ s a, I s → P s a → I (step s a))
    (hPQ : ∀ s a, I s → P s a → Q s a) (h : Stepwise step P s as) (hs : I s) :
    Stepwise step Q s as := by
  induction as generalizing s with
  | nil => trivial
  | cons a as ih => exact ⟨hPQ s a hs h.1, ih h.2 (hI s a hs h.1)⟩

theorem stepwise_congr {as : List A} (hI : ∀ s a, I s → P s a → I (step s a))
    (hPQ : ∀ s a, I s → (P s a ↔ Q s a)) (hs : I s) : Stepwise step P s as ↔ Stepwise step Q s as :=
  ⟨fun h => h.imp hI (fun s a hs => (hPQ s a hs).1) hs,
    fun h => h.imp (fun s a hs hq => hI s a hs ((hPQ s a hs).2 hq))
      (fun s a hs => (hPQ s a hs).2) hs⟩

end

/-! ## Relations -/

def Trail (R : S → A → S → Prop) : S → List (A × S) → Prop
  | _, [] => True
  | s, (a, s') :: run => R s a s' ∧ Trail R s' run

/-- Conditions that agree on the steps of the system. -/
theorem trail_congr {R P Q : S → A → S → Prop} {s : S} {run : List (A × S)}
    (hPQ : ∀ s a s', R s a s' → (P s a s' ↔ Q s a s')) (h : Trail R s run) :
    Trail P s run ↔ Trail Q s run := by
  induction run generalizing s with
  | nil => exact Iff.rfl
  | cons step run ih =>
    obtain ⟨a, s'⟩ := step
    exact and_congr (hPQ s a s' h.1) (ih h.2)

theorem trail_and {R P : S → A → S → Prop} {s : S} {run : List (A × S)} :
    Trail (fun s a s' => R s a s' ∧ P s a s') s run ↔ Trail R s run ∧ Trail P s run := by
  induction run generalizing s with
  | nil => simp [Trail]
  | cons step run ih =>
    rw [Trail, Trail, Trail, ih]
    exact and_and_and_comm

theorem Trail.imp {P Q : S → A → S → Prop} {s : S} {run : List (A × S)}
    (hPQ : ∀ s a s', P s a s' → Q s a s') (h : Trail P s run) : Trail Q s run := by
  induction run generalizing s with
  | nil => trivial
  | cons step run ih => exact ⟨hPQ _ _ _ h.1, ih h.2⟩

/-- What the steps with `P` keep holds in every state of a run of such steps. -/
theorem Trail.invariant {R P : S → A → S → Prop} {I : S → Prop} {s : S} {run : List (A × S)}
    (hI : ∀ s a s', I s → R s a s' → P s a s' → I s') (hs : I s) (h : Trail R s run)
    (hp : Trail P s run) : Trail (fun _ _ s' => I s') s run := by
  induction run generalizing s with
  | nil => trivial
  | cons step run ih =>
    obtain ⟨a, s'⟩ := step
    have hs' := hI s a s' hs h.1 hp.1
    exact ⟨hs', ih hs' h.2 hp.2⟩

/-- What every step keeps holds where each step is taken. -/
theorem Trail.guarded {R : S → A → S → Prop} {I : S → Prop} {s : S} {run : List (A × S)}
    (hI : ∀ s a s', I s → R s a s' → I s') (hs : I s) (h : Trail R s run) :
    Trail (fun s a s' => I s ∧ R s a s') s run := by
  induction run generalizing s with
  | nil => trivial
  | cons step run ih =>
    obtain ⟨a, s'⟩ := step
    exact ⟨⟨hs, h.1⟩, ih (hI s a s' hs h.1) h.2⟩

/-- Where a run ends. -/
def lastState : S → List (A × S) → S
  | s, [] => s
  | _, (_, s') :: run => lastState s' run

theorem trail_append {R : S → A → S → Prop} {s : S} {run run' : List (A × S)} :
    Trail R s (run ++ run') ↔ Trail R s run ∧ Trail R (lastState s run) run' := by
  induction run generalizing s with
  | nil => simp [Trail, lastState]
  | cons step run ih =>
    rw [List.cons_append, Trail, Trail, ih, and_assoc]
    rfl

theorem lastState_append (s : S) (run run' : List (A × S)) :
    lastState s (run ++ run') = lastState (lastState s run) run' := by
  induction run generalizing s with
  | nil => rfl
  | cons step run ih => exact ih step.2

theorem Trail.last {I : S → Prop} {s : S} {run : List (A × S)} (hs : I s)
    (h : Trail (fun _ _ s' => I s') s run) : I (lastState s run) := by
  induction run generalizing s with
  | nil => exact hs
  | cons step run ih => exact ih h.1 h.2

/-- The actions lead from one state to the other. -/
def Along (R : S → A → S → Prop) : S → List A → S → Prop
  | s, [], s' => s = s'
  | s, a :: as, s' => ∃ s₁, R s a s₁ ∧ Along R s₁ as s'

section
variable {R : S → A → S → Prop} {s s' s'' : S} {as bs : List A}

theorem Along.append (h : Along R s as s') (h' : Along R s' bs s'') : Along R s (as ++ bs) s'' := by
  induction as generalizing s with
  | nil => exact h ▸ h'
  | cons a as ih =>
    obtain ⟨s₁, hstep, h⟩ := h
    exact ⟨s₁, hstep, ih h⟩

theorem Along.reaches (h : Along R s as s') :
    Relation.ReflTransGen (fun s s' => ∃ a, R s a s') s s' := by
  induction as generalizing s with
  | nil => exact h ▸ .refl
  | cons a as ih =>
    obtain ⟨s₁, hstep, h⟩ := h
    exact .head ⟨a, hstep⟩ (ih h)

theorem exists_along (h : Relation.ReflTransGen (fun s s' => ∃ a, R s a s') s s') :
    ∃ as, Along R s as s' := by
  induction h using Relation.ReflTransGen.head_induction_on with
  | refl => exact ⟨[], rfl⟩
  | @head s s₁ hstep _ ih =>
    obtain ⟨a, ha⟩ := hstep
    obtain ⟨as, has⟩ := ih
    exact ⟨a :: as, s₁, ha, has⟩

theorem Along.exists_trail (h : Along R s as s') :
    ∃ run, run.map Prod.fst = as ∧ Trail R s run ∧ lastState s run = s' := by
  induction as generalizing s with
  | nil => exact ⟨[], rfl, trivial, h⟩
  | cons a as ih =>
    obtain ⟨s₁, hstep, h⟩ := h
    obtain ⟨run, rfl, hrun, hlast⟩ := ih h
    exact ⟨(a, s₁) :: run, rfl, ⟨hstep, hrun⟩, hlast⟩

end
