import Mathlib.Data.List.Forall2

/-!
# Subsequences, found from left to right

`leftmost` looks for a pattern in a text, taking each element at the first place that is left for
it. It finds the whole pattern if anything does (`leftmost_rest_eq_nil`), at increasing places that
hold its elements. It takes no place that a text with parts blotted out hides if and only if every
start of the pattern that some start of the text holds is held there in plain sight too
(`forall_leftmost_iff`).
-/

namespace Subsequence

variable {α : Type*} [DecidableEq α]

/-- The places, numbered from `i` on, where the pattern is found from left to right, and the rest of
the pattern that is not found. -/
def leftmost : List α → List α → Nat → List Nat × List α
  | q, [], _ => ([], q)
  | [], _ :: _, _ => ([], [])
  | b :: q, a :: t, i =>
    if a = b then (i :: (leftmost q t (i + 1)).1, (leftmost q t (i + 1)).2)
    else leftmost (b :: q) t (i + 1)

@[simp] theorem leftmost_nil (q : List α) (i : Nat) : leftmost q [] i = ([], q) := by
  cases q <;> rfl

@[simp] theorem leftmost_nil_left (t : List α) (i : Nat) : leftmost [] t i = ([], []) := by
  cases t <;> rfl

theorem leftmost_cons_eq (b : α) (q t : List α) (i : Nat) :
    leftmost (b :: q) (b :: t) i =
      (i :: (leftmost q t (i + 1)).1, (leftmost q t (i + 1)).2) := by
  rw [leftmost, if_pos rfl]

theorem leftmost_cons_ne {a b : α} (h : a ≠ b) (q t : List α) (i : Nat) :
    leftmost (b :: q) (a :: t) i = leftmost (b :: q) t (i + 1) := by
  rw [leftmost, if_neg h]

omit [DecidableEq α] in
theorem cons_sublist_cons_ne {a b : α} (h : a ≠ b) {q t : List α} :
    (b :: q).Sublist (a :: t) ↔ (b :: q).Sublist t := by
  refine ⟨fun hs => ?_, fun hs => hs.cons a⟩
  cases hs with
  | cons _ hs => exact hs
  | cons_cons _ hs => exact absurd rfl h

theorem leftmost_rest_eq_nil (q t : List α) (i : Nat) :
    (leftmost q t i).2 = [] ↔ q.Sublist t := by
  induction t generalizing q i with
  | nil => simp
  | cons a t ih =>
    cases q with
    | nil => simp
    | cons b q =>
      by_cases h : a = b
      · subst h
        rw [leftmost_cons_eq, List.cons_sublist_cons]
        exact ih q (i + 1)
      · rw [leftmost_cons_ne h, cons_sublist_cons_ne h]
        exact ih (b :: q) (i + 1)

theorem length_leftmost (q t : List α) (i : Nat) :
    (leftmost q t i).1.length + (leftmost q t i).2.length = q.length := by
  induction t generalizing q i with
  | nil => simp
  | cons a t ih =>
    cases q with
    | nil => simp
    | cons b q =>
      by_cases h : a = b
      · subst h
        have := ih q (i + 1)
        simp only [leftmost_cons_eq, List.length_cons]
        omega
      · rw [leftmost_cons_ne h]
        exact ih (b :: q) (i + 1)

theorem le_of_mem_leftmost {q t : List α} {i p : Nat} (hp : p ∈ (leftmost q t i).1) : i ≤ p := by
  induction t generalizing q i with
  | nil => simp at hp
  | cons a t ih =>
    cases q with
    | nil => simp at hp
    | cons b q =>
      by_cases h : a = b
      · subst h
        rw [leftmost_cons_eq] at hp
        rcases List.mem_cons.mp hp with rfl | hp
        · exact Nat.le_refl p
        · exact Nat.le_of_succ_le (ih hp)
      · rw [leftmost_cons_ne h] at hp
        exact Nat.le_of_succ_le (ih hp)

theorem pairwise_leftmost (q t : List α) (i : Nat) : (leftmost q t i).1.Pairwise (· < ·) := by
  induction t generalizing q i with
  | nil => simp
  | cons a t ih =>
    cases q with
    | nil => simp
    | cons b q =>
      by_cases h : a = b
      · subst h
        rw [leftmost_cons_eq]
        exact List.Pairwise.cons (fun p hp => le_of_mem_leftmost hp) (ih q (i + 1))
      · rw [leftmost_cons_ne h]
        exact ih (b :: q) (i + 1)

/-- Each place holds the element that was looked for. -/
theorem getElem?_leftmost {q t : List α} {i k p : Nat} (h : (leftmost q t i).1[k]? = some p) :
    ∃ j a, p = i + j ∧ t[j]? = some a ∧ q[k]? = some a := by
  induction t generalizing q i k with
  | nil => simp at h
  | cons a t ih =>
    cases q with
    | nil => simp at h
    | cons b q =>
      by_cases hab : a = b
      · subst hab
        rw [leftmost_cons_eq] at h
        cases k with
        | zero => exact ⟨0, a, by simpa using h.symm, rfl, rfl⟩
        | succ k =>
          obtain ⟨j, c, rfl, hj, hc⟩ := ih (List.getElem?_cons_succ ▸ h)
          exact ⟨j + 1, c, by omega, by simpa using hj, by simpa using hc⟩
      · rw [leftmost_cons_ne hab] at h
        obtain ⟨j, c, rfl, hj, hc⟩ := ih h
        exact ⟨j + 1, c, by omega, by simpa using hj, hc⟩

/-! ## A text with parts blotted out -/

/-- `m` is `t` with some of its elements blotted out. -/
def Blotted (m : List (Option α)) (t : List α) : Prop :=
  List.Forall₂ (fun x a => x = some a ∨ x = none) m t

/-- Every start of the pattern that a start of the text holds stands there in plain sight. -/
def InPlainSight (q t : List α) (m : List (Option α)) : Prop :=
  ∀ k n : Nat, (q.take k).Sublist (t.take n) → ((q.take k).map some).Sublist (m.take n)

omit [DecidableEq α] in
theorem inPlainSight_nil (t : List α) (m : List (Option α)) : InPlainSight [] t m := by
  simp [InPlainSight]

omit [DecidableEq α] in
theorem inPlainSight_cons_ne {a b : α} {x : Option α} (hx : x = some a ∨ x = none) (h : a ≠ b)
    (q t : List α) (m : List (Option α)) :
    InPlainSight (b :: q) (a :: t) (x :: m) ↔ InPlainSight (b :: q) t m := by
  have hxb : x ≠ some b := by rcases hx with rfl | rfl <;> simp [h]
  constructor
  · intro hp k n hs
    cases k with
    | zero => simp
    | succ k =>
      have := hp (k + 1) (n + 1) (hs.cons a)
      simp only [List.take_succ_cons, List.map_cons] at this
      exact (cons_sublist_cons_ne hxb).mp this
  · intro hp k n hs
    cases k with
    | zero => simp
    | succ k =>
      cases n with
      | zero => simp at hs
      | succ n =>
        simp only [List.take_succ_cons, List.map_cons] at hs ⊢
        exact (hp (k + 1) n ((cons_sublist_cons_ne h).mp hs)).cons x

omit [DecidableEq α] in
theorem inPlainSight_cons_eq (b : α) (q t : List α) (m : List (Option α)) :
    InPlainSight (b :: q) (b :: t) (some b :: m) ↔ InPlainSight q t m := by
  constructor
  · intro hp k n hs
    have := hp (k + 1) (n + 1) (by simpa using hs)
    simpa using this
  · intro hp k n hs
    cases k with
    | zero => simp
    | succ k =>
      cases n with
      | zero => simp at hs
      | succ n => simpa using hp k n (by simpa using hs)

omit [DecidableEq α] in
/-- Nothing is blotted out. -/
theorem inPlainSight_map_some (q t : List α) : InPlainSight q t (t.map some) := by
  intro k n h
  rw [← List.map_take]
  exact h.map some

/-- What stands at the places, counted from one element further on. -/
theorem forall_leftmost_succ {q t : List α} {i : Nat} {x : Option α} {m : List (Option α)}
    {f : Nat → Option α} :
    (∀ (k p : Nat), (leftmost q t (i + 1)).1[k]? = some p →
        ∃ j, p = i + j ∧ (x :: m)[j]? = some (f k)) ↔
      ∀ (k p : Nat), (leftmost q t (i + 1)).1[k]? = some p →
        ∃ j, p = i + 1 + j ∧ m[j]? = some (f k) := by
  constructor
  · intro hp k p hk
    obtain ⟨j, rfl, hj⟩ := hp k p hk
    obtain ⟨j', rfl⟩ : ∃ j', j = j' + 1 := by
      obtain ⟨j₀, -, h₀, -⟩ := getElem?_leftmost hk
      exact ⟨j₀, by omega⟩
    exact ⟨j', by omega, by simpa using hj⟩
  · intro hp k p hk
    obtain ⟨j, rfl, hj⟩ := hp k p hk
    exact ⟨j + 1, by omega, by simpa using hj⟩

/-- The places found are all in plain sight if and only if every start of the pattern is that a start
of the text holds. -/
theorem forall_leftmost_iff {q t : List α} {m : List (Option α)} (hm : Blotted m t) (i : Nat) :
    (∀ (k p : Nat), (leftmost q t i).1[k]? = some p → ∃ j, p = i + j ∧ m[j]? = some q[k]?) ↔
      InPlainSight q t m := by
  induction hm generalizing q i with
  | nil =>
    refine ⟨fun _ k n hs => ?_, fun _ => by simp⟩
    have : q.take k = [] := by simpa using hs
    simp [this]
  | @cons x a m t hx hm ih =>
    cases q with
    | nil => exact ⟨fun _ => inPlainSight_nil _ _, fun _ => by simp⟩
    | cons b q =>
      by_cases h : a = b
      · subst h
        rw [leftmost_cons_eq]
        rcases hx with rfl | rfl
        · rw [inPlainSight_cons_eq, ← ih (i + 1), ← forall_leftmost_succ (x := some a)]
          constructor
          · exact fun hp k p hk => by simpa using hp (k + 1) p (by simpa using hk)
          · intro hp k p hk
            cases k with
            | zero => exact ⟨0, by simpa using hk.symm, by simp⟩
            | succ k => simpa using hp k p (by simpa using hk)
        · -- the first element is found where it is hidden
          constructor
          · intro hp
            obtain ⟨j, hj, hm'⟩ := hp 0 i (by simp)
            obtain rfl : j = 0 := by omega
            simp at hm'
          · intro hp
            have := hp 1 1 (by simp)
            simp at this
      · rw [leftmost_cons_ne h, inPlainSight_cons_ne hx h, ← ih (i + 1)]
        exact forall_leftmost_succ

end Subsequence
