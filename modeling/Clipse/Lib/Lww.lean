import Mathlib.Data.List.Count
import Mathlib.Logic.Function.Iterate
import Mathlib.Order.Basic
import Mathlib.Order.Lattice

/-!
# Last writer wins over a history of marks

A replica keeps, for one content, a list of marks, oldest first, of which only the last may be live
(`Layered`); one of them represents the content (`rep`). In a turn the sender pushes its
representative once for each of its marks that is newer than the receiver's representative; the
receiver overwrites its representative if the push is newer, and never revives a deleted one
(`put`). Two turns, one each way, are an exchange.

* `converged_iff`: an exchange leaves both replicas with a newest mark exactly when `Settles`.
* `quiet_iff`: after an exchange neither replica has anything newer than the other's representative
  exactly when `Meets`.
* `exchange_singleton`: what an exchange does to two replicas of one mark each.
-/

namespace Lww

/-- A mark: when it was made, by what, and whether it deletes. -/
@[ext] structure Mark (T V : Type) where
  stamp : T
  value : V
  deleted : Bool
deriving DecidableEq

section
variable {T V : Type} {a b ms ts : List (Mark T V)} {c f m r x y z : Mark T V}

/-- The live mark, else the oldest. -/
def rep (ms : List (Mark T V)) : Option (Mark T V) :=
  (ms.find? fun m => !m.deleted).or ms.head?

/-- Overwrite a mark; a deleted one stays deleted. -/
def absorb (c m : Mark T V) : Mark T V := { c with deleted := m.deleted || c.deleted }

/-- Overwrite the representative. -/
def overwrite (c : Mark T V) (ms : List (Mark T V)) : List (Mark T V) :=
  if ms.all (·.deleted) then ms.modifyHead (absorb c)
  else ms.map fun m => if m.deleted then m else absorb c m

/-- Only the last mark may be live. -/
def Layered (ms : List (Mark T V)) : Prop := ms.Pairwise fun m _ => m.deleted

/-! ## Layers -/

theorem layered_cases (h : Layered ms) :
    ms = [] ∨ (∃ m ts, ms = m :: ts ∧ ∀ m' ∈ m :: ts, m'.deleted) ∨
      ∃ ts m, ms = ts ++ [m] ∧ (∀ m' ∈ ts, m'.deleted) ∧ m.deleted = false := by
  rcases List.eq_nil_or_concat ms with rfl | ⟨ts, m, rfl⟩
  · exact .inl rfl
  rw [List.concat_eq_append] at h ⊢
  rw [Layered, List.pairwise_append] at h
  have hts : ∀ m' ∈ ts, m'.deleted := fun m' hm' => h.2.2 m' hm' m (List.mem_singleton_self m)
  cases hm : m.deleted with
  | false => exact .inr (.inr ⟨ts, m, rfl, hts, hm⟩)
  | true =>
    have hall : ∀ m' ∈ ts ++ [m], m'.deleted := by
      intro m' hm'
      rcases List.mem_append.1 hm' with hm' | hm'
      · exact hts m' hm'
      · exact List.mem_singleton.1 hm' ▸ hm
    cases ts with
    | nil => exact .inr (.inl ⟨m, [], rfl, hall⟩)
    | cons m₀ ts => exact .inr (.inl ⟨m₀, ts ++ [m], rfl, hall⟩)

theorem rep_dead (hd : ∀ m' ∈ m :: ts, m'.deleted) : rep (m :: ts) = some m := by
  have hf : (m :: ts).find? (fun m => !m.deleted) = none :=
    List.find?_eq_none.2 fun m' hm' => by simp [hd m' hm']
  rw [rep, hf]
  rfl

theorem rep_live (hd : ∀ m' ∈ ts, m'.deleted) (hm : m.deleted = false) :
    rep (ts ++ [m]) = some m := by
  have hf : ts.find? (fun m => !m.deleted) = none :=
    List.find?_eq_none.2 fun m' hm' => by simp [hd m' hm']
  rw [rep, List.find?_append, hf]
  simp [hm]

theorem rep_singleton (m : Mark T V) : rep [m] = some m := by
  cases h : m.deleted <;> simp [rep, h]

theorem rep_eq_none : rep ms = none ↔ ms = [] := by
  cases ms with
  | nil => simp [rep]
  | cons m ms => simp [rep]

theorem mem_of_rep (h : rep ms = some m) : m ∈ ms := by
  rcases Option.or_eq_some_iff.1 h with h | ⟨-, h⟩
  · exact List.mem_of_find?_eq_some h
  · exact List.mem_of_mem_head? h

/-- Below a live representative lie the deleted marks, below a deleted one nothing is live. -/
theorem rep_cases (h : Layered ms) (hr : rep ms = some r) :
    (r.deleted ∧ ∃ ts, ms = r :: ts ∧ ∀ m' ∈ r :: ts, m'.deleted) ∨
      (r.deleted = false ∧ ∃ ts, ms = ts ++ [r] ∧ ∀ m' ∈ ts, m'.deleted) := by
  rcases layered_cases h with rfl | ⟨m, ts, rfl, hd⟩ | ⟨ts, m, rfl, hd, hm⟩
  · cases hr
  · rw [rep_dead hd] at hr
    cases hr
    exact .inl ⟨hd r List.mem_cons_self, ts, rfl, hd⟩
  · rw [rep_live hd hm] at hr
    cases hr
    exact .inr ⟨hm, ts, rfl, hd⟩

/-! ## One push -/

variable [LinearOrder T]

/-- Receive a push. -/
def put (c : Mark T V) (ms : List (Mark T V)) : List (Mark T V) :=
  match rep ms with
  | none => [c]
  | some r => if r.stamp < c.stamp then overwrite c ms else ms

/-- The receiver has nothing as new as the mark. -/
def lacks (ms : List (Mark T V)) (m : Mark T V) : Bool :=
  match rep ms with
  | none => true
  | some r => decide (r.stamp < m.stamp)

/-- How many marks of `a` the receiver `b` lacks. -/
def newer (a b : List (Mark T V)) : ℕ := a.countP (lacks b)

/-- `b` after `a` has pushed. -/
def turn (a b : List (Mark T V)) : List (Mark T V) :=
  match rep a with
  | none => b
  | some c => (put c)^[newer a b] b

def Newest (m : Mark T V) (ms : List (Mark T V)) : Prop := ∀ m' ∈ ms, m'.stamp ≤ m.stamp

theorem put_nil : put c [] = [c] := rfl

theorem put_stale (hr : rep ms = some r) (h : ¬ r.stamp < c.stamp) : put c ms = ms := by
  simp [put, hr, h]

theorem put_dead (hd : ∀ m' ∈ m :: ts, m'.deleted) (h : m.stamp < c.stamp) :
    put c (m :: ts) = { c with deleted := true } :: ts := by
  have hall : (m :: ts).all (·.deleted) := List.all_eq_true.2 hd
  simp [put, rep_dead hd, h, overwrite, hall, absorb, hd m List.mem_cons_self]

theorem put_live (hd : ∀ m' ∈ ts, m'.deleted) (hm : m.deleted = false) (h : m.stamp < c.stamp) :
    put c (ts ++ [m]) = ts ++ [c] := by
  have hall : (ts ++ [m]).all (·.deleted) = false := by simp [hm]
  have hmap : ts.map (fun m => if m.deleted then m else absorb c m) = ts := by
    rw [List.map_congr_left fun m' hm' => if_pos (hd m' hm'), List.map_id']
  rw [put, rep_live hd hm]
  simp only [h, ↓reduceIte, overwrite, hall, Bool.false_eq_true, List.map_append, hmap]
  simp [hm, absorb]

/-- A push that is no news has no effect, however often it is repeated. -/
theorem iterate_put_stale (hr : rep ms = some r) (h : ¬ r.stamp < c.stamp) (n : ℕ) :
    (put c)^[n] ms = ms :=
  Function.iterate_fixed (put_stale hr h) n

/-- A push that leaves a representative with its own stamp need not be repeated. -/
theorem iterate_put_once (hr : rep (put c ms) = some r) (hs : r.stamp = c.stamp) {n : ℕ}
    (hn : 0 < n) : (put c)^[n] ms = put c ms := by
  obtain ⟨n, rfl⟩ := Nat.exists_eq_succ_of_ne_zero (Nat.pos_iff_ne_zero.1 hn)
  rw [Function.iterate_succ_apply]
  exact iterate_put_stale hr (by rw [hs]; exact lt_irrefl _) n

/-! ## One turn -/

theorem turn_nil : turn [] b = b := rfl

theorem newer_pos (hx : rep a = some x) (h : lacks b x) : 0 < newer a b :=
  List.countP_pos_iff.2 ⟨x, mem_of_rep hx, h⟩

theorem lacks_iff (hy : rep b = some y) : lacks b m ↔ y.stamp < m.stamp := by
  simp [lacks, hy]

/-- Unknown content is taken over. -/
theorem turn_to_nil (hx : rep a = some x) : turn a [] = [x] := by
  have hr : rep (put x []) = some x := by
    rw [put_nil]
    cases hd : x.deleted <;> simp [rep, hd]
  simp only [turn, hx]
  exact iterate_put_once hr rfl (newer_pos hx rfl)

theorem turn_stale (hx : rep a = some x) (hy : rep b = some y) (h : ¬ y.stamp < x.stamp) :
    turn a b = b := by
  simp only [turn, hx]
  exact iterate_put_stale hy h _

/-- A newer mark replaces one with the same flag; a deleted one keeps its flag. -/
theorem rep_turn_of_not_buried (hb : Layered b) (hx : rep a = some x) (hy : rep b = some y)
    (h : y.stamp < x.stamp) (hk : ¬ (x.deleted ∧ y.deleted = false)) :
    rep (turn a b) = some { x with deleted := y.deleted } := by
  have hn := newer_pos hx ((lacks_iff hy).2 h)
  simp only [turn, hx]
  rcases rep_cases hb hy with ⟨hyd, ts, rfl, hd⟩ | ⟨hyd, ts, rfl, hd⟩
  · have hr : rep (put x (y :: ts)) = some { x with deleted := y.deleted } := by
      rw [put_dead hd h, hyd]
      exact rep_dead fun m' hm' => (List.mem_cons.1 hm').elim (fun he => he ▸ rfl)
        fun hm' => hd m' (List.mem_cons_of_mem _ hm')
    rw [iterate_put_once hr rfl hn, hr]
  · have hxd : x.deleted = false := by simpa [hyd] using hk
    have hr : rep (put x (ts ++ [y])) = some { x with deleted := y.deleted } := by
      rw [put_live hd hyd h, rep_live hd hxd, hyd, ← hxd]
    rw [iterate_put_once hr rfl hn, hr]

/-- A deletion of a live content: under the live mark the oldest deleted one comes to light, and
only a second push overwrites that. -/
theorem rep_turn_of_buried (hb : Layered b) (hx : rep a = some x) (hy : rep b = some y)
    (h : y.stamp < x.stamp) (hxd : x.deleted) (hyd : y.deleted = false) :
    ∃ f, b.head? = some f ∧
      ((f = y ∨ f.stamp < x.stamp ∧ 2 ≤ newer a b) ∧ rep (turn a b) = some x ∨
        f.deleted ∧ ¬ (f.stamp < x.stamp ∧ 2 ≤ newer a b) ∧ rep (turn a b) = some f) := by
  have hn := newer_pos hx ((lacks_iff hy).2 h)
  simp only [turn, hx]
  rcases rep_cases hb hy with ⟨hyd', -⟩ | ⟨-, ts, rfl, hd⟩
  · rw [hyd] at hyd'
    cases hyd'
  have hput := put_live hd hyd h
  cases ts with
  | nil =>
    have hr : rep (put x ([] ++ [y])) = some x := by
      rw [hput]
      exact rep_dead fun m' hm' => List.mem_singleton.1 hm' ▸ hxd
    refine ⟨y, rfl, .inl ⟨.inl rfl, ?_⟩⟩
    rw [iterate_put_once hr rfl hn, hr]
  | cons f ts =>
    have hfd : f.deleted := hd f List.mem_cons_self
    have hd' : ∀ m' ∈ f :: (ts ++ [x]), m'.deleted := by
      intro m' hm'
      rcases List.mem_append.1 (show m' ∈ (f :: ts) ++ [x] from hm') with hm' | hm'
      · exact hd m' hm'
      · exact List.mem_singleton.1 hm' ▸ hxd
    have hr : rep (put x (f :: ts ++ [y])) = some f := by
      rw [hput]
      exact rep_dead hd'
    refine ⟨f, rfl, ?_⟩
    obtain ⟨n, hn'⟩ := Nat.exists_eq_succ_of_ne_zero (Nat.pos_iff_ne_zero.1 hn)
    rw [hn', Function.iterate_succ_apply]
    by_cases hf : f.stamp < x.stamp
    · have hput₂ : put x (put x (f :: ts ++ [y])) = x :: (ts ++ [x]) := by
        rw [hput, List.cons_append, put_dead hd' hf, ← hxd]
      have hr₂ : rep (put x (put x (f :: ts ++ [y]))) = some x := by
        rw [hput₂]
        exact rep_dead fun m' hm' => (List.mem_cons.1 hm').elim (fun he => he ▸ hxd)
          fun hm' => hd' m' (List.mem_cons_of_mem _ hm')
      cases n with
      | zero => exact .inr ⟨hfd, by omega, hr⟩
      | succ n =>
        refine .inl ⟨.inr ⟨hf, by omega⟩, ?_⟩
        rw [iterate_put_once hr₂ rfl (Nat.succ_pos n), hr₂]
    · refine .inr ⟨hfd, fun hc => hf hc.1, ?_⟩
      rw [iterate_put_stale hr hf n, hr]

/-! ## When a push takes the place of the representative -/

/-- The push of `x`, the representative of `a`, makes it the representative of `b` in place of the
older `y`: it does not revive a deleted mark, and if it deletes a live one then the oldest deleted
mark of `b` is overwritten as well or says the same. -/
def Replaces (a b : List (Mark T V)) (x y : Mark T V) : Prop :=
  x.deleted = y.deleted ∨ x.deleted ∧ ∀ f, b.head? = some f →
    f = y ∨ f.stamp < x.stamp ∧ 2 ≤ newer a b ∨ f.stamp = x.stamp ∧ f.value = x.value

/-- The push of `x` gives the representative of `b` the stamp of `x`. -/
def Restamps (a b : List (Mark T V)) (x y : Mark T V) : Prop :=
  (x.deleted → y.deleted) ∨ ∀ f, b.head? = some f →
    f = y ∨ f.stamp < x.stamp ∧ 2 ≤ newer a b ∨ f.stamp = x.stamp

/-- `Replaces` is what it says. -/
theorem rep_turn_eq_iff (hb : Layered b) (hx : rep a = some x) (hy : rep b = some y)
    (h : y.stamp < x.stamp) : rep (turn a b) = some x ↔ Replaces a b x y := by
  by_cases hk : x.deleted ∧ y.deleted = false
  · obtain ⟨hxd, hyd⟩ := hk
    obtain ⟨f, hf, ⟨hor, hr⟩ | ⟨hfd, hnot, hr⟩⟩ := rep_turn_of_buried hb hx hy h hxd hyd
    · refine iff_of_true hr (.inr ⟨hxd, fun f' hf' => ?_⟩)
      obtain rfl := Option.some.inj (hf.symm.trans hf')
      exact hor.imp_right .inl
    · have hne : f ≠ y := by
        rintro rfl
        rw [hyd] at hfd
        cases hfd
      rw [hr, Option.some.injEq]
      constructor
      · rintro rfl
        refine .inr ⟨hxd, fun f' hf' => ?_⟩
        obtain rfl := Option.some.inj (hf.symm.trans hf')
        exact .inr (.inr ⟨rfl, rfl⟩)
      · rintro (he | ⟨-, hall⟩)
        · rw [hxd, hyd] at he
          cases he
        · rcases hall f hf with rfl | hlt | ⟨hs, hv⟩
          · exact absurd rfl hne
          · exact absurd hlt hnot
          · exact Mark.ext hs hv (hfd.trans hxd.symm)
  · rw [rep_turn_of_not_buried hb hx hy h hk, Option.some.injEq, Mark.ext_iff]
    constructor
    · rintro ⟨-, -, hd⟩
      exact .inl hd.symm
    · rintro (hd | ⟨hxd, -⟩)
      · exact ⟨rfl, rfl, hd.symm⟩
      · have hyd : y.deleted := by simpa [hxd] using hk
        exact ⟨rfl, rfl, hyd.trans hxd.symm⟩

/-- `Restamps` is what it says. -/
theorem stamp_rep_turn_iff (hb : Layered b) (hx : rep a = some x) (hy : rep b = some y)
    (h : y.stamp < x.stamp) (hz : rep (turn a b) = some z) :
    z.stamp = x.stamp ↔ Restamps a b x y := by
  by_cases hk : x.deleted ∧ y.deleted = false
  · obtain ⟨hxd, hyd⟩ := hk
    obtain ⟨f, hf, ⟨hor, hr⟩ | ⟨hfd, hnot, hr⟩⟩ := rep_turn_of_buried hb hx hy h hxd hyd
    · obtain rfl := Option.some.inj (hr.symm.trans hz)
      refine iff_of_true rfl (.inr fun f' hf' => ?_)
      obtain rfl := Option.some.inj (hf.symm.trans hf')
      exact hor.imp_right .inl
    · obtain rfl := Option.some.inj (hr.symm.trans hz)
      constructor
      · intro hs
        refine .inr fun f' hf' => ?_
        obtain rfl := Option.some.inj (hf.symm.trans hf')
        exact .inr (.inr hs)
      · rintro (himp | hall)
        · rw [himp hxd] at hyd
          cases hyd
        · rcases hall f hf with rfl | hlt | hs
          · rw [hyd] at hfd
            cases hfd
          · exact absurd hlt hnot
          · exact hs
  · rw [rep_turn_of_not_buried hb hx hy h hk, Option.some.injEq] at hz
    refine iff_of_true (hz ▸ rfl) (.inl fun hxd => ?_)
    simpa [hxd] using hk

theorem rep_turn_isSome (hb : Layered b) (hx : rep a = some x) (hy : rep b = some y)
    (h : y.stamp < x.stamp) : ∃ z, rep (turn a b) = some z := by
  by_cases hk : x.deleted ∧ y.deleted = false
  · obtain ⟨f, -, ⟨-, hr⟩ | ⟨-, -, hr⟩⟩ := rep_turn_of_buried hb hx hy h hk.1 hk.2
    · exact ⟨_, hr⟩
    · exact ⟨_, hr⟩
  · exact ⟨_, rep_turn_of_not_buried hb hx hy h hk⟩

/-! ## An exchange -/

/-- `a` and `b` after `a` has pushed to `b` and then `b` to `a`. -/
def exchange (a b : List (Mark T V)) : List (Mark T V) × List (Mark T V) :=
  (turn (turn a b) a, turn a b)

theorem exchange_of_left_empty (hy : rep b = some y) :
    rep (exchange [] b).1 = some y ∧ rep (exchange [] b).2 = some y := by
  refine ⟨?_, hy⟩
  rw [exchange, turn_nil, turn_to_nil hy]
  exact rep_singleton y

theorem exchange_of_right_empty (hx : rep a = some x) :
    rep (exchange a []).1 = some x ∧ rep (exchange a []).2 = some x := by
  rw [exchange, turn_to_nil hx, turn_stale (rep_singleton x) hx (lt_irrefl _)]
  exact ⟨hx, rep_singleton x⟩

theorem exchange_of_eq (hx : rep a = some x) (hy : rep b = some y) (h : x.stamp = y.stamp) :
    rep (exchange a b).1 = some x ∧ rep (exchange a b).2 = some y := by
  rw [exchange, turn_stale hx hy (h ▸ lt_irrefl _), turn_stale hy hx (h ▸ lt_irrefl _)]
  exact ⟨hx, hy⟩

/-- The second replica has the newer representative: the first turn is idle. -/
theorem exchange_of_lt (ha : Layered a) (hx : rep a = some x) (hy : rep b = some y)
    (h : x.stamp < y.stamp) :
    ∃ z, rep (turn b a) = some z ∧ rep (exchange a b).1 = some z ∧
      rep (exchange a b).2 = some y := by
  obtain ⟨z, hz⟩ := rep_turn_isSome ha hy hx h
  rw [exchange, turn_stale hx hy (lt_asymm h)]
  exact ⟨z, hz, hz, hy⟩

/-- A deletion in the first turn has brought a mark of `b` to light that is even newer. -/
def Unearths (b : List (Mark T V)) (x y z : Mark T V) : Prop :=
  x.deleted ∧ y.deleted = false ∧ b.head? = some z ∧ x.stamp < z.stamp

theorem Unearths.exists_iff (h : Unearths b x y z) {Q : Mark T V → Prop} :
    (∃ f, Unearths b x y f ∧ Q f) ↔ Q z := by
  constructor
  · rintro ⟨f, hf, hq⟩
    obtain rfl := Option.some.inj (hf.2.2.1.symm.trans h.2.2.1)
    exact hq
  · exact fun hq => ⟨z, h, hq⟩

theorem Unearths.not_newest (h : Unearths b x y z) : ¬ Newest x (a ++ b) :=
  fun hn => absurd h.2.2.2
    (not_lt.2 (hn z (List.mem_append_right _ (List.mem_of_mem_head? h.2.2.1))))

/-- A turn leaves the receiver with something newer than the push only if it unearths it. -/
theorem stamp_lt_rep_turn_iff (hb : Layered b) (hx : rep a = some x) (hy : rep b = some y)
    (h : y.stamp < x.stamp) (hz : rep (turn a b) = some z) :
    x.stamp < z.stamp ↔ Unearths b x y z := by
  by_cases hk : x.deleted ∧ y.deleted = false
  · obtain ⟨hxd, hyd⟩ := hk
    obtain ⟨f, hf, ⟨-, hr⟩ | ⟨-, -, hr⟩⟩ := rep_turn_of_buried hb hx hy h hxd hyd
    · obtain rfl := Option.some.inj (hr.symm.trans hz)
      exact ⟨fun hlt => absurd hlt (lt_irrefl _), fun hu => hu.2.2.2⟩
    · obtain rfl := Option.some.inj (hr.symm.trans hz)
      exact ⟨fun hlt => ⟨hxd, hyd, hf, hlt⟩, fun hu => hu.2.2.2⟩
  · rw [rep_turn_of_not_buried hb hx hy h hk, Option.some.injEq] at hz
    subst hz
    exact ⟨fun hlt => absurd hlt (lt_irrefl _), fun hu => absurd ⟨hu.1, hu.2.1⟩ hk⟩

/-- The first replica has the newer representative: the second turn is idle unless the first has
unearthed something. -/
theorem exchange_of_gt (ha : Layered a) (hb : Layered b) (hx : rep a = some x)
    (hy : rep b = some y) (h : y.stamp < x.stamp) :
    ∃ z, rep (turn a b) = some z ∧ rep (exchange a b).2 = some z ∧
      ((∃ f, Unearths b x y f) ∧ Unearths b x y z ∧ rep (exchange a b).1 = some z ∨
        (¬ ∃ f, Unearths b x y f) ∧ rep (exchange a b).1 = some x) := by
  -- the second turn is idle if `b` ends up with nothing newer than `x`
  have hidle : ∀ z, rep (turn a b) = some z → ¬ x.stamp < z.stamp →
      rep (exchange a b).1 = some x := by
    intro z hz hle
    rw [exchange, turn_stale hz hx hle, hx]
  by_cases hk : x.deleted ∧ y.deleted = false
  · obtain ⟨hxd, hyd⟩ := hk
    obtain ⟨f, hf, hcase⟩ := rep_turn_of_buried hb hx hy h hxd hyd
    by_cases hlt : x.stamp < f.stamp
    · have hun : Unearths b x y f := ⟨hxd, hyd, hf, hlt⟩
      have hfr : f.deleted ∧ rep (turn a b) = some f := by
        rcases hcase with ⟨rfl | ⟨hlt', -⟩, -⟩ | ⟨hfd, -, hr⟩
        · exact absurd h (lt_asymm hlt)
        · exact absurd hlt' (lt_asymm hlt)
        · exact ⟨hfd, hr⟩
      obtain ⟨hfd, hr⟩ := hfr
      refine ⟨f, hr, hr, .inl ⟨⟨f, hun⟩, hun, ?_⟩⟩
      change rep (turn (turn a b) a) = some f
      rw [rep_turn_of_not_buried ha hr hx hlt (by simp [hxd]), hxd, ← hfd]
    · have hno : ¬ ∃ f', Unearths b x y f' := by
        rintro ⟨f', -, -, hf', hlt'⟩
        obtain rfl := Option.some.inj (hf.symm.trans hf')
        exact hlt hlt'
      rcases hcase with ⟨-, hr⟩ | ⟨-, -, hr⟩
      · exact ⟨x, hr, hr, .inr ⟨hno, hidle x hr (lt_irrefl _)⟩⟩
      · exact ⟨f, hr, hr, .inr ⟨hno, hidle f hr hlt⟩⟩
  · have hr := rep_turn_of_not_buried hb hx hy h hk
    exact ⟨_, hr, hr, .inr ⟨fun ⟨f, hf⟩ => hk ⟨hf.1, hf.2.1⟩, hidle _ hr (lt_irrefl _)⟩⟩

/-! ## Convergence -/

/-- Both replicas are represented by one mark, a newest of all they had. -/
def Converged (a b : List (Mark T V)) (r : List (Mark T V) × List (Mark T V)) : Prop :=
  a ++ b = [] ∨ ∃ m ∈ a ++ b, Newest m (a ++ b) ∧ rep r.1 = some m ∧ rep r.2 = some m

/-- The condition for an exchange to converge. -/
def Settles (a b : List (Mark T V)) : Prop :=
  match rep a, rep b with
  | none, none => True
  | some x, none => Newest x a
  | none, some y => Newest y b
  | some x, some y =>
    if y.stamp < x.stamp then
      Newest x (a ++ b) ∧ Replaces a b x y ∨
        ∃ f, Unearths b x y f ∧ Newest f (a ++ b)
    else if x.stamp < y.stamp then Newest y (a ++ b) ∧ Replaces b a y x
    else Newest x (a ++ b) ∧ x.deleted = y.deleted ∧ x.value = y.value

theorem converged_iff_of_rep {r : List (Mark T V) × List (Mark T V)} (h₁ : rep r.1 = some x)
    (h₂ : rep r.2 = some y) (hx : x ∈ a ++ b ∨ y ∈ a ++ b) :
    Converged a b r ↔ x = y ∧ Newest x (a ++ b) := by
  have hne : a ++ b ≠ [] := hx.elim List.ne_nil_of_mem List.ne_nil_of_mem
  simp only [Converged, hne, false_or, h₁, h₂, Option.some.injEq]
  constructor
  · rintro ⟨m, -, hm, rfl, rfl⟩
    exact ⟨rfl, hm⟩
  · rintro ⟨rfl, hn⟩
    exact ⟨x, hx.elim id id, hn, rfl, rfl⟩

/-- **An exchange converges** exactly when `Settles`. -/
theorem converged_iff (ha : Layered a) (hb : Layered b) :
    Converged a b (exchange a b) ↔ Settles a b := by
  cases hx : rep a with
  | none =>
    obtain rfl := rep_eq_none.1 hx
    cases hy : rep b with
    | none =>
      obtain rfl := rep_eq_none.1 hy
      simp [Converged, Settles, hx]
    | some y =>
      obtain ⟨h₁, h₂⟩ := exchange_of_left_empty hy
      rw [converged_iff_of_rep h₁ h₂ (.inr (List.mem_append_right _ (mem_of_rep hy)))]
      simp [Settles, hx, hy]
  | some x =>
    have hxmem : x ∈ a ++ b := List.mem_append_left _ (mem_of_rep hx)
    cases hy : rep b with
    | none =>
      obtain rfl := rep_eq_none.1 hy
      obtain ⟨h₁, h₂⟩ := exchange_of_right_empty hx
      rw [converged_iff_of_rep h₁ h₂ (.inl hxmem)]
      simp [Settles, hx, hy]
    | some y =>
      have hymem : y ∈ a ++ b := List.mem_append_right _ (mem_of_rep hy)
      rcases lt_trichotomy x.stamp y.stamp with h | h | h
      · obtain ⟨z, hz, h₁, h₂⟩ := exchange_of_lt ha hx hy h
        rw [converged_iff_of_rep h₁ h₂ (.inr hymem)]
        simp only [Settles, hx, hy, lt_asymm h, h, ↓reduceIte, ← rep_turn_eq_iff ha hy hx h, hz,
          Option.some.injEq]
        rw [and_comm, and_congr_left]
        rintro rfl
        rfl
      · obtain ⟨h₁, h₂⟩ := exchange_of_eq hx hy h
        rw [converged_iff_of_rep h₁ h₂ (.inl hxmem)]
        simp only [Settles, hx, hy, h, lt_irrefl, ↓reduceIte, Mark.ext_iff, true_and]
        tauto
      · obtain ⟨z, hz, h₂, ⟨-, hun, h₁⟩ | ⟨hno, h₁⟩⟩ := exchange_of_gt ha hb hx hy h
        · have hzmem : z ∈ a ++ b := List.mem_append_right _ (List.mem_of_mem_head? hun.2.2.1)
          rw [converged_iff_of_rep h₁ h₂ (.inl hzmem)]
          simp only [Settles, hx, hy, h, ↓reduceIte, hun.exists_iff, hun.not_newest, false_and,
            false_or, true_and]
        · rw [converged_iff_of_rep h₁ h₂ (.inl hxmem)]
          have hno' : ¬ ∃ f, Unearths b x y f ∧ Newest f (a ++ b) :=
            fun ⟨f, hf, _⟩ => hno ⟨f, hf⟩
          simp only [Settles, hx, hy, h, ↓reduceIte, hno', or_false,
            ← rep_turn_eq_iff hb hx hy h, hz, Option.some.injEq]
          rw [and_comm, eq_comm]

/-- A mark never revives an older deleted one. -/
theorem not_settles_of_undelete (hx : rep a = some x) (hy : rep b = some y)
    (h : y.stamp < x.stamp) (hxd : x.deleted = false) (hyd : y.deleted) : ¬ Settles a b := by
  simp [Settles, hx, hy, h, Replaces, Unearths, hxd, hyd]

/-- Live representatives settle when the newer one is a newest mark. -/
theorem settles_of_live (hx : rep a = some x) (hy : rep b = some y) (h : y.stamp < x.stamp)
    (hxd : x.deleted = false) (hyd : y.deleted = false) (hn : Newest x (a ++ b)) : Settles a b := by
  simp [Settles, hx, hy, h, Replaces, hxd, hyd, hn]

/-! ## A second exchange -/

/-- Neither replica has anything to push to the other. -/
def Quiet (r : List (Mark T V) × List (Mark T V)) : Prop := newer r.1 r.2 = 0 ∧ newer r.2 r.1 = 0

/-- The condition for a second exchange to be quiet. -/
def Meets (a b : List (Mark T V)) : Prop :=
  match rep a, rep b with
  | none, none => True
  | some x, none => Newest x a
  | none, some y => Newest y b
  | some x, some y =>
    if y.stamp < x.stamp then
      Newest x (a ++ b) ∧ Restamps a b x y ∨
        ∃ f, Unearths b x y f ∧ Newest f (a ++ b)
    else if x.stamp < y.stamp then Newest y (a ++ b) ∧ Restamps b a y x
    else Newest x (a ++ b)

/-- A push overwrites one older mark, if any. -/
theorem put_cases (h : Layered ms) :
    put c ms = ms ∨ ms = [] ∨ ∃ pre m post d, ms = pre ++ m :: post ∧ m.stamp < c.stamp ∧
      put c ms = pre ++ { c with deleted := d } :: post ∧ Layered (put c ms) := by
  rcases layered_cases h with rfl | ⟨m, ts, rfl, hd⟩ | ⟨ts, m, rfl, hd, hm⟩
  · exact .inr (.inl rfl)
  · by_cases hlt : m.stamp < c.stamp
    · have hp := put_dead hd hlt
      refine .inr (.inr ⟨[], m, ts, true, rfl, hlt, hp, ?_⟩)
      rw [hp]
      exact List.pairwise_cons.2 ⟨fun _ _ => rfl, (List.pairwise_cons.1 h).2⟩
    · exact .inl (put_stale (rep_dead hd) hlt)
  · by_cases hlt : m.stamp < c.stamp
    · have hp := put_live hd hm hlt
      refine .inr (.inr ⟨ts, m, [], c.deleted, rfl, hlt, hp, ?_⟩)
      rw [hp]
      have h' := List.pairwise_append.1 h
      exact List.pairwise_append.2 ⟨h'.1, List.pairwise_singleton _ _, fun t ht _ _ => hd t ht⟩
    · exact .inl (put_stale (rep_live hd hm) hlt)

theorem layered_put (h : Layered ms) : Layered (put c ms) := by
  rcases @put_cases _ _ _ c _ h with he | rfl | ⟨_, _, _, _, -, -, -, hl⟩
  · rw [he]
    exact h
  · exact List.pairwise_singleton _ _
  · exact hl

/-- Pushes below a bound do not change whether the bound holds. -/
theorem bounded_put (h : Layered ms) {S : T} (hc : c.stamp ≤ S) :
    (∀ m ∈ put c ms, m.stamp ≤ S) ↔ ∀ m ∈ ms, m.stamp ≤ S := by
  rcases @put_cases _ _ _ c _ h with he | rfl | ⟨pre, m, post, d, rfl, hlt, hp, -⟩
  · rw [he]
  · simp [put_nil, hc]
  · have hm : m.stamp ≤ S := (le_of_lt hlt).trans hc
    rw [hp]
    simp only [List.forall_mem_append, List.forall_mem_cons, hc, hm]

theorem bounded_turn (hb : Layered b) {S : T} (hS : ∀ m ∈ a, m.stamp ≤ S) :
    (∀ m ∈ turn a b, m.stamp ≤ S) ↔ ∀ m ∈ b, m.stamp ≤ S := by
  cases hx : rep a with
  | none =>
    rw [rep_eq_none.1 hx]
    rfl
  | some x =>
    simp only [turn, hx]
    generalize newer a b = n
    induction n generalizing b with
    | zero => rfl
    | succ n ih =>
      rw [Function.iterate_succ_apply, ih (layered_put hb), bounded_put hb (hS x (mem_of_rep hx))]

theorem newer_eq_zero (hy : rep b = some y) : newer a b = 0 ↔ ∀ m ∈ a, m.stamp ≤ y.stamp := by
  simp only [newer, List.countP_eq_zero, lacks_iff hy, not_lt]

/-- What an exchange leaves is bounded like what it began with. -/
theorem bounded_exchange (ha : Layered a) (hb : Layered b) (S : T) :
    ((∀ m ∈ (exchange a b).1, m.stamp ≤ S) ∧ ∀ m ∈ (exchange a b).2, m.stamp ≤ S) ↔
      ∀ m ∈ a ++ b, m.stamp ≤ S := by
  rw [List.forall_mem_append]
  constructor
  · rintro ⟨h₁, h₂⟩
    have ha' := (bounded_turn ha h₂).1 h₁
    exact ⟨ha', (bounded_turn hb ha').1 h₂⟩
  · rintro ⟨h₁, h₂⟩
    have hb' := (bounded_turn hb h₁).2 h₂
    exact ⟨(bounded_turn ha hb').2 h₁, hb'⟩

theorem quiet_iff_of_rep (ha : Layered a) (hb : Layered b) (hx : rep (exchange a b).1 = some x)
    (hy : rep (exchange a b).2 = some y) :
    Quiet (exchange a b) ↔ x.stamp = y.stamp ∧ Newest x (a ++ b) := by
  rw [Quiet, newer_eq_zero hx, newer_eq_zero hy, Newest, ← bounded_exchange ha hb]
  constructor
  · rintro ⟨h₁, h₂⟩
    have he : x.stamp = y.stamp := le_antisymm (h₁ x (mem_of_rep hx)) (h₂ y (mem_of_rep hy))
    exact ⟨he, fun m hm => he ▸ h₁ m hm, h₂⟩
  · rintro ⟨he, h₁, h₂⟩
    exact ⟨fun m hm => he ▸ h₁ m hm, h₂⟩

/-- **A second exchange is quiet** exactly when `Meets`. -/
theorem quiet_iff (ha : Layered a) (hb : Layered b) : Quiet (exchange a b) ↔ Meets a b := by
  cases hx : rep a with
  | none =>
    obtain rfl := rep_eq_none.1 hx
    cases hy : rep b with
    | none =>
      obtain rfl := rep_eq_none.1 hy
      simp [Quiet, exchange, turn, newer, Meets, hx]
    | some y =>
      obtain ⟨h₁, h₂⟩ := exchange_of_left_empty hy
      rw [quiet_iff_of_rep ha hb h₁ h₂]
      simp [Meets, hx, hy]
  | some x =>
    cases hy : rep b with
    | none =>
      obtain rfl := rep_eq_none.1 hy
      obtain ⟨h₁, h₂⟩ := exchange_of_right_empty hx
      rw [quiet_iff_of_rep ha hb h₁ h₂]
      simp [Meets, hx, hy]
    | some y =>
      rcases lt_trichotomy x.stamp y.stamp with h | h | h
      · obtain ⟨z, hz, h₁, h₂⟩ := exchange_of_lt ha hx hy h
        rw [quiet_iff_of_rep ha hb h₁ h₂]
        simp only [Meets, hx, hy, lt_asymm h, h, ↓reduceIte, ← stamp_rep_turn_iff ha hy hx h hz]
        rw [and_comm, and_congr_left]
        intro hs
        simp only [Newest, hs]
      · obtain ⟨h₁, h₂⟩ := exchange_of_eq hx hy h
        rw [quiet_iff_of_rep ha hb h₁ h₂]
        simp only [Meets, hx, hy, h, lt_irrefl, ↓reduceIte, true_and]
      · obtain ⟨z, hz, h₂, ⟨-, hun, h₁⟩ | ⟨hno, h₁⟩⟩ := exchange_of_gt ha hb hx hy h
        · rw [quiet_iff_of_rep ha hb h₁ h₂]
          simp only [Meets, hx, hy, h, ↓reduceIte, hun.exists_iff, hun.not_newest, false_and,
            false_or, true_and]
        · rw [quiet_iff_of_rep ha hb h₁ h₂]
          have hno' : ¬ ∃ f, Unearths b x y f ∧ Newest f (a ++ b) :=
            fun ⟨f, hf, _⟩ => hno ⟨f, hf⟩
          simp only [Meets, hx, hy, h, ↓reduceIte, hno', or_false,
            ← stamp_rep_turn_iff hb hx hy h hz]
          rw [and_comm, eq_comm]

/-- A mark that is newer than the pushed one and does not represent its replica goes on being
offered. -/
theorem not_meets_of_newer (hx : rep a = some x) (hy : rep b = some y) (h : y.stamp < x.stamp)
    (hxd : x.deleted = false) (hm : m ∈ b) (hlt : x.stamp < m.stamp) : ¬ Meets a b := by
  have hn : ¬ Newest x (a ++ b) := fun hn =>
    absurd hlt (not_lt.2 (hn m (List.mem_append_right _ hm)))
  simp [Meets, hx, hy, h, hn, Unearths, hxd]

theorem meets_of_live (hx : rep a = some x) (hy : rep b = some y) (h : y.stamp < x.stamp)
    (hxd : x.deleted = false) (hn : Newest x (a ++ b)) : Meets a b := by
  simp [Meets, hx, hy, h, Restamps, hxd, hn]

/-! ## Replicas of one mark -/

/-- What becomes of the mark `y` when `x` is pushed to it. -/
def take (x y : Mark T V) : Mark T V := if y.stamp < x.stamp then absorb x y else y

theorem turn_singleton (x y : Mark T V) : turn [x] [y] = [take x y] := by
  by_cases h : y.stamp < x.stamp
  · have hput : put x [y] = [take x y] := by
      cases hd : y.deleted <;> simp [put, rep_singleton, h, overwrite, take, absorb, hd]
    have hn : 0 < newer [x] [y] :=
      newer_pos (rep_singleton x) ((lacks_iff (rep_singleton y)).2 h)
    have hr : rep (put x [y]) = some (take x y) := by rw [hput, rep_singleton]
    rw [turn, rep_singleton, ← hput]
    exact iterate_put_once hr (by rw [take, if_pos h]; rfl) hn
  · rw [turn_stale (rep_singleton x) (rep_singleton y) h, take, if_neg h]

/-- **Two replicas of one mark** take the newer stamp and value; the older mark stays deleted. -/
theorem exchange_singleton (x y : Mark T V) :
    exchange [x] [y] = ([take y x], [take x y]) := by
  rw [exchange, turn_singleton, turn_singleton]
  by_cases h : y.stamp < x.stamp
  · have hs : ¬ x.stamp < (take x y).stamp := by
      rw [take, if_pos h]
      exact lt_irrefl _
    rw [show take (take x y) x = x from if_neg hs, show take y x = x from if_neg (lt_asymm h)]
  · rw [show take x y = y from if_neg h]

theorem exchange_nil_left (y : Mark T V) : exchange [] [y] = ([y], [y]) := by
  have hr : rep [y] = some y := rep_singleton y
  have h : turn [y] ([] : List (Mark T V)) = [y] := by
    rw [turn, hr]
    exact iterate_put_once (by rw [put_nil, hr]) rfl (newer_pos hr rfl)
  rw [exchange, turn_nil, h]

theorem exchange_nil_right (x : Mark T V) : exchange [x] [] = ([x], [x]) := by
  have hr : rep [x] = some x := rep_singleton x
  have h : turn [x] ([] : List (Mark T V)) = [x] := by
    rw [turn, hr]
    exact iterate_put_once (by rw [put_nil, hr]) rfl (newer_pos hr rfl)
  rw [exchange, h, turn_stale hr hr (lt_irrefl _)]

end

end Lww
