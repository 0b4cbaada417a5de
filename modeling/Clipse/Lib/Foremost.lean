import Mathlib.Data.List.Sort
import Mathlib.Data.List.TakeWhile

/-!
# What comes first in an order

`(l.insertionSort r).take n` are the `n` elements of `l` that come first in the order `r`, of equals
those that stand first in `l`. Nothing that is left out comes before them (`rel_of_take_drop`); and
where `n` elements have a property that is inherited by what comes before, all of them have it
(`forall_mem_take_sort`). An element is among them if fewer than `n` come before it
(`mem_take_sort_iff`).
-/

namespace List

variable {α : Type} (r : α → α → Prop) [DecidableRel r] {n : Nat} {l : List α}

theorem mem_of_mem_take_sort {a : α} (h : a ∈ (l.insertionSort r).take n) : a ∈ l :=
  (mem_insertionSort r).1 (mem_of_mem_take h)

theorem mem_take_or_drop_sort {a : α} (h : a ∈ l) :
    a ∈ (l.insertionSort r).take n ∨ a ∈ (l.insertionSort r).drop n := by
  rw [← mem_append, take_append_drop]
  exact (mem_insertionSort r).2 h

theorem length_take_sort : ((l.insertionSort r).take n).length = min n l.length := by
  rw [length_take, length_insertionSort]

theorem nodup_take_sort (h : l.Nodup) : ((l.insertionSort r).take n).Nodup :=
  ((perm_insertionSort r l).nodup_iff.2 h).sublist (take_sublist _ _)

variable [Std.Total r] [IsTrans α r]

/-- **What is taken comes before what is left.** -/
theorem rel_of_take_drop {a b : α} (ha : a ∈ (l.insertionSort r).take n)
    (hb : b ∈ (l.insertionSort r).drop n) : r a b := by
  have hsorted := pairwise_insertionSort r l
  rw [← take_append_drop n (l.insertionSort r), pairwise_append] at hsorted
  exact hsorted.2.2 a ha b hb

/-- **Enough elements of a kind** that comes first fill the place. -/
theorem forall_mem_take_sort {p : α → Bool} (hp : ∀ a b, r a b → p b = true → p a = true)
    (hn : n ≤ l.countP p) {a : α} (ha : a ∈ (l.insertionSort r).take n) : p a = true := by
  by_contra hpa
  have hdrop : ((l.insertionSort r).drop n).countP p = 0 := by
    rw [countP_eq_zero]
    intro b hb hpb
    exact hpa (hp a b (rel_of_take_drop r ha hb) hpb)
  have hsplit : l.countP p = ((l.insertionSort r).take n).countP p := by
    rw [← (perm_insertionSort r l).countP_eq p, ← take_append_drop n (l.insertionSort r),
      countP_append, hdrop, Nat.add_zero, take_append_drop]
  have hlt : ((l.insertionSort r).take n).countP p < ((l.insertionSort r).take n).length := by
    refine Nat.lt_of_le_of_ne countP_le_length fun he => hpa ?_
    exact countP_eq_length.1 he a ha
  have hle : ((l.insertionSort r).take n).length ≤ n := length_take_le n _
  omega

/-- There are as many of that kind among the first. -/
theorem countP_take_sort {p : α → Bool} (hp : ∀ a b, r a b → p b = true → p a = true)
    (hn : n ≤ l.countP p) : ((l.insertionSort r).take n).countP p = n := by
  rw [countP_eq_length.2 fun a ha => forall_mem_take_sort r hp hn ha, length_take_sort]
  exact Nat.min_eq_left (hn.trans countP_le_length)

/-! ## The place of an element -/

omit [Std.Total r] in
/-- What does not stand behind `w` is put before it, what stands behind it is put behind it. -/
theorem orderedInsert_append (a w : α) (before after : List α) (hb : ∀ b ∈ before, r b w) :
    ∃ before' after', (before ++ w :: after).orderedInsert r a = before' ++ w :: after' ∧
      before'.length = before.length + if r a w then 1 else 0 := by
  induction before with
  | nil =>
    rw [nil_append, orderedInsert_cons]
    split
    · exact ⟨[a], after, rfl, rfl⟩
    · exact ⟨[], after.orderedInsert r a, rfl, rfl⟩
  | cons b before ih =>
    obtain ⟨hbw, hrest⟩ := forall_mem_cons.1 hb
    rw [cons_append, orderedInsert_cons]
    by_cases hab : r a b
    · refine ⟨a :: b :: before, after, ?_, ?_⟩
      · rw [if_pos hab]
        rfl
      · rw [if_pos (IsTrans.trans _ _ _ hab hbw), length_cons]
    · obtain ⟨before', after', heq, hlen⟩ := ih hrest
      refine ⟨b :: before', after', ?_, ?_⟩
      · rw [if_neg hab, heq]
        rfl
      · rw [length_cons, length_cons, hlen]
        omega

/-- The element that stands first is put behind those that come strictly before it. -/
theorem length_takeWhile_sort (w : α) (l : List α) :
    ((l.insertionSort r).takeWhile fun b => ¬ r w b).length = l.countP fun b => ¬ r w b := by
  rw [← (perm_insertionSort r l).countP_eq]
  have hsorted := pairwise_insertionSort r l
  generalize l.insertionSort r = sorted at hsorted
  induction sorted with
  | nil => rfl
  | cons b sorted ih =>
    obtain ⟨hb, hrest⟩ := pairwise_cons.1 hsorted
    by_cases hwb : r w b
    · rw [takeWhile_cons_of_neg (by simpa using hwb), length_nil, eq_comm, countP_eq_zero]
      intro c hc
      rcases mem_cons.1 hc with rfl | hc
      · simpa using hwb
      · simpa using IsTrans.trans _ _ _ hwb (hb c hc)
    · rw [takeWhile_cons_of_pos (by simpa using hwb), length_cons, ih hrest,
        countP_cons_of_pos (by simpa using hwb)]

/-- **The rank**: before `w` come, of what stands before it, what need not come behind it, and of
what stands behind it, what must come before it. -/
theorem exists_rank (front back : List α) (w : α) :
    ∃ before after, (front ++ w :: back).insertionSort r = before ++ w :: after ∧
      (∀ b ∈ before, r b w) ∧
      before.length = front.countP (fun a => r a w) + back.countP fun a => ¬ r w a := by
  induction front with
  | nil =>
    refine ⟨_, _, (insertionSort_cons ..).trans (orderedInsert_eq_take_drop r w _), ?_, ?_⟩
    · intro b hb
      have hnot : ¬ r w b := by simpa using mem_takeWhile_imp hb
      exact (Std.Total.total b w).resolve_right hnot
    · rw [length_takeWhile_sort, countP_nil, Nat.zero_add]
  | cons a front ih =>
    obtain ⟨before, after, heq, hb, hlen⟩ := ih
    obtain ⟨before', after', heq', hlen'⟩ := orderedInsert_append r a w before after hb
    refine ⟨before', after', ?_, ?_, ?_⟩
    · rw [cons_append, insertionSort_cons, heq, heq']
    · intro b hb'
      have hsorted := pairwise_insertionSort r (a :: (front ++ w :: back))
      rw [insertionSort_cons, heq, heq', pairwise_append] at hsorted
      exact hsorted.2.2 b hb' w mem_cons_self
    · rw [hlen', hlen, countP_cons]
      by_cases haw : r a w
      · rw [if_pos haw, if_pos (decide_eq_true haw)]
        omega
      · rw [if_neg haw, if_neg (by simpa using haw)]
        omega

/-- **An element is among the first** if fewer than `n` come before it. -/
theorem mem_take_sort_iff {front back : List α} {w : α} (h : (front ++ w :: back).Nodup) :
    w ∈ ((front ++ w :: back).insertionSort r).take n ↔
      front.countP (fun a => r a w) + back.countP (fun a => ¬ r w a) < n := by
  obtain ⟨before, after, heq, -, hlen⟩ := exists_rank r front back w
  have hnodup := (perm_insertionSort r (front ++ w :: back)).nodup_iff.2 h
  rw [heq] at hnodup ⊢
  have hnot : w ∉ before := fun hw => (nodup_append.1 hnodup).2.2 w hw w mem_cons_self rfl
  rw [← hlen]
  constructor
  · intro hw
    by_contra hle
    rw [take_append_of_le_length (Nat.le_of_not_lt hle)] at hw
    exact hnot (mem_of_mem_take hw)
  · intro hlt
    rw [take_append, mem_append]
    refine .inr ?_
    obtain ⟨k, hk⟩ := Nat.exists_eq_succ_of_ne_zero (Nat.sub_ne_zero_of_lt hlt)
    rw [hk, take_succ_cons]
    exact mem_cons_self

end List
