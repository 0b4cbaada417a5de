import Mathlib.Data.List.Infix

/-!
# Runs between separators

`xs.splitOnP p` are the runs of `xs` without an element that satisfies `p`. They hold the rest of the
list (`flatten_splitOnP`), and whatever has no separator in it occurs in the list exactly where it
occurs in one of them (`infix_iff_splitOnP`).
-/

namespace List

variable {α : Type} {p : α → Bool}

theorem flatten_splitOnP (p : α → Bool) (xs : List α) :
    (xs.splitOnP p).flatten = xs.filter (!p ·) := by
  induction xs with
  | nil => rfl
  | cons x xs ih =>
    obtain ⟨first, rest, hsplit⟩ : ∃ first rest, xs.splitOnP p = first :: rest :=
      exists_cons_of_ne_nil (splitOnP_ne_nil p xs)
    rw [splitOnP_cons_eq_if_modifyHead]
    cases hx : p x with
    | true => rw [if_pos rfl, flatten_cons, nil_append, ih, filter_cons_of_neg (by simp [hx])]
    | false =>
      rw [if_neg Bool.false_ne_true, filter_cons_of_pos (by simp [hx]), ← ih, hsplit]
      rfl

/-- The first run stands at the start, and the others behind it. -/
theorem exists_splitOnP (p : α → Bool) (xs : List α) :
    ∃ first rest, xs.splitOnP p = first :: rest ∧ first <+: xs ∧ ∀ run ∈ rest, run <:+: xs := by
  induction xs with
  | nil => exact ⟨[], [], rfl, nil_prefix, by simp⟩
  | cons x xs ih =>
    obtain ⟨first, rest, hsplit, hfirst, hrest⟩ := ih
    have hbehind : ∀ run ∈ rest, run <:+: x :: xs := fun run hrun =>
      (hrest run hrun).trans (suffix_cons x xs).isInfix
    rw [splitOnP_cons_eq_if_modifyHead, hsplit]
    cases p x with
    | true =>
      rw [if_pos rfl]
      refine ⟨[], first :: rest, rfl, nil_prefix, forall_mem_cons.2 ⟨?_, hbehind⟩⟩
      exact hfirst.isInfix.trans (suffix_cons x xs).isInfix
    | false =>
      rw [if_neg Bool.false_ne_true]
      exact ⟨x :: first, rest, rfl, cons_prefix_cons.2 ⟨rfl, hfirst⟩, hbehind⟩

theorem infix_of_mem_splitOnP {xs run : List α} (h : run ∈ xs.splitOnP p) : run <:+: xs := by
  obtain ⟨first, rest, hsplit, hfirst, hrest⟩ := exists_splitOnP p xs
  rw [hsplit, mem_cons] at h
  rcases h with rfl | h
  · exact hfirst.isInfix
  · exact hrest run h

/-- **What has no separator occurs in one run.** -/
theorem infix_iff_splitOnP {l xs : List α} (hl : ∀ x ∈ l, p x = false) :
    l <:+: xs ↔ ∃ run ∈ xs.splitOnP p, l <:+: run := by
  refine ⟨?_, fun ⟨run, hrun, h⟩ => h.trans (infix_of_mem_splitOnP hrun)⟩
  rintro ⟨front, back, rfl⟩
  induction front with
  | nil =>
    rw [nil_append]
    -- the run that `l` begins ends with the first separator behind it
    cases hfind : back.find? p with
    | none =>
      have hall : ∀ x ∈ l ++ back, p x = false := fun x hx =>
        (mem_append.1 hx).elim (hl x) fun hx => by simpa using find?_eq_none.1 hfind x hx
      rw [splitOnP_eq_singleton hall]
      exact ⟨l ++ back, mem_singleton_self _, (prefix_append l back).isInfix⟩
    | some sep =>
      obtain ⟨hsep, between, rest, rfl, hbetween⟩ := find?_eq_some_iff_append.1 hfind
      have hall : ∀ x ∈ l ++ between, p x = false := fun x hx =>
        (mem_append.1 hx).elim (hl x) fun hx => by simpa using hbetween x hx
      rw [← append_assoc, splitOnP_append_cons_of_forall_mem hall sep hsep]
      exact ⟨l ++ between, mem_cons_self, (prefix_append l between).isInfix⟩
  | cons x front ih =>
    obtain ⟨run, hrun, h⟩ := ih
    obtain ⟨first, rest, hsplit, -⟩ := exists_splitOnP p (front ++ l ++ back)
    rw [hsplit, mem_cons] at hrun
    rw [cons_append, cons_append, splitOnP_cons_eq_if_modifyHead, hsplit]
    cases p x with
    | true =>
      rw [if_pos rfl]
      exact ⟨run, mem_cons_of_mem _ (mem_cons.2 hrun), h⟩
    | false =>
      rw [if_neg Bool.false_ne_true, modifyHead_cons]
      rcases hrun with rfl | hrun
      · exact ⟨x :: run, mem_cons_self, h.trans (suffix_cons x run).isInfix⟩
      · exact ⟨run, mem_cons_of_mem _ hrun, h⟩

end List
