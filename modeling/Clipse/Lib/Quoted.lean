import Mathlib.Data.List.Basic

/-!
# Quoted literals

A literal stands between two quotes, and a quote in it is doubled. A stop character ends the text
wherever it is, in a literal too.

* `scan_doubled`: a literal is read back from what was written, whatever it contains, as long as
  what follows does not begin with a quote.
-/

namespace Quoted

variable {α : Type} [DecidableEq α]

/-- The inside of a literal as it is written. -/
def doubled (quote : α) (content : List α) : List α :=
  content.flatMap fun c => if c = quote then [quote, quote] else [c]

/-- A literal as it is written. -/
def literal (quote : α) (content : List α) : List α := quote :: (doubled quote content ++ [quote])

/-- Read on to the end of a literal: what it contains, and what follows it. -/
def scan (quote stop : α) : List α → Option (List α × List α)
  | [] => none
  | c :: rest =>
    if c = stop then none
    else if c = quote then
      match rest with
      | [] => some ([], [])
      | d :: rest =>
        if d = quote then (scan quote stop rest).map fun r => (quote :: r.1, r.2)
        else some ([], d :: rest)
    else (scan quote stop rest).map fun r => (c :: r.1, r.2)

variable {quote stop : α}

@[simp] theorem doubled_nil : doubled quote [] = [] := rfl

theorem doubled_cons (c : α) (content : List α) :
    doubled quote (c :: content) =
      (if c = quote then [quote, quote] else [c]) ++ doubled quote content := rfl

theorem scan_close {rest : List α} (hne : quote ≠ stop) (hrest : rest.head? ≠ some quote) :
    scan quote stop (quote :: rest) = some ([], rest) := by
  rw [scan.eq_def]
  cases rest with
  | nil => simp [hne]
  | cons d rest =>
    have hd : d ≠ quote := fun he => hrest (congrArg some he)
    simp [hne, hd]

theorem scan_quote {rest : List α} (hne : quote ≠ stop) :
    scan quote stop (quote :: quote :: rest) =
      (scan quote stop rest).map fun r => (quote :: r.1, r.2) := by
  rw [scan.eq_def]
  simp [hne]

theorem scan_of_ne {c : α} {rest : List α} (hs : c ≠ stop) (hq : c ≠ quote) :
    scan quote stop (c :: rest) = (scan quote stop rest).map fun r => (c :: r.1, r.2) := by
  rw [scan.eq_def]
  simp [hs, hq]

/-- **A literal is read back.** -/
theorem scan_doubled {content rest : List α} (hne : quote ≠ stop) (hstop : stop ∉ content)
    (hrest : rest.head? ≠ some quote) :
    scan quote stop (doubled quote content ++ quote :: rest) = some (content, rest) := by
  induction content with
  | nil => exact scan_close hne hrest
  | cons c content ih =>
    rw [List.mem_cons, not_or] at hstop
    have ih := ih hstop.2
    rw [doubled_cons]
    by_cases hq : c = quote
    · subst hq
      rw [if_pos rfl, List.append_assoc, List.cons_append, List.singleton_append, scan_quote hne, ih]
      rfl
    · rw [if_neg hq, List.append_assoc, List.singleton_append, scan_of_ne (Ne.symm hstop.1) hq, ih]
      rfl

/-- What follows a literal is shorter than what it was read from. -/
theorem length_scan {rest rest' content : List α}
    (h : scan quote stop rest = some (content, rest')) : rest'.length < rest.length := by
  fun_induction scan quote stop rest generalizing content with
  | case1 => cases h
  | case2 => cases h
  | case3 =>
    cases h
    exact Nat.zero_lt_one
  | case4 rest hne ih =>
    obtain ⟨⟨content', rest''⟩, hscan, he⟩ := Option.map_eq_some_iff.1 h
    cases he
    exact Nat.lt_succ_of_lt (Nat.lt_succ_of_lt (ih hscan))
  | case5 =>
    cases h
    exact Nat.lt_succ_self _
  | case6 c rest hs hq ih =>
    obtain ⟨⟨content', rest''⟩, hscan, he⟩ := Option.map_eq_some_iff.1 h
    cases he
    exact Nat.lt_succ_of_lt (ih hscan)

end Quoted
