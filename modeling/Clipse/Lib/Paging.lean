import Mathlib.Data.List.Basic
import Mathlib.Order.Basic
import Mathlib.Order.Lattice

/-!
# Reading a list in pages

A page holds the first `limit` rows behind a cursor, which is the key of the last row that was
received. Pages are asked for until one is empty (`drain`).

* `page_append`: behind the key of a row are the rows after it.
* `drain_eq`: draining a list whose keys increase returns the list.
* `drain_map`: rows may be converted on the way.
-/

namespace Paging

variable {R K : Type} [LinearOrder K] (key : R → K)

/-- A page behind the cursor. -/
def page (rows : List R) (limit : Nat) (cursor : Option K) : List R :=
  (rows.filter fun r => ∀ k ∈ cursor, k < key r).take limit

/-- Ask for pages, each behind the last row of the one before, until one is empty; `none` if there
is no end of them within `fuel`. -/
def drain (page : Option K → List R) : Nat → Option K → Option (List R)
  | 0, _ => none
  | fuel + 1, cursor =>
    match (page cursor).getLast? with
    | none => some []
    | some last => (drain page fuel (some (key last))).map (page cursor ++ ·)

variable {key} {front back : List R} {limit : Nat}

theorem page_none (rows : List R) : page key rows limit none = rows.take limit := by
  simp [page]

/-- **Behind a row** are the rows after it. -/
theorem page_append {last : R} (h : (front ++ back).Pairwise fun a b => key a < key b)
    (hlast : front.getLast? = some last) :
    page key (front ++ back) limit (some (key last)) = back.take limit := by
  obtain ⟨hfront, -, hcross⟩ := List.pairwise_append.1 h
  have hmem : last ∈ front := List.mem_of_getLast? hlast
  have hback : back.filter (fun r => ∀ k ∈ some (key last), k < key r) = back := by
    apply List.filter_eq_self.2
    intro r hr
    simpa using hcross last hmem r hr
  have hnone : front.filter (fun r => ∀ k ∈ some (key last), k < key r) = [] := by
    apply List.filter_eq_nil_iff.2
    intro r hr
    obtain ⟨init, rfl⟩ := List.getLast?_eq_some_iff.1 hlast
    have hle : key r ≤ key last := by
      rcases List.mem_append.1 hr with hr | hr
      · exact le_of_lt ((List.pairwise_append.1 hfront).2.2 r hr last (List.mem_singleton_self _))
      · rw [List.mem_singleton.1 hr]
    simpa using hle
  rw [page, List.filter_append, hnone, hback, List.nil_append]

/-- What is left of a list, from the rows that were received on. -/
theorem drain_from (front : List R) {fuel : Nat} {cursor : Option K} (hl : 0 < limit)
    (h : (front ++ back).Pairwise fun a b => key a < key b)
    (hcursor : cursor = front.getLast?.map key) (hfuel : back.length < fuel) :
    drain key (page key (front ++ back) limit) fuel cursor = some back := by
  induction fuel generalizing front back cursor with
  | zero => omega
  | succ fuel ih =>
    have hpage : page key (front ++ back) limit cursor = back.take limit := by
      cases hlast : front.getLast? with
      | none =>
        rw [hcursor, hlast, List.getLast?_eq_none_iff.1 hlast]
        exact page_none back
      | some last =>
        rw [hcursor, hlast]
        exact page_append h hlast
    rw [drain, hpage]
    cases hlast : (back.take limit).getLast? with
    | none =>
      have hnil := List.getLast?_eq_none_iff.1 hlast
      simp only [List.take_eq_nil_iff] at hnil
      rw [hnil.resolve_left (by omega)]
    | some last =>
      have hne : back ≠ [] := by
        rintro rfl
        simp at hlast
      have hpos := List.length_pos_iff.2 hne
      have hsplit : front ++ back = (front ++ back.take limit) ++ back.drop limit := by
        rw [List.append_assoc, List.take_append_drop]
      have hrest := @ih (back.drop limit) (front ++ back.take limit) (some (key last))
        (hsplit ▸ h) (by rw [List.getLast?_append, hlast]; rfl) (by
          rw [List.length_drop]
          omega)
      rw [← hsplit] at hrest
      simp only [hrest, Option.map_some, List.take_append_drop]

/-- **The pages of a list are the list.** -/
theorem drain_eq {rows : List R} {fuel : Nat} (hl : 0 < limit)
    (h : rows.Pairwise fun a b => key a < key b) (hfuel : rows.length < fuel) :
    drain key (page key rows limit) fuel none = some rows :=
  drain_from [] hl h rfl hfuel

omit [LinearOrder K] in
/-- Pages that are converted row by row drain to the converted rows. -/
theorem drain_map {R' : Type} {key' : R' → K} {f : R → R'} {P : K → Prop}
    {page : Option K → List R} {page' : Option K → List R'} (hkey : ∀ r, key' (f r) = key r)
    (hpage : ∀ cursor, (∀ k ∈ cursor, P k) → page' cursor = (page cursor).map f)
    (hP : ∀ cursor, ∀ r ∈ page cursor, P (key r)) (fuel : Nat) {cursor : Option K}
    (hcursor : ∀ k ∈ cursor, P k) :
    drain key' page' fuel cursor = (drain key page fuel cursor).map (List.map f) := by
  induction fuel generalizing cursor with
  | zero => rfl
  | succ fuel ih =>
    rw [drain, drain, hpage cursor hcursor, List.getLast?_map]
    cases hlast : (page cursor).getLast? with
    | none => rfl
    | some last =>
      have hnext := @ih (some (key last)) (by
        intro k hk
        rw [← Option.mem_some_iff.1 hk]
        exact hP cursor last (List.mem_of_getLast? hlast))
      simp only [Option.map_some, hkey, hnext, Option.map_map]
      congr 1
      funext rows
      exact (List.map_append ..).symm

end Paging
