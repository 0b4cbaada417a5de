import Mathlib.Data.List.Sort
import Mathlib.Data.List.Nodup
import Mathlib.Algebra.GroupWithZero.Nat

/-!
# Tables with a primary key

A table is the list of its rows in row-id order (new rows go to the end) with pairwise different
keys. The statements of SQL that programs run on such a table:

* `find?`: the row with a key (`find?_eq_some`, `find?_eq_none`);
* `insert?`: append a row, refused when its key is taken (`insert?_eq_some`);
* `modify`: `UPDATE … WHERE`, for updates that keep the key (`find?_modify`);
* `erase`: `DELETE … WHERE` (`sum_erase`).

`ORDER BY` is a stable sort (`List.insertionSort`); sorting by different keys does not depend on the
order of the rows (`sort_of_perm`), and sorting by a flag puts the first row without it in front
(`head?_sort_flag`).
-/

/-- The rows of a table with primary key `key`, in row-id order. -/
structure Table {R K : Type} (key : R → K) where
  rows : List R
  nodup : (rows.map key).Nodup

namespace Table

variable {R K : Type} {key : R → K}

instance [DecidableEq R] : DecidableEq (Table key) := fun a b =>
  decidable_of_iff (a.rows = b.rows) (by cases a; cases b; simp)

@[ext] theorem ext {a b : Table key} (h : a.rows = b.rows) : a = b := by
  cases a; cases b; simpa using h

/-- The table without rows. -/
def empty : Table key := ⟨[], List.nodup_nil⟩

theorem eq_of_key_eq (t : Table key) {r r' : R} (h : r ∈ t.rows) (h' : r' ∈ t.rows)
    (hk : key r = key r') : r = r' :=
  List.inj_on_of_nodup_map t.nodup h h' hk

section
variable [DecidableEq K]

/-- The row with primary key `k`. -/
def find? (t : Table key) (k : K) : Option R := t.rows.find? (fun r => key r = k)

theorem find?_eq_some {t : Table key} {k : K} {r : R} :
    t.find? k = some r ↔ r ∈ t.rows ∧ key r = k := by
  constructor
  · intro h
    exact ⟨List.mem_of_find?_eq_some h, by simpa using List.find?_some h⟩
  · rintro ⟨hr, rfl⟩
    cases h : t.find? (key r) with
    | none => simpa using List.find?_eq_none.1 h r hr
    | some r' =>
      have hk : key r' = key r := by simpa using List.find?_some h
      rw [t.eq_of_key_eq (List.mem_of_find?_eq_some h) hr hk]

theorem find?_of_mem {t : Table key} {r : R} (h : r ∈ t.rows) : t.find? (key r) = some r :=
  find?_eq_some.2 ⟨h, rfl⟩

theorem find?_eq_none {t : Table key} {k : K} :
    t.find? k = none ↔ ∀ r ∈ t.rows, key r ≠ k := by
  simp [find?]

theorem find?_isSome {t : Table key} {k : K} :
    (t.find? k).isSome ↔ ∃ r ∈ t.rows, key r = k := by
  simp [find?]

/-- Append a row; a taken key is a constraint violation. -/
def insert? (t : Table key) (r : R) : Option (Table key) :=
  if h : key r ∈ t.rows.map key then none
  else some ⟨t.rows ++ [r], by
    rw [List.map_append, List.map_singleton, List.nodup_append]
    exact ⟨t.nodup, List.nodup_singleton _, fun a ha b hb hab => h (by simp_all)⟩⟩

theorem insert?_eq_some {t t' : Table key} {r : R} :
    t.insert? r = some t' ↔ (∀ r' ∈ t.rows, key r' ≠ key r) ∧ t'.rows = t.rows ++ [r] := by
  by_cases h : key r ∈ t.rows.map key
  · obtain ⟨r', hr', he⟩ := List.mem_map.1 h
    simp only [insert?, h, ↓reduceDIte, reduceCtorEq, false_iff, not_and]
    exact fun hn => absurd he (hn r' hr')
  · simp only [insert?, h, ↓reduceDIte, Option.some.injEq]
    refine ⟨fun he => ⟨fun r' hr' he' => h (List.mem_map.2 ⟨r', hr', he'⟩), he ▸ rfl⟩, ?_⟩
    rintro ⟨-, hr⟩
    exact ext hr.symm

theorem insert?_eq_none {t : Table key} {r : R} :
    t.insert? r = none ↔ ∃ r' ∈ t.rows, key r' = key r := by
  simp [insert?]

/-- `INSERT OR IGNORE`. -/
theorem find?_insert?_getD (t : Table key) (r : R) (k : K) :
    ((t.insert? r).getD t).find? k = (t.find? k).or (if key r = k then some r else none) := by
  cases hi : t.insert? r with
  | none =>
    rw [Option.getD_none]
    split
    next hk =>
      obtain ⟨r', hr', he⟩ := insert?_eq_none.1 hi
      rw [← hk, ← he, find?_of_mem hr', Option.some_or]
    next => rw [Option.or_none]
  | some t' =>
    rw [Option.getD_some, find?, (insert?_eq_some.1 hi).2, List.find?_append, List.find?_singleton,
      find?]
    simp only [decide_eq_true_eq]

end

/-- `UPDATE … WHERE p`, for an update that keeps the key. -/
def modify (t : Table key) (p : R → Bool) (f : R → R) (hf : ∀ r, key (f r) = key r) : Table key :=
  ⟨t.rows.map (fun r => if p r then f r else r), by
    have h : key ∘ (fun r => if p r then f r else r) = key := by
      funext r
      simp only [Function.comp_apply]
      split <;> simp [hf]
    rw [List.map_map, h]
    exact t.nodup⟩

@[simp] theorem rows_modify (t : Table key) (p : R → Bool) (f : R → R)
    (hf : ∀ r, key (f r) = key r) :
    (t.modify p f hf).rows = t.rows.map (fun r => if p r then f r else r) := rfl

theorem find?_modify [DecidableEq K] (t : Table key) (p : R → Bool) (f : R → R)
    (hf : ∀ r, key (f r) = key r) (k : K) :
    (t.modify p f hf).find? k = (t.find? k).map (fun r => if p r then f r else r) := by
  have h : (fun r => decide (key r = k)) ∘ (fun r => if p r then f r else r) =
      fun r => decide (key r = k) := by
    funext r
    simp only [Function.comp_apply]
    split <;> simp [hf]
  rw [find?, rows_modify, List.find?_map, h]
  rfl

/-- `INSERT … ON CONFLICT DO UPDATE` leaves a row of the key, and the keys there were. -/
theorem isSome_find?_upsert [DecidableEq K] (t : Table key) (r : R) (p : R → Bool) (f : R → R)
    (hf : ∀ r, key (f r) = key r) (k : K) :
    (((t.insert? r).getD (t.modify p f hf)).find? k).isSome = ((t.find? k).isSome || k = key r) := by
  cases hi : t.insert? r with
  | none =>
    have hrow := find?_isSome.2 (insert?_eq_none.1 hi)
    rw [Option.getD_none, find?_modify, Option.isSome_map]
    by_cases hk : k = key r
    · subst hk
      rw [hrow, Bool.true_or]
    · simp [hk]
  | some t' =>
    obtain ⟨-, hrows⟩ := insert?_eq_some.1 hi
    rw [Option.getD_some, Bool.eq_iff_iff, find?_isSome, hrows, Bool.or_eq_true, find?_isSome]
    simp only [List.mem_append, List.mem_singleton, decide_eq_true_eq]
    constructor
    · rintro ⟨r', hr' | rfl, he⟩
      · exact .inl ⟨r', hr', he⟩
      · exact .inr he.symm
    · rintro (⟨r', hr', he⟩ | rfl)
      · exact ⟨r', .inl hr', he⟩
      · exact ⟨r, .inr rfl, rfl⟩

/-- `DELETE … WHERE p`. -/
def erase (t : Table key) (p : R → Bool) : Table key :=
  ⟨t.rows.filter (fun r => !p r), t.nodup.sublist (List.filter_sublist.map key)⟩

@[simp] theorem rows_erase (t : Table key) (p : R → Bool) :
    (t.erase p).rows = t.rows.filter (fun r => !p r) := rfl

theorem find?_erase [DecidableEq K] (t : Table key) (k k' : K) :
    (t.erase (key · = k)).find? k' = if k' = k then none else t.find? k' := by
  rw [find?, rows_erase, List.find?_filter]
  split
  next hk =>
    subst hk
    simp
  next hk =>
    refine congrArg (List.find? · t.rows) (funext fun r => ?_)
    by_cases hr : key r = k' <;> simp [hr, hk]

/-- The sum over a table without one of its rows. -/
theorem sum_erase [DecidableEq K] (t : Table key) (f : R → Nat) {r : R} (hr : r ∈ t.rows) :
    ((t.erase (key · = key r)).rows.map f).sum + f r = (t.rows.map f).sum := by
  have hn := t.nodup
  obtain ⟨front, back, hrows⟩ := List.append_of_mem hr
  rw [hrows, List.map_append, List.map_cons, List.nodup_append, List.nodup_cons] at hn
  obtain ⟨-, ⟨hback, -⟩, hfront⟩ := hn
  have hkeep : ∀ l : List R, (∀ a ∈ l, key a ≠ key r) →
      l.filter (fun a => !decide (key a = key r)) = l :=
    fun l h => List.filter_eq_self.2 fun a ha => by simp [h a ha]
  rw [rows_erase, hrows, List.filter_append, List.filter_cons_of_neg (by simp), hkeep, hkeep]
  · simp only [List.map_append, List.map_cons, List.sum_append, List.sum_cons]
    omega
  · intro a ha he
    exact hback (he ▸ List.mem_map_of_mem ha)
  · intro a ha he
    exact hfront _ (List.mem_map_of_mem ha) _ List.mem_cons_self he

/-! ## Sorting by a key -/

/-- `ORDER BY key` over rows with different keys does not depend on the order they come in. -/
theorem sort_of_perm [LinearOrder K] {l l' : List R} (hp : l.Perm l') (hn : (l.map key).Nodup) :
    l.insertionSort (fun a b => key a ≤ key b) = l'.insertionSort (fun a b => key a ≤ key b) := by
  apply List.Perm.eq_of_pairwise _ (List.pairwise_insertionSort (fun a b => key a ≤ key b) l)
    (List.pairwise_insertionSort _ l')
  · exact ((List.perm_insertionSort _ l).trans hp).trans (List.perm_insertionSort _ l').symm
  · intro a b ha hb hab hba
    have ha := (List.mem_insertionSort _).1 ha
    have hb := hp.symm.subset ((List.mem_insertionSort _).1 hb)
    exact List.inj_on_of_nodup_map hn ha hb (le_antisymm hab hba)

/-! ## Sorting by a flag -/

/-- `ORDER BY flag ASC LIMIT 1`: the first row without the flag, else the first row. -/
theorem head?_sort_flag (flag : R → Bool) (l : List R) :
    (l.insertionSort (fun a b => flag a ≤ flag b)).head? =
      (l.find? (fun r => !flag r)).or l.head? := by
  induction l with
  | nil => rfl
  | cons a l ih =>
    rw [List.insertionSort_cons]
    cases hs : l.insertionSort (fun a b => flag a ≤ flag b) with
    | nil =>
      have hl := List.length_insertionSort (fun a b => flag a ≤ flag b) l
      rw [hs, List.length_nil] at hl
      obtain rfl := List.eq_nil_of_length_eq_zero hl.symm
      cases h : flag a <;> simp [h]
    | cons b s =>
      rw [hs, List.head?_cons] at ih
      rw [List.orderedInsert_cons]
      cases ha : flag a
      · simp [ha]
      · cases hf : l.find? (fun r => !flag r) with
        | none =>
          have hb : flag b = true := by
            have hbl : b ∈ l := (List.mem_insertionSort _).1 (hs ▸ List.mem_cons_self)
            simpa using List.find?_eq_none.1 hf b hbl
          simp [ha, hb, hf]
        | some c =>
          have hb : b = c := by simpa [hf] using ih
          have hc : flag c = false := by simpa using List.find?_some hf
          subst hb
          simp [ha, hc, hf, show ¬ (true ≤ false) by decide]

end Table
