import Clipse.Store.Proof.Ops

/-!
# The rows of one content

Sessions act on each content hash separately: all they look at are the rows with that hash
(`rowsOf`), of which one represents the content (`rep_eq`). The writes of a session change the rows
of one hash and leave those of every other hash alone (`rowsOf_append`, `rowsOf_absorbed`).
-/

namespace Clipse

/-- The row that stands for a content: the live one, else the oldest tombstone. -/
def repOf (rows : List ClipRow) : Option ClipRow := (rows.find? (fun r => !r.deleted)).or rows.head?

/-- What an update from a peer does to the row of the content; a tombstone stays one. -/
def absorb (c : Clip) (now : UInt64) (r : ClipRow) : ClipRow :=
  if c.deleted && !r.deleted then Store.bury now c.hlc (Store.repin c.pinned c.hlc r)
  else Store.repin c.pinned c.hlc r

/-- The rows after an update of the row `id`. -/
def absorbed (c : Clip) (now : UInt64) (id : ClipId) (rows : List ClipRow) : List ClipRow :=
  rows.map fun r => if r.id = id then absorb c now r else r

section
variable (c : Clip) (now : UInt64) (r : ClipRow)

@[simp] theorem absorb_id : (absorb c now r).id = r.id := by
  unfold absorb
  split <;> rfl

@[simp] theorem absorb_hash : (absorb c now r).hash = r.hash := by
  unfold absorb
  split <;> rfl

@[simp] theorem absorb_payloads : (absorb c now r).payloads = r.payloads := by
  unfold absorb
  split <;> rfl

@[simp] theorem absorb_hlc : (absorb c now r).hlc = c.hlc := by
  unfold absorb
  split <;> rfl

@[simp] theorem absorb_pinned : (absorb c now r).pinned = c.pinned := by
  unfold absorb
  split <;> rfl

@[simp] theorem absorb_deleted : (absorb c now r).deleted = (r.deleted || c.deleted) := by
  unfold absorb
  cases hc : c.deleted <;> cases hr : r.deleted <;> simp [Store.repin, Store.bury, hr]

end

@[simp] theorem repOf_nil : repOf [] = none := rfl

@[simp] theorem repOf_singleton (r : ClipRow) : repOf [r] = some r := by
  unfold repOf
  cases h : r.deleted <;> simp [h]

theorem repOf_eq_none {rows : List ClipRow} : repOf rows = none ↔ rows = [] := by
  cases rows with
  | nil => simp
  | cons r rows => simp [repOf]

theorem mem_of_repOf {rows : List ClipRow} {r : ClipRow} (h : repOf rows = some r) : r ∈ rows := by
  rcases Option.or_eq_some_iff.1 h with h | ⟨-, h⟩
  · exact List.mem_of_find?_eq_some h
  · exact List.mem_of_mem_head? h

/-- A live row goes before every tombstone. -/
theorem repOf_deleted {rows : List ClipRow} {r : ClipRow} (h : repOf rows = some r)
    (hd : r.deleted) : ∀ r' ∈ rows, r'.deleted := by
  rcases Option.or_eq_some_iff.1 h with h | ⟨h, -⟩
  · have hl := List.find?_some h
    simp [hd] at hl
  · intro r' hr'
    simpa using List.find?_eq_none.1 h r' hr'

namespace Store

/-- The rows with one content hash, oldest first. -/
def rowsOf (s : Store) (hash : ContentHash) : List ClipRow := s.rows.filter (·.hash = hash)

theorem mem_rowsOf {s : Store} {hash : ContentHash} {r : ClipRow} :
    r ∈ s.rowsOf hash ↔ r ∈ s.rows ∧ r.hash = hash := by
  simp [rowsOf]

theorem rep_eq (s : Store) (hash : ContentHash) : s.rep hash = repOf (s.rowsOf hash) := by
  unfold rep repOf rowsOf
  rw [List.find?_filter, List.head?_filter]
  simp

/-- Of the rows with one hash only the newest may be live. -/
theorem rowsOf_pairwise (s : Store) (hash : ContentHash) :
    (s.rowsOf hash).Pairwise (fun r _ => r.deleted) := by
  refine (s.liveLast.filter _).imp_of_mem fun {a b} ha hb h => h ?_
  rw [(mem_rowsOf.1 ha).2, (mem_rowsOf.1 hb).2]

theorem rowsOf_of_rows_eq {s s' : Store} (h : s'.rows = s.rows) (hash : ContentHash) :
    s'.rowsOf hash = s.rowsOf hash := by
  rw [rowsOf, rowsOf, h]

theorem rowsOf_append {s s' : Store} {c : Clip} (h : s'.rows = s.rows ++ [.of c])
    (hash : ContentHash) :
    s'.rowsOf hash = if c.hash = hash then s.rowsOf hash ++ [.of c] else s.rowsOf hash := by
  have hc : (ClipRow.of c).hash = c.hash := rfl
  rw [rowsOf, h, List.filter_append]
  by_cases he : c.hash = hash <;> simp [rowsOf, he, hc]

theorem rowsOf_absorbed {s s' : Store} {c : Clip} {now : UInt64} {r : ClipRow} (hr : r ∈ s.rows)
    (h : s'.rows = absorbed c now r.id s.rows) (hash : ContentHash) :
    s'.rowsOf hash =
      if r.hash = hash then absorbed c now r.id (s.rowsOf hash) else s.rowsOf hash := by
  have hcomm : s'.rowsOf hash = absorbed c now r.id (s.rowsOf hash) := by
    have hp : (fun r : ClipRow => decide (r.hash = hash)) ∘
        (fun r' => if r'.id = r.id then absorb c now r' else r') =
          fun r => decide (r.hash = hash) := by
      funext r'
      simp only [Function.comp_apply]
      split <;> simp
    rw [rowsOf, h, absorbed, absorbed, List.filter_map, hp]
    rfl
  rw [hcomm]
  split
  · rfl
  next hne =>
  -- the updated row has another hash, and no other row has its id
  have hid : ∀ r' ∈ s.rowsOf hash, (if r'.id = r.id then absorb c now r' else r') = r' := by
    intro r' hr'
    obtain ⟨hr', hh⟩ := mem_rowsOf.1 hr'
    have hne' : r'.id ≠ r.id := fun he => hne (s.clip.eq_of_key_eq hr' hr he ▸ hh)
    simp [hne']
  rw [absorbed, List.map_congr_left hid, List.map_id']

end Store
end Clipse
