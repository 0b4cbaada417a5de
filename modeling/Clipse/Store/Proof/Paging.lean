import Clipse.Lib.Paging
import Clipse.Store.Proof.Order
import Clipse.Store.Proof.Reachable

/-!
# Paging through the changes

A reader asks for the changes behind the last one it has received, until there are none.

* `page_changesSince`: a query of the database returns a page of the rows in their order.
* `paging_enumerates`: the pages are all rows, oldest first.
* `recent_eq`, `page_eq`: a page of the history is a part of its listing, newest first.
-/

namespace Clipse

namespace Store

variable {s : Store}

/-- The rows in HLC order, with distinct HLCs. -/
theorem byHlc_strict {rows : List ClipRow} (hd : (rows.map (·.hlc)).Nodup)
    (hfit : ∀ r ∈ rows, r.hlc.Fits) : (byHlc rows).Pairwise (fun a b => a.hlc < b.hlc) := by
  have hside : OneSide rows := fun r hr r' hr' => iff_of_true (hfit r hr) (hfit r' hr')
  have hle := (byHlc_ordered_iff rows).2 hside
  have hne : ((byHlc rows).map (·.hlc)).Nodup :=
    ((byHlc_perm rows).map _).nodup_iff.2 hd
  exact hle.imp₂ (fun a b hle hne => lt_of_le_of_ne hle hne) (List.pairwise_map.1 hne)

/-- The signed columns and the text of the device order the rows as their HLCs do. -/
theorem column_lt_iff {a b : Hlc} (ha : a.Fits) (hb : b.Fits) : a.column < b.column ↔ a < b := by
  rw [← not_le, ← not_le, Hlc.column_le_iff (iff_of_true hb ha)]

/-- Filtering before or after sorting. -/
theorem byHlc_filter {rows : List ClipRow} (hd : (rows.map (·.hlc)).Nodup)
    (hfit : ∀ r ∈ rows, r.hlc.Fits) (p : ClipRow → Bool) :
    byHlc (rows.filter p) = (byHlc rows).filter p := by
  have hperm : (byHlc (rows.filter p)).Perm ((byHlc rows).filter p) :=
    (byHlc_perm _).trans ((byHlc_perm rows).symm.filter p)
  have hsub := List.filter_sublist (p := p) (l := rows)
  have hstrict := byHlc_strict (hd.sublist (hsub.map _)) fun r hr => hfit r (hsub.subset hr)
  apply hperm.eq_of_pairwise _ hstrict ((byHlc_strict hd hfit).sublist List.filter_sublist)
  intro a b _ _ hab hba
  exact absurd hab (lt_asymm hba)

/-- **What a query returns**: a page of the rows in HLC order. -/
theorem page_changesSince {cursor : Option Hlc} {limit : Nat} (hd : (s.rows.map (·.hlc)).Nodup)
    (hfit : ∀ r ∈ s.rows, r.hlc.Fits) (hcursor : ∀ h ∈ cursor, h.Fits) :
    s.changesSince cursor limit =
      (Paging.page ClipRow.hlc (byHlc s.rows) limit cursor).map ClipRow.toClip := by
  cases cursor with
  | none =>
    rw [Paging.page_none]
    rfl
  | some cursor =>
    change ((byHlc (s.rows.filter fun r => cursor.column < r.hlc.column)).take limit).map _ = _
    rw [byHlc_filter hd hfit, Paging.page]
    congr 2
    apply List.filter_congr
    intro r hr
    have hr : r.hlc.Fits := hfit r ((byHlc_perm _).mem_iff.1 hr)
    have hlt := column_lt_iff (hcursor cursor rfl) hr
    simpa using hlt

/-- Ask for changes, each time behind the last one that was received, until a page is empty; `none`
if there is no end of them within `fuel`. -/
def allChanges (s : Store) (limit fuel : Nat) : Option (List Clip) :=
  Paging.drain Clip.hlc (fun cursor => s.changesSince cursor limit) fuel none

/-- **Cursor paging**: with distinct HLCs that fit their columns, the pages are all rows, tombstones
included, each once and oldest first, and the last one has the newest HLC. -/
theorem paging_enumerates {limit fuel : Nat} (hd : (s.rows.map (·.hlc)).Nodup)
    (hfit : ∀ r ∈ s.rows, r.hlc.Fits) (hl : 0 < limit) (hfuel : s.rows.length < fuel) :
    (∃ clips, s.allChanges limit fuel = some clips ∧ clips.Perm (s.rows.map ClipRow.toClip) ∧
      clips.Pairwise (fun a b => a.hlc < b.hlc) ∧ s.maxHlc = clips.getLast?.map (·.hlc)) ∧
      ∀ d d' : DeviceId, d.text < d'.text ↔ d < d' := by
  refine ⟨⟨(byHlc s.rows).map ClipRow.toClip, ?_, (byHlc_perm _).map _, ?_, ?_⟩,
    fun _ _ => DeviceId.text_lt_text_iff⟩
  · let page := Paging.page ClipRow.hlc (byHlc s.rows) limit
    have hdrain : Paging.drain ClipRow.hlc page fuel none = some (byHlc s.rows) :=
      Paging.drain_eq hl (byHlc_strict hd hfit) ((byHlc_perm s.rows).length_eq ▸ hfuel)
    have hmap : s.allChanges limit fuel =
        (Paging.drain ClipRow.hlc page fuel none).map (List.map ClipRow.toClip) := by
      refine Paging.drain_map (P := Hlc.Fits) (fun _ => rfl)
        (fun cursor hcursor => page_changesSince hd hfit hcursor) ?_ fuel nofun
      intro cursor r hr
      exact hfit r ((byHlc_perm _).mem_iff.1 (List.mem_of_mem_filter (List.mem_of_mem_take hr)))
    rw [hmap, hdrain]
    rfl
  · exact List.pairwise_map.2 (byHlc_strict hd hfit)
  · rw [List.getLast?_map, Option.map_map]
    rfl

section
attribute [local instance] Blake3.examples

/-- The text `hi` was copied and deleted twice, and copied by another device at the time of the first
deletion: a page with the first tombstone and the copy, one with the other tombstone, and an empty
one. -/
theorem paging_enumerates_recopied :
    ∃ s : Store, Reachable s ∧
      s.rows = [tombstone 0, tombstone 1, .of (.hi 2 (.repeated 2) ⟨1, 0, .repeated 2⟩)] ∧
      s.allChanges 2 4 = some ([tombstone 0, .of (.hi 2 (.repeated 2) ⟨1, 0, .repeated 2⟩),
        tombstone 1].map ClipRow.toClip) ∧
      s.maxHlc = some ⟨3, 0, .repeated 1⟩ := by
  obtain ⟨hreach, hrows⟩ := recopied_spec 2
  have hc := Clip.hi_canonical 2 (.repeated 2) ⟨1, 0, .repeated 2⟩
  have hold : ∀ r ∈ (recopied 2).rows, r.deleted ∧ r.id ≠ ⟨2⟩ := by
    rw [hrows]
    decide
  obtain ⟨s, hinsert, hr⟩ := insert_fresh hc (fun r hr _ => (hold r hr).1) fun r hr => (hold r hr).2
  replace hr : s.rows = [tombstone 0, tombstone 1,
    .of (.hi 2 (.repeated 2) ⟨1, 0, .repeated 2⟩)] := by
    rw [hr, hrows]
    rfl
  have hhlcs : s.rows.map (·.hlc) = [⟨1, 0, .repeated 1⟩, ⟨3, 0, .repeated 1⟩,
    ⟨1, 0, .repeated 2⟩] := by
    rw [hr]
    rfl
  have hd : (s.rows.map (·.hlc)).Nodup := by
    rw [hhlcs]
    decide
  have hfit : ∀ r ∈ s.rows, r.hlc.Fits := by
    refine List.forall_mem_map.1 (?_ : ∀ h ∈ s.rows.map (·.hlc), h.Fits)
    rw [hhlcs]
    decide
  have hfuel : s.rows.length < 4 := by simp [hr]
  obtain ⟨⟨clips, hclips, hperm, hordered, hmax⟩, -⟩ :=
    paging_enumerates hd hfit Nat.two_pos hfuel
  -- there is one way to list them in order
  obtain rfl : clips = [tombstone 0, .of (.hi 2 (.repeated 2) ⟨1, 0, .repeated 2⟩),
      tombstone 1].map ClipRow.toClip := by
    rw [hr] at hperm
    refine (hperm.trans (.cons _ (.swap _ _ _))).eq_of_pairwise ?_ hordered ?_
    · intro a b _ _ hab hba
      exact absurd hab (lt_asymm hba)
    · refine List.pairwise_map.1 (?_ : ([⟨1, 0, .repeated 1⟩, ⟨1, 0, .repeated 2⟩,
        ⟨3, 0, .repeated 1⟩] : List Hlc).Pairwise (· < ·))
      decide
  exact ⟨s, hreach.insert hc hinsert, hr, hclips, hmax⟩

end

/-! ## Pages of the history -/

/-- The rows that a query of the history is about, newest first. -/
def listing (s : Store) (q : HistoryQuery) : List ClipRow :=
  (s.rows.filter fun r => !r.deleted && q.kind.all (r.kind = ·) && (!q.pinnedOnly || r.pinned)).insertionSort
    fun a b => b.hlc.column ≤ a.hlc.column

theorem recent_eq (s : Store) (q : HistoryQuery) :
    s.recent q = (q.page (s.listing q)).map ClipRow.toClip := rfl

/-- An offset and a limit below 2^63 are what they say. -/
theorem page_eq {α : Type} {q : HistoryQuery} (hoffset : q.offset.toNat < 2 ^ 63)
    (hlimit : q.limit.toNat < 2 ^ 63) (rows : List α) :
    q.page rows = (rows.drop q.offset.toNat).take q.limit.toNat := by
  have ho : q.offset.toInt64.toInt.toNat = q.offset.toNat := by
    rw [toInt_toInt64, if_pos hoffset, Int.toNat_natCast]
  have hl : ¬ q.limit.toInt64 < 0 := by
    rw [Int64.lt_iff_toInt_lt, toInt_toInt64, if_pos hlimit]
    simp
  rw [HistoryQuery.page, ho, if_neg hl]

end Store
end Clipse
