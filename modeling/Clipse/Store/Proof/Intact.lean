import Clipse.Store.Proof.Calls
import Clipse.Store.Proof.Quota
import Clipse.Store.Proof.RoundTrip

/-!
# What the operations leave alone

A row keeps its payloads for as long as it is there (`RowHas`), and a pass of the quota keeps the
blobs of live pinned rows (`hasBlob_enforceBlobQuota`). In stores that only the operations have
written, blob files have the bytes that their names promise and no clip has a label twice (`Intact`).
-/

namespace Clipse
namespace Store

/-! ## Rows -/

/-- The row with this id has these payloads. -/
def RowHas (s : Store) (id : ClipId) (payloads : List PayloadRow) : Prop :=
  ∃ r ∈ s.rows, r.id = id ∧ r.payloads = payloads

theorem isSome_get {s : Store} {id : ClipId} : (s.get id).isSome ↔ ∃ r ∈ s.rows, r.id = id := by
  rw [get, loadClip, Option.isSome_map]
  exact Table.find?_isSome

theorem RowHas.get {s : Store} {id : ClipId} {payloads : List PayloadRow}
    (h : s.RowHas id payloads) :
    ∃ r : ClipRow, s.get id = some r.toClip ∧ r.payloads = payloads := by
  obtain ⟨r, hr, rfl, hp⟩ := h
  exact ⟨r, get_of_mem hr, hp⟩

theorem RowHas.of_map {s s' : Store} {id : ClipId} {payloads : List PayloadRow}
    {f : ClipRow → ClipRow} (h : s.RowHas id payloads) (hrows : s'.rows = s.rows.map f)
    (hf : ∀ r, (f r).id = r.id ∧ (f r).payloads = r.payloads) : s'.RowHas id payloads := by
  obtain ⟨r, hr, hid, hp⟩ := h
  refine ⟨f r, ?_, (hf r).1.trans hid, (hf r).2.trans hp⟩
  rw [hrows]
  exact List.mem_map_of_mem hr

theorem RowHas.of_rows_eq {s s' : Store} {id : ClipId} {payloads : List PayloadRow}
    (h : s.RowHas id payloads) (hrows : s'.rows = s.rows) : s'.RowHas id payloads := by
  obtain ⟨r, hr, hp⟩ := h
  exact ⟨r, hrows ▸ hr, hp⟩

/-- No write takes a row away or changes its payloads. -/
theorem RowHas.write [Blake3] {s : Store} {id : ClipId} {payloads : List PayloadRow}
    (h : s.RowHas id payloads) (w : Write) : (s.write w).RowHas id payloads := by
  cases w with
  | insert c =>
    rcases write_insert_cases s c with ⟨e, -, -, -, -, hrows, -⟩ | ⟨-, -, -, -, hrows, -⟩ | ⟨hs, -⟩
    · refine h.of_map hrows fun r => ?_
      split
      · exact ⟨rfl, rfl⟩
      · exact ⟨rfl, rfl⟩
    · obtain ⟨r, hr, hp⟩ := h
      refine ⟨r, ?_, hp⟩
      rw [hrows]
      exact List.mem_append_left _ hr
    · rwa [hs]
  | setPinned id' pinned hlc =>
    refine h.of_map (rows_write_setPinned s id' pinned hlc) fun r => ?_
    split
    · exact ⟨rfl, rfl⟩
    · exact ⟨rfl, rfl⟩
  | delete id' hlc now =>
    refine h.of_map (rows_write_delete s id' hlc now) fun r => ?_
    split
    · exact ⟨rfl, rfl⟩
    · exact ⟨rfl, rfl⟩

/-- A purge that leaves the row leaves it as it is. -/
theorem RowHas.purgeTombstones {s : Store} {id : ClipId} {payloads : List PayloadRow}
    {olderThanMs now : UInt64} (h : s.RowHas id payloads)
    (hstay : ((s.purgeTombstones olderThanMs now).get id).isSome) :
    (s.purgeTombstones olderThanMs now).RowHas id payloads := by
  obtain ⟨r, hr, rfl, hp⟩ := h
  obtain ⟨r', hr', hid⟩ := isSome_get.1 hstay
  rw [s.clip.eq_of_key_eq (rows_purgeTombstones_subset hr') hr hid] at hr'
  exact ⟨r, hr', rfl, hp⟩

/-! ## What a pass of the quota spares -/

/-- The blob files have the bytes that their names promise, and no clip has a label twice. -/
structure Intact [Blake3] (s : Store) : Prop where
  genuine : s.Genuine
  labels : ∀ r ∈ s.rows, (r.payloads.map (·.formatLabel)).Nodup

section
variable [Blake3] {s s' : Store}

theorem Intact.of_rows_eq (h : s.Intact) (hrows : s'.rows = s.rows) (hgenuine : s'.Genuine) :
    s'.Intact :=
  ⟨hgenuine, fun r hr => h.labels r (hrows ▸ hr)⟩

theorem Intact.of_map (h : s.Intact) {f : ClipRow → ClipRow} (hrows : s'.rows = s.rows.map f)
    (hf : ∀ r, (f r).payloads = r.payloads) (hgenuine : s'.Genuine) : s'.Intact := by
  refine ⟨hgenuine, fun r hr => ?_⟩
  rw [hrows] at hr
  obtain ⟨r₀, hr₀, rfl⟩ := List.mem_map.1 hr
  rw [hf r₀]
  exact h.labels r₀ hr₀

theorem Intact.write (h : s.Intact) (w : Write) : (s.write w).Intact := by
  have hgenuine : (s.write w).Genuine := h.genuine.of_files_eq (s.sameBlobs_write w).files
  cases w with
  | insert c =>
    rcases write_insert_cases s c with ⟨e, -, -, -, -, hrows, -⟩ | ⟨-, hn, -, -, hrows, -⟩ | ⟨hs, -⟩
    · refine h.of_map hrows (fun r => ?_) hgenuine
      split
      · rfl
      · rfl
    · refine ⟨hgenuine, fun r hr => ?_⟩
      rw [hrows] at hr
      rcases List.mem_append.1 hr with hr | hr
      · exact h.labels r hr
      · obtain rfl := List.mem_singleton.1 hr
        rw [ClipRow.of, List.map_map]
        exact hn
    · rwa [hs]
  | setPinned id pinned hlc =>
    refine h.of_map (rows_write_setPinned s id pinned hlc) (fun r => ?_) hgenuine
    split
    · rfl
    · rfl
  | delete id hlc now =>
    refine h.of_map (rows_write_delete s id hlc now) (fun r => ?_) hgenuine
    split
    · rfl
    · rfl

theorem Intact.purgeTombstones (h : s.Intact) (olderThanMs now : UInt64) :
    (s.purgeTombstones olderThanMs now).Intact := by
  refine ⟨h.genuine.of_files_subset fun f hf => ?_,
    fun r hr => h.labels r (rows_purgeTombstones_subset hr)⟩
  unfold Store.purgeTombstones at hf
  have hf := files_pruneOrphanBlobs_subset hf
  exact hf

theorem Intact.enforceBlobQuota (h : s.Intact) : s.enforceBlobQuota.Intact :=
  h.of_rows_eq (rows_enforceBlobQuota s)
    (h.genuine.of_files_subset fun _ hf => files_evict_subset hf)

end

end Store
end Clipse
