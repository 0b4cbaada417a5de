import Clipse.Store.Proof.Ops

/-!
# Stores in use

`Reachable`: what the operations of the store make of an empty one, as long as the clips that are
inserted are canonical. Every clip that such a store loads is canonical again (`Reachable.sound`),
so its content hash can be checked by whoever receives it, and every blob file has the bytes that
its name promises (`Reachable.genuine`).
-/

namespace Clipse
namespace Store

variable [Blake3]

/-- A store that any sequence of operations has produced. -/
inductive Reachable : Store → Prop where
  | open_ (quota : UInt64) : Reachable (.open_ quota)
  | insert {s s' : Store} {c : Clip} {o : InsertOutcome} (hs : Reachable s) (hc : c.Canonical)
      (h : s.insert c = .ok (o, s')) : Reachable s'
  | setPinned {s s' : Store} {id : ClipId} {pinned : Bool} {hlc : Hlc} (hs : Reachable s)
      (h : s.setPinned id pinned hlc = .ok s') : Reachable s'
  | delete {s s' : Store} {id : ClipId} {hlc : Hlc} {now : UInt64} (hs : Reachable s)
      (h : s.delete id hlc now = .ok s') : Reachable s'
  | purgeTombstones {s : Store} (olderThanMs now : UInt64) (hs : Reachable s) :
      Reachable (s.purgeTombstones olderThanMs now)
  | putBlob {s : Store} {digest : ContentHash} {bytes : Bytes} (hs : Reachable s)
      (h : ContentHash.of bytes = digest) : Reachable (s.putBlob digest bytes)
  | readBlob {s s' : Store} {digest : ContentHash} {bytes : Bytes} (hs : Reachable s)
      (h : s.readBlob digest = .ok (bytes, s')) : Reachable s'
  | enforceBlobQuota {s : Store} (hs : Reachable s) : Reachable s.enforceBlobQuota

/-- Every row loads as a canonical clip. -/
def Sound (s : Store) : Prop := ∀ r ∈ s.rows, r.toClip.Canonical

/-- A clip is canonical on account of its payloads and its hash alone. -/
theorem canonical_toClip {r r' : ClipRow} (hp : r'.payloads = r.payloads) (hh : r'.hash = r.hash)
    (h : r.toClip.Canonical) : r'.toClip.Canonical := by
  have hl : r'.toClip.payloads = r.toClip.payloads := by
    change r'.loadPayloads = r.loadPayloads
    rw [ClipRow.loadPayloads, hp]
    rfl
  refine ⟨hl ▸ h.sorted, ?_⟩
  have hm : Clip.computeHash r.toClip.payloads = r.hash := of_decide_eq_true h.hash
  refine decide_eq_true ?_
  rw [hl, hm]
  exact hh.symm

theorem Sound.of_rows_eq {s s' : Store} (hs : Sound s) (h : s'.rows = s.rows) : Sound s' := by
  intro r hr
  exact hs r (h ▸ hr)

theorem Sound.of_rows_subset {s s' : Store} (hs : Sound s) (h : ∀ r ∈ s'.rows, r ∈ s.rows) :
    Sound s' :=
  fun r hr => hs r (h r hr)

/-- Writes that leave payloads and hashes alone. -/
theorem Sound.of_rows_map {s s' : Store} {f : ClipRow → ClipRow} (hs : Sound s)
    (h : s'.rows = s.rows.map f) (hp : ∀ r, (f r).payloads = r.payloads)
    (hh : ∀ r, (f r).hash = r.hash) : Sound s' := by
  intro r hr
  rw [h] at hr
  obtain ⟨r₀, hr₀, rfl⟩ := List.mem_map.1 hr
  exact canonical_toClip (hp r₀) (hh r₀) (hs r₀ hr₀)

theorem Sound.of_rows_append {s s' : Store} {c : Clip} (hs : Sound s) (hc : c.Canonical)
    (h : s'.rows = s.rows ++ [.of c]) : Sound s' := by
  intro r hr
  rw [h] at hr
  rcases List.mem_append.1 hr with hr | hr
  · exact hs r hr
  · rw [List.mem_singleton.1 hr]
    exact ClipRow.toClip_of_canonical hc

omit [Blake3] in
@[simp] theorem rows_putBlob (s : Store) (digest : ContentHash) (bytes : Bytes) :
    (s.putBlob digest bytes).rows = s.rows := rfl

omit [Blake3] in
theorem rows_readBlob {s s' : Store} {digest : ContentHash} {bytes : Bytes}
    (h : s.readBlob digest = .ok (bytes, s')) : s'.rows = s.rows := by
  unfold Store.readBlob at h
  split at h
  · cases h
  · cases h
    rfl

omit [Blake3] in
theorem rows_evict (s : Store) (candidates : List BlobMeta) (bytesUsed : Nat) :
    (s.evict candidates bytesUsed).rows = s.rows := by
  induction candidates generalizing s bytesUsed with
  | nil => rfl
  | cons m candidates ih =>
    rw [evict]
    split
    · rfl
    · exact ih _ _

omit [Blake3] in
theorem rows_enforceBlobQuota (s : Store) : s.enforceBlobQuota.rows = s.rows := rows_evict _ _ _

omit [Blake3] in
theorem rows_pruneOrphanBlobs (s : Store) : s.pruneOrphanBlobs.rows = s.rows := by
  unfold pruneOrphanBlobs
  generalize (s.blobMeta.rows.map (·.digest)).filter _ = digests
  induction digests generalizing s with
  | nil => rfl
  | cons d digests ih => exact ih (s.dropBlob d)

omit [Blake3] in
theorem rows_purgeTombstones_subset {s : Store} {olderThanMs now : UInt64} {r : ClipRow}
    (h : r ∈ (s.purgeTombstones olderThanMs now).rows) : r ∈ s.rows := by
  rw [purgeTombstones, rows_pruneOrphanBlobs] at h
  exact List.mem_of_mem_filter h

/-- **Stores in use load canonical clips.** -/
theorem Reachable.sound {s : Store} (h : Reachable s) : Sound s := by
  induction h with
  | open_ quota =>
    intro r hr
    cases hr
  | insert hs hc h ih =>
    rcases insert_cases h with ⟨-, rfl, -⟩ | ⟨e, -, -, -, -, -, hr, -⟩ | ⟨-, -, -, -, hr, -⟩
    · exact ih
    · refine ih.of_rows_map hr (fun r => ?_) fun r => ?_
      · split <;> rfl
      · split <;> rfl
    · exact ih.of_rows_append hc hr
  | setPinned hs h ih =>
    refine ih.of_rows_map (setPinned_eq_ok h).1 (fun r => ?_) fun r => ?_
    · split <;> rfl
    · split <;> rfl
  | delete hs h ih =>
    refine ih.of_rows_map (delete_eq_ok h).1 (fun r => ?_) fun r => ?_
    · split <;> rfl
    · split <;> rfl
  | purgeTombstones olderThanMs now hs ih =>
    exact ih.of_rows_subset fun r hr => rows_purgeTombstones_subset hr
  | putBlob hs h ih => exact ih.of_rows_eq rfl
  | readBlob hs h ih => exact ih.of_rows_eq (rows_readBlob h)
  | enforceBlobQuota hs ih => exact ih.of_rows_eq (rows_enforceBlobQuota _)

/-! ## Blob files -/

/-- Every blob file holds the bytes that its name promises. -/
def Genuine (s : Store) : Prop := ∀ f ∈ s.files.rows, ContentHash.of f.bytes = f.digest

theorem Genuine.of_files_subset {s s' : Store} (hs : Genuine s)
    (h : ∀ f ∈ s'.files.rows, f ∈ s.files.rows) : Genuine s' :=
  fun f hf => hs f (h f hf)

theorem Genuine.of_files_eq {s s' : Store} (hs : Genuine s) (h : s'.files = s.files) :
    Genuine s' :=
  hs.of_files_subset fun _ hf => h ▸ hf

theorem Genuine.putBlob {s : Store} (hs : Genuine s) {digest : ContentHash} {bytes : Bytes}
    (h : ContentHash.of bytes = digest) : Genuine (s.putBlob digest bytes) := by
  intro f hf
  unfold Store.putBlob at hf
  cases hi : s.files.insert? ⟨digest, bytes⟩ with
  | none =>
    simp only [hi, Option.getD_none] at hf
    exact hs f hf
  | some files =>
    simp only [hi, Option.getD_some, (Table.insert?_eq_some.1 hi).2] at hf
    rcases List.mem_append.1 hf with hf | hf
    · exact hs f hf
    · rw [List.mem_singleton.1 hf]
      exact h

omit [Blake3] in
theorem files_dropBlob_subset {s : Store} {digest : ContentHash} {f : BlobFile}
    (h : f ∈ (s.dropBlob digest).files.rows) : f ∈ s.files.rows :=
  List.mem_of_mem_filter h

omit [Blake3] in
theorem files_evict_subset {s : Store} {candidates : List BlobMeta} {bytesUsed : Nat}
    {f : BlobFile} (h : f ∈ (s.evict candidates bytesUsed).files.rows) : f ∈ s.files.rows := by
  induction candidates generalizing s bytesUsed with
  | nil => exact h
  | cons m candidates ih =>
    rw [evict] at h
    split at h
    · exact h
    · exact files_dropBlob_subset (ih h)

omit [Blake3] in
theorem files_pruneOrphanBlobs_subset {s : Store} {f : BlobFile}
    (h : f ∈ s.pruneOrphanBlobs.files.rows) : f ∈ s.files.rows := by
  unfold pruneOrphanBlobs at h
  generalize (s.blobMeta.rows.map (·.digest)).filter _ = digests at h
  induction digests generalizing s with
  | nil => exact h
  | cons d digests ih => exact files_dropBlob_subset (ih h)

/-- **Stores in use hold genuine blobs.** -/
theorem Reachable.genuine {s : Store} (h : Reachable s) : Genuine s := by
  induction h with
  | open_ quota =>
    intro f hf
    cases hf
  | insert hs hc h ih => exact ih.of_files_eq (sameBlobs_insert h).files
  | setPinned hs h ih => exact ih.of_files_eq (setPinned_eq_ok h).2.files
  | delete hs h ih => exact ih.of_files_eq (delete_eq_ok h).2.files
  | purgeTombstones olderThanMs now hs ih =>
    refine ih.of_files_subset fun f hf => ?_
    unfold Store.purgeTombstones at hf
    have hf := files_pruneOrphanBlobs_subset hf
    exact hf
  | putBlob hs h ih => exact ih.putBlob h
  | readBlob hs h ih =>
    unfold Store.readBlob at h
    split at h
    · cases h
    · cases h
      exact ih.of_files_eq rfl
  | enforceBlobQuota hs ih => exact ih.of_files_subset fun f hf => files_evict_subset hf

/-! ## Stores of the worked examples -/

/-- A fresh store in which the text `hi` was copied. -/
def copied (id : Nat) (device : DeviceId) (hlc : Hlc) : Store :=
  (((open_ 0).insert (.hi id device hlc)).toOption.map (·.2)).getD (open_ 0)

theorem copied_spec (id : Nat) (device : DeviceId) (hlc : Hlc) :
    Reachable (copied id device hlc) ∧ (copied id device hlc).rows = [.of (.hi id device hlc)] := by
  have hc := Clip.hi_canonical id device hlc
  obtain ⟨s, h, hr⟩ := insert_fresh (s := open_ 0) hc (fun r hr => by cases hr)
    (fun r hr => by cases hr)
  have he : copied id device hlc = s := by
    rw [copied, h]
    rfl
  exact ⟨he ▸ (Reachable.open_ 0).insert hc h, he ▸ hr⟩

/-- The store after the text `hi` was copied and deleted `n` times. -/
def recopied : Nat → Store
  | 0 => .open_ 0
  | n + 1 =>
    let device := DeviceId.repeated 1
    let copied := (recopied n).insert (.hi n device ⟨UInt64.ofNat (2 * n), 0, device⟩)
    let deleted := copied.bind fun r =>
      r.2.delete ⟨n⟩ ⟨UInt64.ofNat (2 * n + 1), 0, device⟩ (UInt64.ofNat (2 * n + 1))
    deleted.toOption.getD (recopied n)

/-- The tombstone of the `n`th copy. -/
def tombstone (n : Nat) : ClipRow :=
  bury (UInt64.ofNat (2 * n + 1)) ⟨UInt64.ofNat (2 * n + 1), 0, .repeated 1⟩
    (.of (.hi n (.repeated 1) ⟨UInt64.ofNat (2 * n), 0, .repeated 1⟩))

theorem recopied_spec (n : Nat) :
    Reachable (recopied n) ∧ (recopied n).rows = (List.range n).map tombstone := by
  induction n with
  | zero => exact ⟨.open_ 0, rfl⟩
  | succ n ih =>
    obtain ⟨hreach, hrows⟩ := ih
    have hids : ∀ r ∈ (recopied n).rows, r.deleted ∧ r.id ≠ ⟨n⟩ := by
      intro r hr
      rw [hrows] at hr
      obtain ⟨k, hk, rfl⟩ := List.mem_map.1 hr
      refine ⟨rfl, fun he => ?_⟩
      have hkn : k = n := congrArg ClipId.uuid he
      exact absurd (List.mem_range.1 hk) (hkn ▸ lt_irrefl k)
    have hc := Clip.hi_canonical n (.repeated 1) ⟨UInt64.ofNat (2 * n), 0, .repeated 1⟩
    obtain ⟨s₁, h₁, hr₁⟩ := insert_fresh hc (fun r hr _ => (hids r hr).1) fun r hr => (hids r hr).2
    have hmem : ∃ r ∈ s₁.rows, r.id = ⟨n⟩ := by
      rw [hr₁]
      exact ⟨_, List.mem_append_right _ (List.mem_singleton_self _), rfl⟩
    obtain ⟨s₂, h₂⟩ := delete_of_mem hmem
      ⟨UInt64.ofNat (2 * n + 1), 0, .repeated 1⟩ (UInt64.ofNat (2 * n + 1))
    have he : recopied (n + 1) = s₂ := by
      rw [recopied, h₁]
      exact congrArg (fun r => (Except.toOption r).getD (recopied n)) h₂
    refine ⟨he ▸ (hreach.insert hc h₁).delete h₂, ?_⟩
    have hkeep : ∀ r ∈ (recopied n).rows,
        (if r.id = ⟨n⟩ && !r.deleted then
          bury (UInt64.ofNat (2 * n + 1)) ⟨UInt64.ofNat (2 * n + 1), 0, .repeated 1⟩ r
        else r) = r := by
      intro r hr
      simp [(hids r hr).2]
    rw [he, (delete_eq_ok h₂).1, hr₁, List.map_append, List.map_congr_left hkeep, List.map_id', hrows,
      List.range_succ, List.map_append, List.map_singleton, List.map_singleton]
    -- the new row is live and gets deleted
    have hnew : (ClipRow.of (.hi n (.repeated 1) ⟨UInt64.ofNat (2 * n), 0, .repeated 1⟩)).id = ⟨n⟩ &&
        !(ClipRow.of (.hi n (.repeated 1) ⟨UInt64.ofNat (2 * n), 0, .repeated 1⟩)).deleted :=
      Bool.and_eq_true_iff.2 ⟨decide_eq_true rfl, rfl⟩
    rw [if_pos hnew]
    rfl

end Store
end Clipse
