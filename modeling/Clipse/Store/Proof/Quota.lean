import Clipse.Store.Proof.Reachable

/-!
# The blob quota (`clipse-store/src/blob.rs`)

`enforce_blob_quota` leaves a store within its quota, or with nothing but blobs of live pinned clips
(`withinQuota_enforce`). A `put_blob` of a digest that has no row in `blob_meta` adds the size of its
bytes (`blobBytes_putBlob`), and nothing else adds any.
-/

namespace Clipse
namespace Store

/-- What a write is to leave behind. -/
def WithinQuota (s : Store) : Prop :=
  s.blobBytes ≤ s.blobQuotaBytes.toNat ∨ ∀ m ∈ s.blobMeta.rows, m.digest ∈ s.kept

/-- `blob_meta` has a row for the digest. -/
def recorded (s : Store) (digest : ContentHash) : Bool := (s.blobMeta.find? digest).isSome

theorem recorded_iff {s : Store} {digest : ContentHash} :
    s.recorded digest ↔ ∃ m ∈ s.blobMeta.rows, m.digest = digest :=
  Table.find?_isSome

/-! ## Eviction -/

@[simp] theorem quota_dropBlob (s : Store) (digest : ContentHash) :
    (s.dropBlob digest).blobQuotaBytes = s.blobQuotaBytes := rfl

theorem blobBytes_dropBlob {s : Store} {m : BlobMeta} (hm : m ∈ s.blobMeta.rows) :
    (s.dropBlob m.digest).blobBytes = s.blobBytes - m.size := by
  have h := s.blobMeta.sum_erase (·.size) hm
  show ((s.blobMeta.erase (·.digest = m.digest)).rows.map (·.size)).sum = _
  unfold blobBytes
  omega

theorem quota_evict (s : Store) (candidates : List BlobMeta) (bytesUsed : Nat) :
    (s.evict candidates bytesUsed).blobQuotaBytes = s.blobQuotaBytes := by
  induction candidates generalizing s bytesUsed with
  | nil => rfl
  | cons m candidates ih =>
    rw [evict]
    split
    · rfl
    · exact ih _ _

/-- The loop stops within the quota, or has evicted all its candidates. -/
theorem evict_spec {s : Store} {candidates : List BlobMeta}
    (hn : (candidates.map BlobMeta.digest).Nodup) (hc : ∀ m ∈ candidates, m ∈ s.blobMeta.rows) :
    (s.evict candidates s.blobBytes).blobBytes ≤ s.blobQuotaBytes.toNat ∨
      ∀ m ∈ (s.evict candidates s.blobBytes).blobMeta.rows, m ∈ s.blobMeta.rows ∧ m ∉ candidates := by
  induction candidates generalizing s with
  | nil => exact .inr fun m hm => ⟨hm, List.not_mem_nil⟩
  | cons c candidates ih =>
    rw [List.map_cons, List.nodup_cons] at hn
    rw [evict]
    by_cases hle : s.blobBytes ≤ s.blobQuotaBytes.toNat
    · rw [if_pos hle]
      exact .inl hle
    rw [if_neg hle, ← blobBytes_dropBlob (hc c List.mem_cons_self)]
    -- the other candidates are still recorded
    have hrest : ∀ m ∈ candidates, m ∈ (s.dropBlob c.digest).blobMeta.rows := by
      intro m hm
      refine List.mem_filter.2 ⟨hc m (List.mem_cons_of_mem _ hm), ?_⟩
      have hne : m.digest ≠ c.digest := fun he => hn.1 (he ▸ List.mem_map_of_mem hm)
      simp [hne]
    refine (ih hn.2 hrest).imp_right fun h m hm => ?_
    obtain ⟨hmem, hnot⟩ := h m hm
    obtain ⟨hmem, hne⟩ := List.mem_filter.1 hmem
    refine ⟨hmem, fun he => ?_⟩
    rcases List.mem_cons.1 he with rfl | he
    · simp at hne
    · exact hnot he

theorem kept_congr {s s' : Store} (h : s'.rows = s.rows) : s'.kept = s.kept := by
  unfold kept referenced
  rw [show s'.clip.rows = s.clip.rows from h]

theorem candidates_perm (s : Store) :
    s.candidates.Perm (s.blobMeta.rows.filter (·.digest ∉ s.kept)) :=
  List.perm_insertionSort _ _

theorem mem_candidates {s : Store} {m : BlobMeta} :
    m ∈ s.candidates ↔ m ∈ s.blobMeta.rows ∧ m.digest ∉ s.kept := by
  rw [s.candidates_perm.mem_iff, List.mem_filter, decide_eq_true_iff]

/-- **The quota holds after it was enforced.** -/
theorem withinQuota_enforce (s : Store) : s.enforceBlobQuota.WithinQuota := by
  have hn : (s.candidates.map BlobMeta.digest).Nodup :=
    ((s.candidates_perm.map _).nodup_iff).2 (s.blobMeta.nodup.sublist (List.filter_sublist.map _))
  have hc : ∀ m ∈ s.candidates, m ∈ s.blobMeta.rows := fun m hm => (mem_candidates.1 hm).1
  unfold WithinQuota
  rw [enforceBlobQuota, quota_evict, kept_congr (rows_evict _ _ _)]
  refine (evict_spec hn hc).imp_right fun h m hm => ?_
  obtain ⟨hmem, hnot⟩ := h m hm
  by_contra hk
  exact hnot (mem_candidates.2 ⟨hmem, hk⟩)

/-! ## What is added -/

theorem blobBytes_touchBlob (s : Store) (digest : ContentHash) :
    (s.touchBlob digest).blobBytes = s.blobBytes := by
  unfold blobBytes touchBlob
  rw [Table.rows_modify, List.map_map]
  congr 1
  refine List.map_congr_left fun m _ => ?_
  simp only [Function.comp_apply]
  split <;> rfl

theorem blobBytes_putBlob (s : Store) (digest : ContentHash) (bytes : Bytes) :
    (s.putBlob digest bytes).blobBytes =
      s.blobBytes + if s.recorded digest then 0 else bytes.length := by
  cases hi : s.blobMeta.insert? ⟨digest, bytes.length, s.usedSeq + 1⟩ with
  | none =>
    have hrec : s.recorded digest := recorded_iff.2 (Table.insert?_eq_none.1 hi)
    have ht : (s.putBlob digest bytes).blobMeta = (s.touchBlob digest).blobMeta := by
      simp [putBlob, hi]
    rw [if_pos hrec, Nat.add_zero, ← blobBytes_touchBlob s digest, blobBytes, ht]
    rfl
  | some t =>
    obtain ⟨hnew, hrows⟩ := Table.insert?_eq_some.1 hi
    have hrec : ¬ s.recorded digest := by
      rw [recorded_iff]
      rintro ⟨m, hm, he⟩
      exact hnew m hm he
    have ht : (s.putBlob digest bytes).blobMeta = t := by
      simp [putBlob, hi]
    rw [if_neg hrec, blobBytes, ht, hrows]
    simp [blobBytes]

theorem recorded_putBlob (s : Store) (digest d : ContentHash) (bytes : Bytes) :
    (s.putBlob digest bytes).recorded d = (s.recorded d || d = digest) :=
  s.blobMeta.isSome_find?_upsert ⟨digest, bytes.length, s.usedSeq + 1⟩ (·.digest = digest)
    (fun m => { m with usedSeq := s.usedSeq + 1 }) (fun _ => rfl) d

end Store
end Clipse
