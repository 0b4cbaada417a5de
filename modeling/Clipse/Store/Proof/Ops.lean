import Clipse.Store.Basic

/-!
# What each operation of the store does

One lemma per operation, so that no later proof unfolds one.

* `rep`: the row that represents a hash. It is what `by_hash_including_deleted` loads
  (`byHashIncludingDeleted_eq`): the live row if there is one, else the oldest tombstone.
* `insert_cases`, `setPinned_eq_ok`, `delete_eq_ok`: what a successful write did to the rows.
-/

namespace Clipse
namespace Store

/-- The rows of the clip table. -/
abbrev rows (s : Store) : List ClipRow := s.clip.rows

/-- The blob side of two stores is the same. -/
structure SameBlobs (s s' : Store) : Prop where
  files : s'.files = s.files
  blobMeta : s'.blobMeta = s.blobMeta
  quota : s'.blobQuotaBytes = s.blobQuotaBytes
  usedSeq : s'.usedSeq = s.usedSeq

theorem SameBlobs.refl (s : Store) : SameBlobs s s := ⟨rfl, rfl, rfl, rfl⟩

theorem SameBlobs.trans {s s' s'' : Store} (h : SameBlobs s s') (h' : SameBlobs s' s'') :
    SameBlobs s s'' :=
  ⟨h'.files.trans h.files, h'.blobMeta.trans h.blobMeta, h'.quota.trans h.quota,
    h'.usedSeq.trans h.usedSeq⟩

theorem SameBlobs.hasBlob {s s' : Store} (h : SameBlobs s s') (digest : ContentHash) :
    s'.hasBlob digest = s.hasBlob digest := by
  rw [Store.hasBlob, Store.hasBlob, h.files]

/-! ## Lookups -/

/-- The row that stands for a hash: the live one, else the oldest tombstone. -/
def rep (s : Store) (hash : ContentHash) : Option ClipRow :=
  (s.rows.find? (fun r => r.hash = hash && !r.deleted)).or (s.rows.find? (·.hash = hash))

theorem selectId_true (s : Store) (hash : ContentHash) :
    s.selectId hash true = (s.rep hash).map (·.id) := by
  simp only [selectId, ↓reduceIte, rep, rows]
  rw [Table.head?_sort_flag, List.find?_filter, List.head?_filter]
  congr 1
  simp

theorem mem_of_rep {s : Store} {hash : ContentHash} {r : ClipRow} (h : s.rep hash = some r) :
    r ∈ s.rows ∧ r.hash = hash := by
  rcases Option.or_eq_some_iff.1 h with h | ⟨-, h⟩
  · refine ⟨List.mem_of_find?_eq_some h, ?_⟩
    have hp := List.find?_some h
    simp only [Bool.and_eq_true, decide_eq_true_eq] at hp
    exact hp.1
  · exact ⟨List.mem_of_find?_eq_some h, by simpa using List.find?_some h⟩

theorem byHashIncludingDeleted_eq (s : Store) (hash : ContentHash) :
    s.byHashIncludingDeleted hash = (s.rep hash).map ClipRow.toClip := by
  rw [byHashIncludingDeleted, lookupByHash, selectId_true]
  cases h : s.rep hash with
  | none => rfl
  | some r =>
    change (s.clip.find? r.id).map ClipRow.toClip = _
    rw [Table.find?_of_mem (mem_of_rep h).1]

theorem rep_eq_none {s : Store} {hash : ContentHash} :
    s.rep hash = none ↔ ∀ r ∈ s.rows, r.hash ≠ hash := by
  simp only [rep, Option.or_eq_none_iff, List.find?_eq_none, decide_eq_true_eq, Bool.and_eq_true]
  exact ⟨fun h => h.2, fun h => ⟨fun r hr hp => h r hr hp.1, h⟩⟩

/-! ## Writes -/

@[simp] theorem rows_update (s : Store) (p : ClipRow → Bool) (f : ClipRow → ClipRow)
    (hid : ∀ r, (f r).id = r.id) (hhash : ∀ r, (f r).hash = r.hash)
    (hdel : ∀ r, r.deleted → (f r).deleted) :
    (s.update p f hid hhash hdel).rows = s.rows.map (fun r => if p r then f r else r) := rfl

/-- What a re-copy of live content renews in its row. -/
def renew (c : Clip) (r : ClipRow) : ClipRow :=
  { r with hlc := c.hlc, createdAtMs := c.createdAtMs, source := c.source }

section
variable [Blake3] {s s' : Store} {c : Clip} {o : InsertOutcome}

/-- The outcomes of a successful `insert`. -/
theorem insert_cases (h : s.insert c = .ok (o, s')) :
    (o = .rejected ∧ s' = s ∧ c.hashMatches = false) ∨
    (∃ e ∈ s.rows, o = .deduplicated e.id ∧ c.hashMatches ∧ e.hash = c.hash ∧ e.deleted = false ∧
      s'.rows = s.rows.map (fun r => if r.id = e.id then renew c r else r) ∧ SameBlobs s s') ∨
    (o = .inserted c.id ∧ c.hashMatches ∧ (∀ r ∈ s.rows, r.hash = c.hash → r.deleted) ∧
      (∀ r ∈ s.rows, r.id ≠ c.id) ∧ s'.rows = s.rows ++ [.of c] ∧ SameBlobs s s') := by
  unfold insert at h
  split at h
  · next hm =>
    simp only [Except.ok.injEq, Prod.mk.injEq] at h
    exact .inl ⟨h.1.symm, h.2.symm, by simpa using hm⟩
  next hm =>
  have hm : c.hashMatches := by simpa using hm
  split at h
  · next e he =>
    simp only [Except.ok.injEq, Prod.mk.injEq] at h
    obtain ⟨rfl, rfl⟩ := h
    have hp := List.find?_some he
    simp only [Bool.and_eq_true, decide_eq_true_eq, Bool.not_eq_true'] at hp
    refine .inr (.inl ⟨e, List.mem_of_find?_eq_some he, rfl, hm, hp.1, hp.2, ?_, ⟨rfl, rfl, rfl, rfl⟩⟩)
    simp [renew]
  next hlive =>
  split at h
  · cases h
  split at h
  · cases h
  next t ht =>
  simp only [Except.ok.injEq, Prod.mk.injEq] at h
  obtain ⟨rfl, rfl⟩ := h
  obtain ⟨hid, hrows⟩ := Table.insert?_eq_some.1 ht
  refine .inr (.inr ⟨rfl, hm, fun r hr he => ?_, hid, hrows, ⟨rfl, rfl, rfl, rfl⟩⟩)
  simpa [he] using List.find?_eq_none.1 hlive r hr

theorem sameBlobs_insert (h : s.insert c = .ok (o, s')) : SameBlobs s s' := by
  rcases insert_cases h with ⟨-, rfl, -⟩ | ⟨-, -, -, -, -, -, -, hb⟩ | ⟨-, -, -, -, -, hb⟩
  · exact .refl _
  · exact hb
  · exact hb

/-- A clip is only refused with an error when it would get a row of its own. -/
theorem insert_error {e : StoreError} (h : s.insert c = .error e) :
    (∀ r ∈ s.rows, r.hash = c.hash → r.deleted) ∧
      ((c.payloads.map (·.label)).Nodup → ∃ r ∈ s.rows, r.id = c.id) := by
  unfold insert at h
  split at h
  · cases h
  split at h
  · cases h
  next hlive =>
  have hlive : ∀ r ∈ s.rows, r.hash = c.hash → r.deleted := by
    intro r hr he
    simpa [he] using List.find?_eq_none.1 hlive r hr
  split at h
  · next hn =>
    refine ⟨hlive, fun hlab => ?_⟩
    simp [hlab] at hn
  split at h
  · next ht => exact ⟨hlive, fun _ => Table.insert?_eq_none.1 ht⟩
  · cases h

/-- `insert` adds a row for a canonical clip whose id is new and whose content is not live. -/
theorem insert_fresh (hc : c.Canonical) (hlive : ∀ r ∈ s.rows, r.hash = c.hash → r.deleted)
    (hid : ∀ r ∈ s.rows, r.id ≠ c.id) :
    ∃ s', s.insert c = .ok (.inserted c.id, s') ∧ s'.rows = s.rows ++ [.of c] := by
  have hlab : (c.payloads.map (·.label)).Nodup :=
    List.pairwise_map.2 (hc.sorted.imp fun hlt => ne_of_lt hlt)
  cases h : s.insert c with
  | ok r =>
    obtain ⟨o, s'⟩ := r
    rcases insert_cases h with ⟨-, -, hm⟩ | ⟨e, he, -, -, hh, hd, -⟩ | ⟨rfl, -, -, -, hr, -⟩
    · rw [hc.hash] at hm
      cases hm
    · rw [hlive e he hh] at hd
      cases hd
    · exact ⟨s', rfl, hr⟩
  | error e =>
    obtain ⟨r, hr, he⟩ := (insert_error h).2 hlab
    exact absurd he (hid r hr)

end

/-- What a pin changes in its row. -/
def repin (pinned : Bool) (hlc : Hlc) (r : ClipRow) : ClipRow := { r with pinned, hlc }

/-- What a deletion changes in its row. -/
def bury (now : UInt64) (hlc : Hlc) (r : ClipRow) : ClipRow :=
  { r with deleted := true, deletedAtMs := some now, hlc }

theorem setPinned_eq_ok {s s' : Store} {id : ClipId} {pinned : Bool} {hlc : Hlc}
    (h : s.setPinned id pinned hlc = .ok s') :
    s'.rows = s.rows.map (fun r => if r.id = id then repin pinned hlc r else r) ∧
      SameBlobs s s' := by
  unfold setPinned at h
  split at h
  · cases h
  · simp only [Except.ok.injEq] at h
    subst h
    exact ⟨by simp [repin], rfl, rfl, rfl, rfl⟩

theorem setPinned_of_mem {s : Store} {id : ClipId} (hid : ∃ r ∈ s.rows, r.id = id) (pinned : Bool)
    (hlc : Hlc) : ∃ s', s.setPinned id pinned hlc = .ok s' := by
  rw [setPinned, ← Option.not_isSome, Table.find?_isSome.2 hid]
  exact ⟨_, rfl⟩

theorem delete_eq_ok {s s' : Store} {id : ClipId} {hlc : Hlc} {now : UInt64}
    (h : s.delete id hlc now = .ok s') :
    s'.rows = s.rows.map (fun r => if r.id = id && !r.deleted then bury now hlc r else r) ∧
      SameBlobs s s' := by
  unfold delete at h
  split at h
  · cases h
  · simp only [Except.ok.injEq] at h
    subst h
    exact ⟨rfl, rfl, rfl, rfl, rfl⟩

theorem delete_of_mem {s : Store} {id : ClipId} (hid : ∃ r ∈ s.rows, r.id = id) (hlc : Hlc)
    (now : UInt64) : ∃ s', s.delete id hlc now = .ok s' := by
  rw [delete, ← Option.not_isSome, Table.find?_isSome.2 hid]
  exact ⟨_, rfl⟩

/-! ## Blobs -/

theorem hasBlob_putBlob (s : Store) (digest d : ContentHash) (bytes : Bytes) :
    (s.putBlob digest bytes).hasBlob d ↔ d = digest ∨ s.hasBlob d := by
  simp only [hasBlob, putBlob, Table.find?_isSome]
  cases hi : s.files.insert? ⟨digest, bytes⟩ with
  | none =>
    obtain ⟨f, hf, hd⟩ := Table.insert?_eq_none.1 hi
    exact ⟨.inr, fun h => h.elim (fun he => ⟨f, hf, he ▸ hd⟩) id⟩
  | some files =>
    obtain ⟨-, hr⟩ := Table.insert?_eq_some.1 hi
    simp only [Option.getD_some, hr, List.mem_append, List.mem_singleton]
    constructor
    · rintro ⟨f, hf | rfl, hd⟩
      · exact .inr ⟨f, hf, hd⟩
      · exact .inl hd.symm
    · rintro (rfl | ⟨f, hf, hd⟩)
      · exact ⟨_, .inr rfl, rfl⟩
      · exact ⟨f, .inl hf, hd⟩

theorem hasBlob_dropBlob (s : Store) (digest d : ContentHash) :
    (s.dropBlob digest).hasBlob d ↔ s.hasBlob d ∧ d ≠ digest := by
  unfold hasBlob dropBlob
  rw [Table.find?_erase]
  split
  · next he => simp [he]
  · next he => simp [he]

end Store
end Clipse
