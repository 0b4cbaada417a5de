import Clipse.Lib.Stepwise
import Clipse.Store.Proof.Reachable
import Mathlib.Data.List.Pairwise

/-!
# Calls from any thread (`clipse-store/src/store.rs`)

The connection mutex makes every call atomic, so what several threads do to a store is one list of
calls. A call that fails leaves the store as it was (its transaction is rolled back).

* `write_insert_cases`, `rows_write_setPinned`, `rows_write_delete`: the rows and the search index
  after a write, whether it failed or not.
* `eq_of_live`: at most one row of a content hash is live.
-/

namespace Clipse
namespace Store

/-- The calls that stamp an HLC on a row. -/
inductive Write where
  | insert (c : Clip)
  | setPinned (id : ClipId) (pinned : Bool) (hlc : Hlc)
  | delete (id : ClipId) (hlc : Hlc) (now : UInt64)

/-- The HLC that a write carries. -/
def Write.hlc : Write → Hlc
  | .insert c => c.hlc
  | .setPinned _ _ hlc => hlc
  | .delete _ hlc _ => hlc

inductive Call where
  | write (w : Write)
  | purgeTombstones (olderThanMs now : UInt64)

section
variable [Blake3]

def write (s : Store) : Write → Store
  | .insert c => ((s.insert c).toOption.map (·.2)).getD s
  | .setPinned id pinned hlc => (s.setPinned id pinned hlc).toOption.getD s
  | .delete id hlc now => (s.delete id hlc now).toOption.getD s

def call (s : Store) : Call → Store
  | .write w => s.write w
  | .purgeTombstones olderThanMs now => s.purgeTombstones olderThanMs now

end

/-- The rows of the search index for a clip. -/
def ftsOf (s : Store) (id : ClipId) : List FtsRow := s.clipFts.filter (·.clipId = id)

/-! ## The search index -/

@[simp] theorem clipFts_update (s : Store) (p : ClipRow → Bool) (f : ClipRow → ClipRow)
    (hid : ∀ r, (f r).id = r.id) (hhash : ∀ r, (f r).hash = r.hash)
    (hdel : ∀ r, r.deleted → (f r).deleted) :
    (s.update p f hid hhash hdel).clipFts = s.clipFts := rfl

theorem clipFts_insert [Blake3] {s s' : Store} {c : Clip} {o : InsertOutcome}
    (h : s.insert c = .ok (o, s')) :
    s'.clipFts = if o = .inserted c.id then s.clipFts ++ [.of c] else s.clipFts := by
  unfold insert at h
  split at h
  · cases h
    rfl
  split at h
  · cases h
    rfl
  split at h
  · cases h
  split at h
  · cases h
  · cases h
    rw [if_pos rfl]

/-- A row of its own has one payload a label. -/
theorem nodup_of_inserted [Blake3] {s s' : Store} {c : Clip} {id : ClipId}
    (h : s.insert c = .ok (.inserted id, s')) : (c.payloads.map (·.label)).Nodup := by
  unfold insert at h
  split at h
  · cases h
  split at h
  · cases h
  split at h
  · cases h
  next hlab => simpa using hlab

theorem clipFts_setPinned {s s' : Store} {id : ClipId} {pinned : Bool} {hlc : Hlc}
    (h : s.setPinned id pinned hlc = .ok s') : s'.clipFts = s.clipFts := by
  unfold setPinned at h
  split at h
  · cases h
  · cases h
    rfl

theorem clipFts_delete {s s' : Store} {id : ClipId} {hlc : Hlc} {now : UInt64}
    (h : s.delete id hlc now = .ok s') :
    s'.clipFts =
      if ∃ r ∈ s.rows, r.id = id ∧ r.deleted = false then s.clipFts.filter (·.clipId ≠ id)
      else s.clipFts := by
  unfold delete at h
  simp only at h
  split at h
  · cases h
  · cases h
    simp [rows, List.any_eq_true]

theorem clipFts_pruneOrphanBlobs (s : Store) : s.pruneOrphanBlobs.clipFts = s.clipFts := by
  unfold pruneOrphanBlobs
  generalize (s.blobMeta.rows.map (·.digest)).filter _ = digests
  induction digests generalizing s with
  | nil => rfl
  | cons d digests ih => exact ih (s.dropBlob d)

@[simp] theorem clipFts_purgeTombstones (s : Store) (olderThanMs now : UInt64) :
    (s.purgeTombstones olderThanMs now).clipFts = s.clipFts :=
  clipFts_pruneOrphanBlobs _

/-! ## The rows -/

/-- A tombstone that `purge_tombstones` removes. -/
def due (olderThanMs now : UInt64) (r : ClipRow) : Bool :=
  let cutoff := if now < olderThanMs then 0 else now - olderThanMs
  r.deleted && r.deletedAtMs.any fun at_ => at_.toInt64 ≤ cutoff.toInt64

theorem rows_purgeTombstones (s : Store) (olderThanMs now : UInt64) :
    (s.purgeTombstones olderThanMs now).rows = s.rows.filter (fun r => !due olderThanMs now r) :=
  rows_pruneOrphanBlobs _

/-- An update that hits no row. -/
theorem map_eq_self {rows : List ClipRow} {p : ClipRow → Prop} [DecidablePred p]
    {f : ClipRow → ClipRow} (h : ∀ r ∈ rows, ¬ p r) :
    rows.map (fun r => if p r then f r else r) = rows := by
  rw [List.map_congr_left fun r hr => if_neg (h r hr), List.map_id']

/-- At most one row of a content hash is live. -/
theorem eq_of_live {s : Store} {r r' : ClipRow} (hr : r ∈ s.rows) (hr' : r' ∈ s.rows)
    (hh : r.hash = r'.hash) (hd : r.deleted = false) (hd' : r'.deleted = false) : r = r' := by
  let Apart (a b : ClipRow) : Prop := a.hash = b.hash → ¬ (a.deleted = false ∧ b.deleted = false)
  have hsym : Std.Symm Apart := ⟨fun a b h he hba => h he.symm hba.symm⟩
  have hp : s.rows.Pairwise Apart := s.liveLast.imp fun {a b} h he hab => by simp [h he] at hab
  by_contra hne
  exact hp.forall hr hr' hne hh ⟨hd, hd'⟩

section
variable [Blake3] {s s' : Store} {c : Clip} {o : InsertOutcome} {id : ClipId} {pinned : Bool}
  {hlc : Hlc} {now : UInt64} {e : StoreError}

/-- `insert` renews the live row of the content. -/
theorem insert_live {r : ClipRow} (hm : c.hashMatches) (hr : r ∈ s.rows) (hh : r.hash = c.hash)
    (hd : r.deleted = false) : ∃ s', s.insert c = .ok (.deduplicated r.id, s') ∧
      s'.rows = s.rows.map (fun q => if q.id = r.id then renew c q else q) := by
  cases h : s.insert c with
  | error e =>
    have hdel := (insert_error h).1 r hr hh
    rw [hd] at hdel
    cases hdel
  | ok p =>
    obtain ⟨o, s'⟩ := p
    rcases insert_cases h with ⟨-, -, hm'⟩ | ⟨r', hr', rfl, -, hh', hd', hrows, -⟩ |
      ⟨-, -, hlive, -⟩
    · rw [hm] at hm'
      cases hm'
    · obtain rfl := eq_of_live hr hr' (hh.trans hh'.symm) hd hd'
      exact ⟨s', rfl, hrows⟩
    · have hdel := hlive r hr hh
      rw [hd] at hdel
      cases hdel

theorem write_eq_of_insert (h : s.insert c = .ok (o, s')) : s.write (.insert c) = s' := by
  rw [write, h]
  rfl

theorem write_eq_of_insert_error (h : s.insert c = .error e) : s.write (.insert c) = s := by
  rw [write, h]
  rfl

theorem write_eq_of_setPinned (h : s.setPinned id pinned hlc = .ok s') :
    s.write (.setPinned id pinned hlc) = s' := by
  rw [write, h]
  rfl

theorem write_eq_of_setPinned_error (h : s.setPinned id pinned hlc = .error e) :
    s.write (.setPinned id pinned hlc) = s := by
  rw [write, h]
  rfl

theorem write_eq_of_delete (h : s.delete id hlc now = .ok s') :
    s.write (.delete id hlc now) = s' := by
  rw [write, h]
  rfl

theorem write_eq_of_delete_error (h : s.delete id hlc now = .error e) :
    s.write (.delete id hlc now) = s := by
  rw [write, h]
  rfl

end

section
variable [Blake3]

/-- No write of clips touches the blobs. -/
theorem sameBlobs_write (s : Store) (w : Write) : SameBlobs s (s.write w) := by
  cases w with
  | insert c =>
    cases h : s.insert c with
    | error e =>
      rw [write_eq_of_insert_error h]
      exact .refl s
    | ok r =>
      rw [write_eq_of_insert h]
      exact sameBlobs_insert h
  | setPinned id pinned hlc =>
    cases h : s.setPinned id pinned hlc with
    | error e =>
      rw [write_eq_of_setPinned_error h]
      exact .refl s
    | ok s' =>
      rw [write_eq_of_setPinned h]
      exact (setPinned_eq_ok h).2
  | delete id hlc now =>
    cases h : s.delete id hlc now with
    | error e =>
      rw [write_eq_of_delete_error h]
      exact .refl s
    | ok s' =>
      rw [write_eq_of_delete h]
      exact (delete_eq_ok h).2

theorem rows_write_setPinned (s : Store) (id : ClipId) (pinned : Bool) (hlc : Hlc) :
    (s.write (.setPinned id pinned hlc)).rows =
      s.rows.map (fun r => if r.id = id then repin pinned hlc r else r) := by
  cases h : s.setPinned id pinned hlc with
  | ok s' =>
    rw [write_eq_of_setPinned h]
    exact (setPinned_eq_ok h).1
  | error e =>
    rw [write_eq_of_setPinned_error h]
    have hn : ∀ r ∈ s.rows, r.id ≠ id := by
      intro r hr he
      obtain ⟨s', hs⟩ := setPinned_of_mem ⟨r, hr, he⟩ pinned hlc
      rw [hs] at h
      cases h
    exact (map_eq_self hn).symm

theorem clipFts_write_setPinned (s : Store) (id : ClipId) (pinned : Bool) (hlc : Hlc) :
    (s.write (.setPinned id pinned hlc)).clipFts = s.clipFts := by
  cases h : s.setPinned id pinned hlc with
  | ok s' =>
    rw [write_eq_of_setPinned h]
    exact clipFts_setPinned h
  | error e => rw [write_eq_of_setPinned_error h]

theorem rows_write_delete (s : Store) (id : ClipId) (hlc : Hlc) (now : UInt64) :
    (s.write (.delete id hlc now)).rows =
      s.rows.map (fun r => if r.id = id && !r.deleted then bury now hlc r else r) := by
  cases h : s.delete id hlc now with
  | ok s' =>
    rw [write_eq_of_delete h]
    exact (delete_eq_ok h).1
  | error e =>
    rw [write_eq_of_delete_error h]
    have hn : ∀ r ∈ s.rows, ¬ (r.id = id && !r.deleted) := by
      intro r hr he
      simp only [Bool.and_eq_true, decide_eq_true_eq] at he
      obtain ⟨s', hs⟩ := delete_of_mem ⟨r, hr, he.1⟩ hlc now
      rw [hs] at h
      cases h
    exact (map_eq_self hn).symm

theorem clipFts_write_delete (s : Store) (id : ClipId) (hlc : Hlc) (now : UInt64) :
    (s.write (.delete id hlc now)).clipFts =
      if ∃ r ∈ s.rows, r.id = id ∧ r.deleted = false then s.clipFts.filter (·.clipId ≠ id)
      else s.clipFts := by
  cases h : s.delete id hlc now with
  | ok s' =>
    rw [write_eq_of_delete h]
    exact clipFts_delete h
  | error e =>
    rw [write_eq_of_delete_error h]
    have hn : ¬ ∃ r ∈ s.rows, r.id = id ∧ r.deleted = false := by
      rintro ⟨r, hr, he, -⟩
      obtain ⟨s', hs⟩ := delete_of_mem ⟨r, hr, he⟩ hlc now
      rw [hs] at h
      cases h
    exact (if_neg hn).symm

/-- A re-copy of live content renews its row, new content gets a row of its own, and otherwise the
clip is refused. -/
theorem write_insert_cases (s : Store) (c : Clip) :
    (∃ e ∈ s.rows, c.hashMatches ∧ e.hash = c.hash ∧ e.deleted = false ∧
      (s.write (.insert c)).rows = s.rows.map (fun r => if r.id = e.id then renew c r else r) ∧
      (s.write (.insert c)).clipFts = s.clipFts) ∨
    (c.hashMatches ∧ (c.payloads.map (·.label)).Nodup ∧
      (∀ r ∈ s.rows, r.hash = c.hash → r.deleted) ∧ (∀ r ∈ s.rows, r.id ≠ c.id) ∧
      (s.write (.insert c)).rows = s.rows ++ [.of c] ∧
      (s.write (.insert c)).clipFts = s.clipFts ++ [.of c]) ∨
    (s.write (.insert c) = s ∧ (c.hashMatches → (∀ r ∈ s.rows, r.hash = c.hash → r.deleted) ∧
      ((c.payloads.map (·.label)).Nodup → ∃ r ∈ s.rows, r.id = c.id))) := by
  cases h : s.insert c with
  | ok p =>
    obtain ⟨o, s'⟩ := p
    have hf := clipFts_insert h
    rw [write_eq_of_insert h]
    rcases insert_cases h with ⟨-, rfl, hm⟩ | ⟨e, he, ho, hm, hh, hd, hr, -⟩ |
        ⟨ho, hm, hlive, hid, hr, -⟩
    · refine .inr (.inr ⟨rfl, fun hm' => ?_⟩)
      rw [hm] at hm'
      cases hm'
    · rw [ho, if_neg InsertOutcome.noConfusion] at hf
      exact .inl ⟨e, he, hm, hh, hd, hr, hf⟩
    · rw [if_pos ho] at hf
      subst ho
      exact .inr (.inl ⟨hm, nodup_of_inserted h, hlive, hid, hr, hf⟩)
  | error err =>
    rw [write_eq_of_insert_error h]
    exact .inr (.inr ⟨rfl, fun _ => insert_error h⟩)

/-- What a re-copy leaves alone in the live row with its content. -/
theorem write_insert_live {s : Store} {c : Clip} {e : ClipRow} (he : e ∈ s.rows)
    (hh : e.hash = c.hash) (hd : e.deleted = false) :
    (∃ e' ∈ (s.write (.insert c)).rows,
      e'.id = e.id ∧ e'.pinned = e.pinned ∧ e'.payloads = e.payloads ∧ e'.deleted = false) ∧
      (s.write (.insert c)).clipFts = s.clipFts := by
  rcases write_insert_cases s c with ⟨e₀, -, -, -, -, hr, hf⟩ | ⟨-, -, hlive, -⟩ | ⟨hs, -⟩
  · refine ⟨⟨_, hr ▸ List.mem_map_of_mem he, ?_⟩, hf⟩
    split
    · exact ⟨rfl, rfl, rfl, hd⟩
    · exact ⟨rfl, rfl, rfl, hd⟩
  · have hdel := hlive e he hh
    rw [hd] at hdel
    cases hdel
  · rw [hs]
    exact ⟨⟨e, he, rfl, rfl, rfl, hd⟩, rfl⟩

/-- No insert touches a tombstone. -/
theorem write_insert_deleted {s : Store} {c : Clip} {r : ClipRow} (hr : r ∈ s.rows)
    (hd : r.deleted) : r ∈ (s.write (.insert c)).rows := by
  rcases write_insert_cases s c with ⟨e, he, -, -, hlive, hrows, -⟩ | ⟨-, -, -, -, hrows, -⟩ |
      ⟨hs, -⟩
  · have hne : r.id ≠ e.id := by
      intro hid
      rw [s.clip.eq_of_key_eq hr he hid, hlive] at hd
      cases hd
    rw [hrows]
    exact List.mem_map.2 ⟨r, hr, if_neg hne⟩
  · rw [hrows]
    exact List.mem_append_left _ hr
  · rwa [hs]

/-- **Uniqueness.** Whatever was called before, a content hash has at most one live row. An insert
that finds it leaves its id, pin, payloads and search row as they are, and none turns a tombstone
back into a live row. -/
theorem one_live_row (quota : UInt64) (calls : List Call) :
    let s := calls.foldl call (open_ quota)
    (∀ r ∈ s.rows, ∀ r' ∈ s.rows,
      r.hash = r'.hash → r.deleted = false → r'.deleted = false → r = r') ∧
    ∀ c : Clip,
      (∀ e ∈ s.rows, e.hash = c.hash → e.deleted = false →
        (∃ e' ∈ (s.write (.insert c)).rows, e'.id = e.id ∧ e'.pinned = e.pinned ∧
          e'.payloads = e.payloads ∧ e'.deleted = false) ∧
        (s.write (.insert c)).ftsOf e.id = s.ftsOf e.id) ∧
      ∀ r ∈ s.rows, r.deleted → ∀ r' ∈ (s.write (.insert c)).rows, r'.id = r.id → r'.deleted := by
  intro s
  refine ⟨fun r hr r' hr' => eq_of_live hr hr', fun c => ⟨fun e he hh hd => ?_, ?_⟩⟩
  · obtain ⟨hrow, hfts⟩ := write_insert_live he hh hd
    refine ⟨hrow, ?_⟩
    unfold ftsOf
    rw [hfts]
  · intro r hr hd r' hr' hid
    rw [(s.write (.insert c)).clip.eq_of_key_eq hr' (write_insert_deleted hr hd) hid]
    exact hd

end

end Store
end Clipse
