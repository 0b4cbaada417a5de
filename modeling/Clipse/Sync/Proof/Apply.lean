import Clipse.Store.Proof.Replica
import Clipse.Sync.Session

/-!
# What merging one clip does

`apply` reads, decides and writes in separate calls. Run without interruption it is one
transition of the store (`apply_cases`): a clip is refused, or its content is new and the clip
becomes a row, or it is newer than the row that represents its content and that row takes its
metadata (`absorb`; a tombstone stays one).
-/

namespace Clipse

open Store

namespace Session

/-- The parts of the context that merging leaves alone. -/
structure SameDevice (ctx ctx' : SyncContext) : Prop where
  clock : ctx'.clock = ctx.clock
  label : ctx'.label = ctx.label
  platform : ctx'.platform = ctx.platform

theorem SameDevice.refl (ctx : SyncContext) : SameDevice ctx ctx := ⟨rfl, rfl, rfl⟩

theorem SameDevice.trans {a b c : SyncContext} (h : SameDevice a b) (h' : SameDevice b c) :
    SameDevice a c :=
  ⟨h'.clock.trans h.clock, h'.label.trans h.label, h'.platform.trans h.platform⟩

variable {c : Clip} {ctx ctx' : SyncContext} {a : Applied}

theorem eval_updateMetadata {r : ClipRow} (hr : r ∈ ctx.store.rows) (pinned deleted : Bool)
    (hp : pinned = c.pinned) (hd : deleted = c.deleted) :
    ∃ ctx' now, (updateMetadata r.toClip c pinned deleted).eval ctx = some (.ok .updated, ctx') ∧
      ctx'.store.rows = absorbed c now r.id ctx.store.rows ∧ SameBlobs ctx.store ctx'.store ∧
      SameDevice ctx ctx' := by
  subst hp hd
  obtain ⟨s₁, h₁⟩ := setPinned_of_mem ⟨r, hr, rfl⟩ c.pinned c.hlc
  obtain ⟨hr₁, hb₁⟩ := setPinned_eq_ok h₁
  have hid : r.toClip.id = r.id := rfl
  have hs : (setPinned r.toClip.id c.pinned c.hlc).eval ctx =
      some (.ok (), { ctx with store := s₁ }) := by
    rw [setPinned, Proc.eval_attempt, hid, h₁]
    rfl
  rw [updateMetadata, Proc.eval_bind_ok hs]
  cases hd : c.deleted with
  | false =>
    have hrows : s₁.rows = absorbed c 0 r.id ctx.store.rows := by
      rw [hr₁]
      exact List.map_congr_left fun r' _ => by simp [absorb, hd]
    simp only [Bool.false_eq_true, ↓reduceIte]
    rw [Proc.eval_bind_ok (Proc.eval_read _ _ _)]
    cases hg : s₁.get r.toClip.id with
    | none => exact ⟨_, 0, rfl, hrows, hb₁, rfl, rfl, rfl⟩
    | some u => exact ⟨_, 0, rfl, hrows, hb₁, rfl, rfl, rfl⟩
  | true =>
    have hmem : ∃ r' ∈ s₁.rows, r'.id = r.id := by
      refine ⟨repin c.pinned c.hlc r, ?_, rfl⟩
      rw [hr₁]
      exact List.mem_map.2 ⟨r, hr, by simp⟩
    obtain ⟨s₂, h₂⟩ := delete_of_mem hmem c.hlc (ctx.time 0)
    obtain ⟨hr₂, hb₂⟩ := delete_eq_ok h₂
    have hd' : (delete r.toClip.id c.hlc).eval { ctx with store := s₁ } =
        some (.ok (), { ctx with store := s₂, time := fun n => ctx.time (n + 1) }) := by
      rw [delete, Proc.eval_attempt, hid]
      simp only [SyncContext.systemTime, h₂]
      rfl
    have hrows : s₂.rows = absorbed c (ctx.time 0) r.id ctx.store.rows := by
      rw [hr₂, hr₁, List.map_map]
      refine List.map_congr_left fun r' _ => ?_
      by_cases he : r'.id = r.id
      · simp only [Function.comp_apply, he, ↓reduceIte, absorb, hd, Bool.true_and]
        cases hdel : r'.deleted <;> simp [repin, he, hdel]
      · simp [he]
    simp only [↓reduceIte]
    rw [Proc.eval_bind_ok hd']
    exact ⟨_, ctx.time 0, rfl, hrows, hb₁.trans hb₂, rfl, rfl, rfl⟩

variable [Blake3]

/-- The outcomes of merging a clip. -/
theorem apply_cases (h : (apply c).eval ctx = some (.ok a, ctx')) :
    (a = .refused ∧ ctx' = ctx ∧
      (c.hashMatches = false ∨ ∃ r, ctx.store.rep c.hash = some r ∧ ¬ r.hlc < c.hlc)) ∨
    (a = .inserted c.id ∧ c.hashMatches ∧ ctx.store.rep c.hash = none ∧
      (∀ r ∈ ctx.store.rows, r.id ≠ c.id) ∧ ctx'.store.rows = ctx.store.rows ++ [.of c] ∧
      SameBlobs ctx.store ctx'.store ∧ SameDevice ctx ctx') ∨
    (∃ r now, a = .updated ∧ c.hashMatches ∧ ctx.store.rep c.hash = some r ∧ r.hlc < c.hlc ∧
      ctx'.store.rows = absorbed c now r.id ctx.store.rows ∧ SameBlobs ctx.store ctx'.store ∧
      SameDevice ctx ctx') := by
  rw [apply, Proc.eval_bind_ok (Proc.eval_read _ _ _), byHashIncludingDeleted_eq] at h
  cases hm : c.hashMatches with
  | false =>
    simp only [merge, hm, Bool.not_false, ↓reduceIte, Proc.eval_pure, Option.some.injEq,
      Prod.mk.injEq, Except.ok.injEq] at h
    exact .inl ⟨h.1.symm, h.2.symm, .inl rfl⟩
  | true =>
    cases hr : ctx.store.rep c.hash with
    | none =>
      simp only [merge, hm, hr, Option.map_none, Bool.not_true, Bool.false_eq_true,
        ↓reduceIte] at h
      rw [Proc.eval_bind, insert, Proc.eval_attempt] at h
      cases hi : ctx.store.insert c with
      | error e =>
        rw [hi] at h
        simp [SyncContext.onStore] at h
      | ok r =>
        obtain ⟨o, s'⟩ := r
        rw [hi] at h
        simp only [SyncContext.onStore] at h
        have hne := rep_eq_none.1 hr
        rcases insert_cases hi with ⟨-, -, hm'⟩ | ⟨e, he, -, -, hh, -⟩ | ⟨-, -, -, hid, hrows, hb⟩
        · rw [hm] at hm'
          cases hm'
        · exact absurd hh (hne e he)
        · cases h
          exact .inr (.inl ⟨rfl, rfl, rfl, hid, hrows, hb, rfl, rfl, rfl⟩)
    | some r =>
      by_cases hlt : r.hlc < c.hlc
      · have hmerge : merge (some r.toClip) c = .updateMetadata c.pinned c.deleted := by
          simp [merge, hm, ClipRow.toClip, hlt]
        simp only [hr, Option.map_some, hmerge] at h
        obtain ⟨ctx₁, now, he, hrows, hb, hs⟩ :=
          eval_updateMetadata (mem_of_rep hr).1 c.pinned c.deleted rfl rfl
        rw [he] at h
        cases h
        exact .inr (.inr ⟨r, now, rfl, rfl, rfl, hlt, hrows, hb, hs⟩)
      · have hmerge : merge (some r.toClip) c = .ignore := by
          simp [merge, hm, ClipRow.toClip, hlt]
        simp only [hr, Option.map_some, hmerge, Proc.eval_pure] at h
        cases h
        exact .inl ⟨rfl, rfl, .inr ⟨r, rfl, hlt⟩⟩

/-- Merging talks to nobody. -/
theorem apply_silent (c : Clip) : (apply c).Silent := by
  refine (Proc.silent_read _ _).bind fun stored => ?_
  split
  · trivial
  · trivial
  · exact (Proc.silent_attempt _ _).bind fun _ =>
      (Proc.silent_act _ _).bind fun _ => (Proc.silent_act _ _).bind fun _ => trivial
  · refine (Proc.silent_attempt _ _).bind fun _ => ?_
    split
    · exact (Proc.silent_attempt _ _).bind fun _ =>
        (Proc.silent_act _ _).bind fun _ => (Proc.silent_act _ _).bind fun _ => trivial
    · refine (Proc.silent_read _ _).bind fun updated => ?_
      cases updated with
      | none => exact (Proc.silent_act _ _).bind fun _ => trivial
      | some u =>
        exact (Proc.silent_act _ _).bind fun _ => (Proc.silent_act _ _).bind fun _ => trivial
  · trivial

end Session
end Clipse
