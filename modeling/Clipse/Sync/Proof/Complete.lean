import Clipse.Store.Proof.Reachable
import Clipse.Sync.Proof.Run

/-!
# Sessions that complete

The one thing that can fail between two honest ends is an insert whose clip id is taken.
`session_completes`: a session between stores whose clip ids stand for the same content completes.
-/

namespace Clipse

open Duplex

namespace Session

variable [Blake3]

/-- One id, one content: among the rows of a store and the clips that reach it. -/
structure OneContent (s : Store) (clips : List Clip) : Prop where
  row : ∀ c ∈ clips, ∀ r ∈ s.rows, r.id = c.id → r.hash = c.hash
  clip : ∀ c ∈ clips, ∀ c' ∈ clips, c.id = c'.id → c.hash = c'.hash

/-- Merging a canonical clip whose id is free or its own succeeds. -/
theorem apply_ok {c : Clip} {ctx : SyncContext} (hc : c.Canonical)
    (hid : ∀ r ∈ ctx.store.rows, r.id = c.id → r.hash = c.hash) :
    ∃ a ctx', (apply c).eval ctx = some (.ok a, ctx') := by
  rw [apply, Proc.eval_bind_ok (Proc.eval_read _ _ _), Store.byHashIncludingDeleted_eq]
  cases hr : ctx.store.rep c.hash with
  | none =>
    have hmerge : merge none c = .insert := by simp [merge, hc.hash]
    have hnone := Store.rep_eq_none.1 hr
    obtain ⟨s', hs, -⟩ := Store.insert_fresh hc (fun r hr' he => absurd he (hnone r hr'))
      fun r hr' he => hnone r hr' (hid r hr' he)
    have hi : (insert c).eval ctx = some (.ok (.inserted c.id), { ctx with store := s' }) := by
      rw [insert, Proc.eval_attempt, hs]
      rfl
    simp only [Option.map_none, hmerge]
    rw [Proc.eval_bind_ok hi]
    exact ⟨_, _, rfl⟩
  | some r =>
    by_cases hlt : r.hlc < c.hlc
    · have hmerge : merge (some r.toClip) c = .updateMetadata c.pinned c.deleted := by
        simp [merge, hc.hash, ClipRow.toClip, hlt]
      simp only [Option.map_some, hmerge]
      obtain ⟨ctx₁, now, he, -⟩ :=
        eval_updateMetadata (Store.mem_of_rep hr).1 c.pinned c.deleted rfl rfl
      exact ⟨_, _, he⟩
    · have hmerge : merge (some r.toClip) c = .ignore := by
        simp [merge, hc.hash, ClipRow.toClip, hlt]
      simp only [Option.map_some, hmerge]
      exact ⟨_, _, rfl⟩

/-- The ids and contents after merging a clip are those before and its own. -/
theorem mem_rows_apply {c : Clip} {ctx ctx' : SyncContext} {a : Applied}
    (h : (apply c).eval ctx = some (.ok a, ctx')) {r : ClipRow} (hr : r ∈ ctx'.store.rows) :
    (∃ r₀ ∈ ctx.store.rows, r.id = r₀.id ∧ r.hash = r₀.hash) ∨ r.id = c.id ∧ r.hash = c.hash := by
  rcases apply_cases h with ⟨-, rfl, -⟩ | ⟨-, -, -, -, hrows, -, -⟩ | ⟨r₁, now, -, -, -, -, hrows, -, -⟩
  · exact .inl ⟨r, hr, rfl, rfl⟩
  · rw [hrows] at hr
    rcases List.mem_append.1 hr with hr | hr
    · exact .inl ⟨r, hr, rfl, rfl⟩
    · rw [List.mem_singleton.1 hr]
      exact .inr ⟨rfl, rfl⟩
  · rw [hrows] at hr
    obtain ⟨r₀, hr₀, rfl⟩ := List.mem_map.1 hr
    refine .inl ⟨r₀, hr₀, ?_, ?_⟩
    · split
      · exact absorb_id c now r₀
      · rfl
    · split
      · exact absorb_hash c now r₀
      · rfl

theorem takeAll_ok {clips : List Clip} {ctx : SyncContext} (hc : ∀ c ∈ clips, c.Canonical)
    (hone : OneContent ctx.store clips) (t : Taken) :
    ∃ t' ctx', (takeAll clips t).eval ctx = some (.ok t', ctx') ∧
      ∀ r ∈ ctx'.store.rows, (∃ r₀ ∈ ctx.store.rows, r.id = r₀.id ∧ r.hash = r₀.hash) ∨
        ∃ c ∈ clips, r.id = c.id ∧ r.hash = c.hash := by
  induction clips generalizing t ctx with
  | nil => exact ⟨t, ctx, rfl, fun r hr => .inl ⟨r, hr, rfl, rfl⟩⟩
  | cons c clips ih =>
    obtain ⟨a, ctx₁, ha⟩ := apply_ok (hc c List.mem_cons_self) (hone.row c List.mem_cons_self)
    have hpush : (takePush t c).eval ctx = some (.ok (t.note c a), ctx₁) := by
      rw [takePush, Proc.eval_bind_ok ha]
      rfl
    have hone₁ : OneContent ctx₁.store clips := by
      refine ⟨fun c' hc' r hr he => ?_, fun c' hc' c'' hc'' => ?_⟩
      · rcases mem_rows_apply ha hr with ⟨r₀, hr₀, hid, hh⟩ | ⟨hid, hh⟩
        · exact hh.trans (hone.row c' (List.mem_cons_of_mem _ hc') r₀ hr₀ (hid.symm.trans he))
        · exact hh.trans (hone.clip c List.mem_cons_self c' (List.mem_cons_of_mem _ hc')
            (hid.symm.trans he))
      · exact hone.clip c' (List.mem_cons_of_mem _ hc') c'' (List.mem_cons_of_mem _ hc'')
    obtain ⟨t', ctx', ht, hrows⟩ :=
      ih (fun c' hc' => hc c' (List.mem_cons_of_mem _ hc')) hone₁ (t.note c a)
    refine ⟨t', ctx', by rw [takeAll_cons clips hpush, ht], fun r hr => ?_⟩
    rcases hrows r hr with ⟨r₁, hr₁, hid, hh⟩ | ⟨c', hc', hid, hh⟩
    · rcases mem_rows_apply ha hr₁ with ⟨r₀, hr₀, hid₀, hh₀⟩ | ⟨hid₀, hh₀⟩
      · exact .inl ⟨r₀, hr₀, hid.trans hid₀, hh.trans hh₀⟩
      · exact .inr ⟨c, List.mem_cons_self, hid.trans hid₀, hh.trans hh₀⟩
    · exact .inr ⟨c', List.mem_cons_of_mem _ hc', hid, hh⟩

/-- A clip that comes to a store without rows is stored, and its blobs are to be asked for. -/
theorem takeAll_new {c : Clip} {ctx : SyncContext} (hc : c.Canonical) (hrows : ctx.store.rows = [])
    (o : SyncOutcome) :
    ∃ t ctx', (takeAll [c] { outcome := o }).eval ctx = some (.ok t, ctx') ∧
      t.missingBlobs = c.blobDigests ∧ ctx'.store.rows = [.of c] ∧
      Store.SameBlobs ctx.store ctx'.store := by
  have hnone : ctx.store.rep c.hash = none :=
    Store.rep_eq_none.2 fun r hr => by
      rw [hrows] at hr
      cases hr
  obtain ⟨a, ctx', ha⟩ := apply_ok hc fun r hr => by
    rw [hrows] at hr
    cases hr
  have hpush : (takePush { outcome := o } c).eval ctx =
      some (.ok (Taken.note { outcome := o } c a), ctx') := by
    rw [takePush, Proc.eval_bind_ok ha]
    rfl
  refine ⟨Taken.note { outcome := o } c a, ctx', by rw [takeAll_cons [] hpush, takeAll_nil], ?_⟩
  rcases apply_cases ha with ⟨-, -, hf | ⟨r, hr, -⟩⟩ | ⟨rfl, -, -, -, hr, hb, -⟩ |
    ⟨r, -, -, -, hr, -⟩
  · rw [hc.hash] at hf
    cases hf
  · rw [hnone] at hr
    cases hr
  · rw [hrows, List.nil_append] at hr
    exact ⟨List.nil_append _, hr, hb⟩
  · rw [hnone] at hr
    cases hr

omit [Blake3] in
theorem mem_pushedBy {a b : Store} {c : Clip} (h : c ∈ pushedBy a b) :
    ∃ r, a.rep c.hash = some r ∧ r.toClip = c := by
  obtain ⟨hash, -, hc⟩ := List.mem_filterMap.1 h
  rw [Store.byHashIncludingDeleted_eq] at hc
  obtain ⟨r, hr, rfl⟩ := Option.map_eq_some_iff.1 hc
  have hh : r.toClip.hash = hash := (Store.mem_of_rep hr).2
  exact ⟨r, hh ▸ hr, rfl⟩

theorem sound_takeAll {clips : List Clip} {t t' : Taken} {ctx ctx' : SyncContext}
    (hc : ∀ c ∈ clips, c.Canonical) (hs : Store.Sound ctx.store)
    (h : (takeAll clips t).eval ctx = some (.ok t', ctx')) : Store.Sound ctx'.store := by
  induction clips generalizing t ctx with
  | nil =>
    rw [takeAll_nil] at h
    cases h
    exact hs
  | cons c clips ih =>
    obtain ⟨t₁, ctx₁, hr, h⟩ := takeAll_cons_ok h
    refine ih (fun c' hc' => hc c' (List.mem_cons_of_mem _ hc')) ?_ h
    obtain ⟨x, ha, -⟩ := takePush_ok hr
    rcases apply_cases ha with ⟨-, rfl, -⟩ | ⟨-, -, -, -, hrows, -, -⟩ |
      ⟨r, now, -, -, -, -, hrows, -, -⟩
    · exact hs
    · exact hs.of_rows_append (hc c List.mem_cons_self) hrows
    · refine hs.of_rows_map hrows (fun r' => ?_) fun r' => ?_
      · split
        · exact absorb_payloads c now r'
        · rfl
      · split
        · exact absorb_hash c now r'
        · rfl

section
variable {a b b₁ a' b' : SyncContext} {t : Taken}

/-- The clips of a turn are canonical. -/
theorem canonical_pushedBy {a b : Store} (ha : Store.Sound a) : ∀ c ∈ pushedBy a b, c.Canonical := by
  intro c hc
  obtain ⟨r, hr, rfl⟩ := mem_pushedBy hc
  exact ha r (Store.mem_of_rep hr).1

theorem Turn.sound (h : Turn a b t b₁ a' b') (ha : Store.Sound a.store)
    (hb : Store.Sound b.store) : Store.Sound b'.store := by
  obtain ⟨o, hm⟩ := h.merged
  refine (sound_takeAll (canonical_pushedBy ha) hb hm).of_rows_eq ?_
  rw [h.stored, Store.rows_receiveBlobs]

end

/-- One id, one content, over the rows of both stores. -/
def Compatible (a b : Store) : Prop :=
  ∀ r ∈ a.rows ++ b.rows, ∀ r' ∈ a.rows ++ b.rows, r.id = r'.id → r.hash = r'.hash

omit [Blake3] in
theorem oneContent_pushedBy {a b : Store} (h : Compatible a b) : OneContent b (pushedBy a b) := by
  have hmem : ∀ c ∈ pushedBy a b, ∃ r ∈ a.rows, r.toClip = c := by
    intro c hc
    obtain ⟨r, hr, he⟩ := mem_pushedBy hc
    exact ⟨r, (Store.mem_of_rep hr).1, he⟩
  refine ⟨fun c hc r hr he => ?_, fun c hc c' hc' he => ?_⟩
  · obtain ⟨r₀, hr₀, rfl⟩ := hmem c hc
    exact h r (List.mem_append_right _ hr) r₀ (List.mem_append_left _ hr₀) he
  · obtain ⟨r₀, hr₀, rfl⟩ := hmem c hc
    obtain ⟨r₁, hr₁, rfl⟩ := hmem c' hc'
    exact h r₀ (List.mem_append_left _ hr₀) r₁ (List.mem_append_left _ hr₁) he

/-- **A session between compatible stores completes.** -/
theorem session_completes {a b : SyncContext} (ha : Store.Sound a.store)
    (hb : Store.Sound b.store) (h : Compatible a.store b.store) (epochA epochB : UInt64) :
    ∃ F, Completes (sessionLink a b epochA epochB) F := by
  obtain ⟨t, b₁, hm, hrows⟩ :=
    takeAll_ok (canonical_pushedBy ha) (oneContent_pushedBy h) { outcome := {} }
  obtain ⟨a', b', oa, ob, hlc, hturn, hs₁⟩ := @steps_turn _ _ a b takeTheirHistory offerOurHistory
    {} {} [.sent (helloOf a epochA), .received (helloOf b epochB)]
    [.received (helloOf a epochA), .sent (helloOf b epochB)] t b₁ hm
  have hcomp : Compatible b'.store a'.store := by
    -- the rows of `b'` have the ids and contents of rows that were there before
    have hb' : ∀ r ∈ b'.store.rows ++ a'.store.rows,
        ∃ r₀ ∈ a.store.rows ++ b.store.rows, r.id = r₀.id ∧ r.hash = r₀.hash := by
      intro r hr
      rcases List.mem_append.1 hr with hr | hr
      · rw [hturn.stored, Store.rows_receiveBlobs] at hr
        rcases hrows r hr with ⟨r₀, hr₀, hid, hh⟩ | ⟨c, hc, hid, hh⟩
        · exact ⟨r₀, List.mem_append_right _ hr₀, hid, hh⟩
        · obtain ⟨r₀, hr₀, rfl⟩ := mem_pushedBy hc
          exact ⟨r₀, List.mem_append_left _ (Store.mem_of_rep hr₀).1, hid, hh⟩
      · rw [hturn.sender.rows] at hr
        exact ⟨r, List.mem_append_left _ hr, rfl, rfl⟩
    intro r hr r' hr' he
    obtain ⟨r₀, hr₀, hid, hh⟩ := hb' r hr
    obtain ⟨r₁, hr₁, hid', hh'⟩ := hb' r' hr'
    rw [hh, hh']
    exact h r₀ hr₀ r₁ hr₁ (hid ▸ hid' ▸ he)
  obtain ⟨t', a₁, hm', -⟩ := takeAll_ok (canonical_pushedBy (hturn.sound ha hb))
    (oneContent_pushedBy hcomp) { outcome := oa }
  obtain ⟨b'', a'', ob', oa', hlc', -, hs₂⟩ := @steps_turn _ _ b' a' pure pure ob oa
    ([.received (helloOf a epochA), .sent (helloOf b epochB)] ++
      takeLog a.store b.store b₁.store t hlc)
    ([.sent (helloOf a epochA), .received (helloOf b epochB)] ++
      offerLog a.store b.store b₁.store t hlc) t' a₁ hm'
  rw [bind_pure, bind_pure] at hs₂
  exact ⟨_, (steps_hello a b epochA epochB).trans (hs₁.trans hs₂.swap), ⟨_, rfl⟩, ⟨_, rfl⟩⟩

/-! ## Devices of the worked sessions -/

/-- Every row has the same content. -/
def Only (hash : ContentHash) (s : Store) : Prop := ∀ r ∈ s.rows, r.hash = hash

theorem onlyHi_copied (id : Nat) (device : DeviceId) (hlc : Hlc) :
    Only Clip.hiContent (.copied id device hlc) := by
  intro r hr
  rw [(Store.copied_spec id device hlc).2] at hr
  rw [List.mem_singleton.1 hr]
  rfl

theorem onlyHi_recopied (n : Nat) : Only Clip.hiContent (.recopied n) := by
  intro r hr
  rw [(Store.recopied_spec n).2] at hr
  obtain ⟨k, -, rfl⟩ := List.mem_map.1 hr
  rfl

omit [Blake3] in
/-- Stores with one content are compatible. -/
theorem Only.compatible {hash : ContentHash} {a b : Store} (ha : Only hash a) (hb : Only hash b) :
    Compatible a b := by
  have hall : ∀ r ∈ a.rows ++ b.rows, r.hash = hash := by
    intro r hr
    rcases List.mem_append.1 hr with hr | hr
    · exact ha r hr
    · exact hb r hr
  intro r hr r' hr' _
  rw [hall r hr, hall r' hr']

/-- A store that has taken one clip with one blob. -/
theorem exists_copied (quota : UInt64) {digest : ContentHash} {bytes : Bytes} {c : Clip}
    (hof : ContentHash.of bytes = digest) (hc : c.Canonical) :
    ∃ s : Store, s.Reachable ∧ s.rows = [.of c] ∧ s.blobOf digest = bytes := by
  have hs := (Store.Reachable.open_ quota).putBlob hof
  obtain ⟨s, h, hrows⟩ := Store.insert_fresh (s := (Store.open_ quota).putBlob digest bytes) hc
    (fun r hr => by cases hr) fun r hr => by cases hr
  refine ⟨s, hs.insert hc h, hrows, ?_⟩
  rw [Store.blobOf, (Store.sameBlobs_insert h).files, Store.putBlob, Table.find?_insert?_getD,
    if_pos rfl]
  rfl

/-- The device with number `n` and its one copy of the text, made at `wall`. -/
def copier (n : UInt8) (wall : UInt64) : SyncContext :=
  .start (.copied n.toNat (.repeated n) ⟨wall, 0, .repeated n⟩) (.repeated n) fun _ => 0

/-- The first device, which has copied and deleted the text `n` times. -/
def recopier (n : Nat) : SyncContext := .start (.recopied n) (.repeated 1) fun _ => 0

end Session
end Clipse
