import Clipse.Sync.Proof.Converge
import Clipse.Sync.Proof.Keep
import Mathlib.Data.List.Forall2

/-!
# Which blobs a session asks for

The blob `Want` names the missing blobs of the clips that the same session has just merged, and
nothing else: a clip that both devices already have with one HLC is not pushed, so a blob of it that
got lost on the way is not asked for.

* `mem_needed_iff`: what a turn asks for.
* `resumed_iff`: a session completes an incomplete clip exactly when every missing blob of it also
  belongs to a clip that this device takes in the session.
-/

namespace Clipse

open Duplex

/-- The store has nothing as new for the content. -/
def Store.Behind (s : Store) (hash : ContentHash) (hlc : Hlc) : Prop :=
  ∀ r, s.rep hash = some r → r.hlc < hlc

theorem Store.Behind.congr {s s' : Store} {hash : ContentHash} {hlc : Hlc}
    (h : s'.rep hash = s.rep hash) : s'.Behind hash hlc ↔ s.Behind hash hlc := by
  rw [Behind, Behind, h]

/-- The rows stand for the same bytes. -/
def SamePayloads (r r' : ClipRow) : Prop := r'.payloads = r.payloads

theorem SamePayloads.blobDigests {r r' : ClipRow} (h : SamePayloads r r') :
    r'.toClip.blobDigests = r.toClip.blobDigests := by
  have hl : r'.toClip.payloads = r.toClip.payloads := by
    change r'.loadPayloads = r.loadPayloads
    rw [ClipRow.loadPayloads, ClipRow.loadPayloads, h]
  rw [Clip.blobDigests, Clip.blobDigests, hl]

namespace Session

section
variable [Blake3]

/-! ## One push -/

section
variable {t t' : Taken} {c : Clip} {ctx ctx' : SyncContext}

/-- A push of something older, or of something equally old, has no effect. -/
theorem takePush_of_not_behind
    (h : (takePush t c).eval ctx = some (.ok t', ctx')) (hb : ¬ ctx.store.Behind c.hash c.hlc) :
    ctx' = ctx ∧ t'.missingBlobs = t.missingBlobs := by
  obtain ⟨a, ha, rfl⟩ := takePush_ok h
  rcases apply_cases ha with ⟨rfl, rfl, -⟩ | ⟨-, -, hr, -⟩ | ⟨r, now, -, -, hr, hlt, -⟩
  · exact ⟨rfl, rfl⟩
  · refine absurd (fun r hr' => ?_) hb
    rw [hr] at hr'
    cases hr'
  · refine absurd (fun r' hr' => ?_) hb
    rw [hr] at hr'
    cases hr'
    exact hlt

/-- A push of something newer changes the rows of its content, and its blobs are looked for. -/
theorem takePush_of_behind (hm : c.hashMatches)
    (h : (takePush t c).eval ctx = some (.ok t', ctx')) (hb : ctx.store.Behind c.hash c.hlc) :
    t'.missingBlobs = t.missingBlobs ++ c.blobDigests ∧
      (ctx.store.rowsOf c.hash ≠ [] →
        List.Forall₂ SamePayloads (ctx.store.rowsOf c.hash) (ctx'.store.rowsOf c.hash)) := by
  obtain ⟨a, ha, rfl⟩ := takePush_ok h
  rcases apply_cases ha with ⟨-, -, hcase⟩ | ⟨rfl, -, hr, -⟩ | ⟨r, now, rfl, -, hr, hlt, hrows, -⟩
  · rcases hcase with hm' | ⟨r, hr, hnlt⟩
    · rw [hm] at hm'
      cases hm'
    · exact absurd (hb r hr) hnlt
  · exact ⟨rfl, fun hne => absurd (repOf_eq_none.1 (Store.rep_eq _ _ ▸ hr)) hne⟩
  · refine ⟨rfl, fun _ => ?_⟩
    obtain ⟨hmem, hhash⟩ := Store.mem_of_rep hr
    rw [Store.rowsOf_absorbed hmem hrows, if_pos hhash, absorbed, List.forall₂_map_right_iff]
    refine List.forall₂_same.2 fun r' _ => ?_
    split
    · exact absorb_payloads c now r'
    · rfl

/-- Other contents are left alone. -/
theorem rowsOf_takePush_of_ne (h : (takePush t c).eval ctx = some (.ok t', ctx'))
    {hash : ContentHash} (hne : c.hash ≠ hash) :
    ctx'.store.rowsOf hash = ctx.store.rowsOf hash := by
  obtain ⟨a, ha, -⟩ := takePush_ok h
  rcases apply_cases ha with ⟨-, rfl, -⟩ | ⟨-, -, -, -, hrows, -⟩ | ⟨r, now, -, -, hr, -, hrows, -⟩
  · rfl
  · rw [Store.rowsOf_append hrows, if_neg hne]
  · obtain ⟨hmem, hhash⟩ := Store.mem_of_rep hr
    rw [Store.rowsOf_absorbed hmem hrows, if_neg (hhash ▸ hne)]

theorem files_takePush (h : (takePush t c).eval ctx = some (.ok t', ctx')) :
    ctx'.store.files = ctx.store.files := by
  obtain ⟨a, ha, -⟩ := takePush_ok h
  rcases apply_cases ha with ⟨-, rfl, -⟩ | ⟨-, -, -, -, -, hb, -⟩ | ⟨r, now, -, -, -, -, -, hb, -⟩
  · rfl
  · exact hb.files
  · exact hb.files

end

/-! ## The receiving loop -/

section
variable {clips : List Clip} {t t' : Taken} {ctx ctx' : SyncContext}

theorem files_takeAll (h : (takeAll clips t).eval ctx = some (.ok t', ctx')) :
    ctx'.store.files = ctx.store.files := by
  induction clips generalizing t ctx with
  | nil =>
    rw [takeAll_nil] at h
    cases h
    rfl
  | cons c clips ih =>
    obtain ⟨t₁, ctx₁, hr, h⟩ := takeAll_cons_ok h
    exact (ih h).trans (files_takePush hr)

/-- The blobs that are looked for are those of the clips that are newer than what was there. -/
theorem mem_missingBlobs (hm : ∀ c ∈ clips, c.hashMatches)
    (hone : ∀ c ∈ clips, ∀ c' ∈ clips, c.hash = c'.hash → c = c')
    (h : (takeAll clips t).eval ctx = some (.ok t', ctx')) {digest : ContentHash} :
    digest ∈ t'.missingBlobs ↔ digest ∈ t.missingBlobs ∨
      ∃ c ∈ clips, ctx.store.Behind c.hash c.hlc ∧ digest ∈ c.blobDigests := by
  induction clips generalizing t ctx with
  | nil =>
    rw [takeAll_nil] at h
    cases h
    simp
  | cons c clips ih =>
    obtain ⟨t₁, ctx₁, hr, h⟩ := takeAll_cons_ok h
    have hmc := hm c List.mem_cons_self
    rw [ih (fun c' hc' => hm c' (List.mem_cons_of_mem _ hc'))
      (fun c' hc' c'' hc'' => hone c' (List.mem_cons_of_mem _ hc') c'' (List.mem_cons_of_mem _ hc''))
      h]
    -- a clip of another content is as new as it was
    have hother : ∀ c' ∈ clips, c' ≠ c →
        (ctx₁.store.Behind c'.hash c'.hlc ↔ ctx.store.Behind c'.hash c'.hlc) := by
      intro c' hc' hne
      have hh : c.hash ≠ c'.hash := fun he =>
        hne (hone c' (List.mem_cons_of_mem _ hc') c List.mem_cons_self he.symm)
      refine Store.Behind.congr ?_
      rw [Store.rep_eq, Store.rep_eq, rowsOf_takePush_of_ne hr hh]
    by_cases hb : ctx.store.Behind c.hash c.hlc
    · rw [(takePush_of_behind hmc hr hb).1, List.mem_append]
      constructor
      · rintro ((h' | h') | ⟨c', hc', hb', hd⟩)
        · exact .inl h'
        · exact .inr ⟨c, List.mem_cons_self, hb, h'⟩
        · by_cases he : c' = c
          · exact .inr ⟨c, List.mem_cons_self, hb, he ▸ hd⟩
          · exact .inr ⟨c', List.mem_cons_of_mem _ hc', (hother c' hc' he).1 hb', hd⟩
      · rintro (h' | ⟨c', hc', hb', hd⟩)
        · exact .inl (.inl h')
        · by_cases he : c' = c
          · exact .inl (.inr (he ▸ hd))
          · have hc'' := (List.mem_cons.1 hc').resolve_left he
            exact .inr ⟨c', hc'', (hother c' hc'' he).2 hb', hd⟩
    · obtain ⟨rfl, he⟩ := takePush_of_not_behind hr hb
      rw [he]
      refine or_congr_right ⟨fun ⟨c', hc', h'⟩ => ⟨c', List.mem_cons_of_mem _ hc', h'⟩, ?_⟩
      rintro ⟨c', hc', hb', hd⟩
      rcases List.mem_cons.1 hc' with rfl | hc'
      · exact absurd hb' hb
      · exact ⟨c', hc', hb', hd⟩

/-- If none of the clips is news, the rows of the content stay as they are. -/
theorem rowsOf_takeAll_of_not_behind {hash : ContentHash} (hm : ∀ c ∈ clips, c.hashMatches)
    (hb : ∀ c ∈ clips, c.hash = hash → ¬ ctx.store.Behind hash c.hlc)
    (h : (takeAll clips t).eval ctx = some (.ok t', ctx')) :
    ctx'.store.rowsOf hash = ctx.store.rowsOf hash := by
  induction clips generalizing t ctx with
  | nil =>
    rw [takeAll_nil] at h
    cases h
    rfl
  | cons c clips ih =>
    obtain ⟨t₁, ctx₁, hr, h⟩ := takeAll_cons_ok h
    have hrows : ctx₁.store.rowsOf hash = ctx.store.rowsOf hash := by
      by_cases he : c.hash = hash
      · have hnb := hb c List.mem_cons_self he
        rw [← he] at hnb
        rw [(takePush_of_not_behind hr hnb).1]
      · exact rowsOf_takePush_of_ne hr he
    have hrep : ctx₁.store.rep hash = ctx.store.rep hash := by
      rw [Store.rep_eq, Store.rep_eq, hrows]
    rw [ih (fun c' hc' => hm c' (List.mem_cons_of_mem _ hc'))
      (fun c' hc' he hbe => hb c' (List.mem_cons_of_mem _ hc') he ((Store.Behind.congr hrep).1 hbe))
      h, hrows]

/-- The rows of a content that is there keep their places and their payloads. -/
theorem payloads_takeAll {hash : ContentHash} (hm : ∀ c ∈ clips, c.hashMatches)
    (hne : ctx.store.rowsOf hash ≠ []) (h : (takeAll clips t).eval ctx = some (.ok t', ctx')) :
    List.Forall₂ SamePayloads (ctx.store.rowsOf hash) (ctx'.store.rowsOf hash) := by
  have hrefl : ∀ l : List ClipRow, List.Forall₂ SamePayloads l l := fun l =>
    List.forall₂_same.2 fun _ _ => rfl
  have htrans : ∀ {l l' l'' : List ClipRow}, List.Forall₂ SamePayloads l l' →
      List.Forall₂ SamePayloads l' l'' → List.Forall₂ SamePayloads l l'' := by
    intro l l' l'' h₁ h₂
    induction h₁ generalizing l'' with
    | nil => exact h₂
    | cons h₁ _ ih =>
      cases h₂ with
      | cons h₂ h₂' => exact .cons (h₂.trans h₁) (ih h₂')
  induction clips generalizing t ctx with
  | nil =>
    rw [takeAll_nil] at h
    cases h
    exact hrefl _
  | cons c clips ih =>
    obtain ⟨t₁, ctx₁, hr, h⟩ := takeAll_cons_ok h
    have hstep : List.Forall₂ SamePayloads (ctx.store.rowsOf hash) (ctx₁.store.rowsOf hash) := by
      by_cases he : c.hash = hash
      · subst he
        by_cases hb : ctx.store.Behind c.hash c.hlc
        · exact (takePush_of_behind (hm c List.mem_cons_self) hr hb).2 hne
        · rw [(takePush_of_not_behind hr hb).1]
          exact hrefl _
      · rw [rowsOf_takePush_of_ne hr he]
        exact hrefl _
    have hne₁ : ctx₁.store.rowsOf hash ≠ [] := by
      intro he
      rw [he] at hstep
      exact hne (List.forall₂_nil_right_iff.1 hstep)
    exact htrans hstep (ih (fun c' hc' => hm c' (List.mem_cons_of_mem _ hc')) hne₁ h)

end

/-! ## The blobs of a turn -/

section
variable {a b b₁ a' b' : SyncContext} {t : Taken} {digest : ContentHash}

omit [Blake3] in
theorem lacks_summary_iff {s : Store} {r : ClipRow} :
    s.lacks r.summary ↔ s.Behind r.hash r.hlc := by
  have hhash : r.summary.hash = r.hash := rfl
  have hhlc : r.summary.hlc = r.hlc := rfl
  rw [Store.lacks, Store.Behind, hhash, hhlc]
  cases s.rep r.hash with
  | none => simp
  | some r' => simp

omit [Blake3] in
/-- The row of a content is pushed when the receiver is behind it. -/
theorem mem_pushedBy_of_behind {a b : Store} (hfit : a.rows.length ≤ historyLimit) {r : ClipRow}
    (hr : a.rep r.hash = some r) (hb : b.Behind r.hash r.hlc) : r.toClip ∈ pushedBy a b := by
  have hlacks : Lww.lacks (b.marks r.hash) r.mark := by
    rw [← lacks_eq]
    exact lacks_summary_iff.2 hb
  have hrep : Lww.rep (a.marks r.hash) = some r.mark := by
    rw [Store.rep_marks, hr]
    rfl
  have hpos := Lww.newer_pos hrep hlacks
  have hmem : r.toClip ∈ (pushedBy a b).filter (fun c => c.hash = r.hash) := by
    rw [filter_pushedBy hr, count_wanted hfit]
    exact List.mem_replicate.2 ⟨by omega, rfl⟩
  exact List.mem_of_mem_filter hmem

theorem genuine_pushedBy {a b : Store} (ha : Store.Sound a) : ∀ c ∈ pushedBy a b, c.hashMatches :=
  fun c hc => (canonical_pushedBy ha c hc).hash

/-- **What a turn asks for**: the blobs it lacks of the clips that are newer than its own. -/
theorem Turn.mem_needed_iff (h : Turn a b t b₁ a' b') (ha : Store.Sound a.store)
    (hfit : a.store.rows.length ≤ historyLimit) :
    digest ∈ b₁.store.neededFrom t.missingBlobs [] ↔ b.store.hasBlob digest = false ∧
      ∃ r, a.store.rep r.hash = some r ∧ b.store.Behind r.hash r.hlc ∧
        digest ∈ r.toClip.blobDigests := by
  obtain ⟨o, hm⟩ := h.merged
  have hone : ∀ c ∈ pushedBy a.store b.store, ∀ c' ∈ pushedBy a.store b.store,
      c.hash = c'.hash → c = c' := by
    intro c hc c' hc' he
    obtain ⟨r, hr, rfl⟩ := mem_pushedBy hc
    obtain ⟨r', hr', rfl⟩ := mem_pushedBy hc'
    rw [he, hr'] at hr
    rw [Option.some.inj hr]
  have hhas : b₁.store.hasBlob digest = b.store.hasBlob digest := by
    rw [Store.hasBlob, Store.hasBlob, files_takeAll hm]
  rw [Store.mem_neededFrom, mem_missingBlobs (genuine_pushedBy ha) hone hm, hhas]
  simp only [List.not_mem_nil, false_or]
  constructor
  · rintro ⟨⟨c, hc, hb, hd⟩, hn⟩
    obtain ⟨r, hr, rfl⟩ := mem_pushedBy hc
    exact ⟨hn, r, hr, hb, hd⟩
  · rintro ⟨hn, r, hr, hb, hd⟩
    exact ⟨⟨r.toClip, mem_pushedBy_of_behind hfit hr hb, hb, hd⟩, hn⟩

theorem Turn.rowsOf_eq (h : Turn a b t b₁ a' b') (hash : ContentHash) :
    b'.store.rowsOf hash = b₁.store.rowsOf hash :=
  Store.rowsOf_of_rows_eq (h.stored ▸ Store.rows_receiveBlobs _ _) hash

/-- A content of which the receiver has the newest keeps its rows in a turn. -/
theorem Turn.rowsOf_of_not_behind (h : Turn a b t b₁ a' b') (ha : Store.Sound a.store)
    {hash : ContentHash} (hb : ∀ r, a.store.rep hash = some r → ¬ b.store.Behind hash r.hlc) :
    b'.store.rowsOf hash = b.store.rowsOf hash := by
  obtain ⟨o, hm⟩ := h.merged
  rw [h.rowsOf_eq]
  refine rowsOf_takeAll_of_not_behind (genuine_pushedBy ha) (fun c hc he => ?_) hm
  obtain ⟨r, hr, rfl⟩ := mem_pushedBy hc
  exact hb r (he ▸ hr)

/-- The row that a deletion from the sender brings to light at the receiver. -/
structure Unearthed (a b : Store) (r : ClipRow) : Prop where
  oldest : (b.rowsOf r.hash).head? = some r
  deletion : ∃ x, a.rep r.hash = some x ∧ x.deleted ∧ x.hlc < r.hlc ∧
    ∃ y, b.rep r.hash = some y ∧ y.deleted = false ∧ y.hlc < x.hlc

theorem Unearthed.spec {r : ClipRow} (hu : Unearthed a.store b.store r)
    (h : Turn a b t b₁ a' b') (ha : Store.Sound a.store)
    (hfit : a.store.rows.length ≤ historyLimit) :
    ∃ z, b'.store.rep r.hash = some z ∧ z.hlc = r.hlc ∧ SamePayloads r z := by
  obtain ⟨x, hx, hxd, hxr, y, hy, hyd, hyx⟩ := hu.deletion
  have hx' : Lww.rep (a.store.marks r.hash) = some x.mark := by rw [Store.rep_marks, hx]; rfl
  have hy' : Lww.rep (b.store.marks r.hash) = some y.mark := by rw [Store.rep_marks, hy]; rfl
  have hhead : (b.store.marks r.hash).head? = some r.mark := by
    rw [Store.marks, List.head?_map, hu.oldest]
    rfl
  have hun : Lww.Unearths (b.store.marks r.hash) x.mark y.mark r.mark := ⟨hxd, hyd, hhead, hxr⟩
  obtain ⟨z, hz, -, ⟨-, hz', -⟩ | ⟨hno, -⟩⟩ :=
    Lww.exchange_of_gt (Store.layered_marks _ _) (Store.layered_marks _ _) hx' hy' hyx
  · obtain rfl : r.mark = z := Option.some.inj (hhead.symm.trans hz'.2.2.1)
    rw [← turn_marks h ha hfit, Store.rep_marks] at hz
    obtain ⟨z, hz, hmark⟩ := Option.map_eq_some_iff.1 hz
    have hhlc : z.hlc = r.hlc := congrArg Lww.Mark.stamp hmark
    have hdel : z.deleted = r.deleted := congrArg Lww.Mark.deleted hmark
    refine ⟨z, hz, hhlc, ?_⟩
    -- the rows of the content are where they were, and now the oldest one stands for it
    obtain ⟨rest, hrows⟩ := List.head?_eq_some_iff.1 hu.oldest
    have hrd : r.deleted := by
      have hne : y ≠ r := by
        rintro rfl
        exact absurd hyx (lt_asymm hxr)
      have hymem := mem_of_repOf (Store.rep_eq _ _ ▸ hy)
      have hp := b.store.rowsOf_pairwise r.hash
      rw [hrows] at hymem hp
      exact (List.pairwise_cons.1 hp).1 y ((List.mem_cons.1 hymem).resolve_left hne)
    obtain ⟨o, hm⟩ := h.merged
    have hall := payloads_takeAll (genuine_pushedBy ha) (by rw [hrows]; exact List.cons_ne_nil _ _) hm
    rw [← h.rowsOf_eq, hrows] at hall
    rw [Store.rep_eq] at hz
    cases hl : b'.store.rowsOf r.hash with
    | nil =>
      rw [hl] at hz
      cases hz
    | cons r₁ rest' =>
      rw [hl] at hall hz
      have hz₁ : r₁ = z := by
        have hdead := repOf_deleted hz (hdel.trans hrd)
        have hf : (r₁ :: rest').find? (fun r => !r.deleted) = none :=
          List.find?_eq_none.2 fun r' hr' => by simp [hdead r' hr']
        rw [repOf, hf] at hz
        exact Option.some.inj hz
      exact hz₁ ▸ (List.forall₂_cons.1 hall).1
  · exact absurd ⟨_, hun⟩ hno

end

/-- The clip that device `x` takes from its peer `y` in a session: one that is newer than its own,
in the responder's turn also one that the dialler's deletion has brought to light. -/
inductive Takes : Role → Store → Store → ClipRow → Prop where
  | newer {role : Role} {x y : Store} {r : ClipRow} (hr : y.rep r.hash = some r)
      (hb : x.Behind r.hash r.hlc) : Takes role x y r
  | unearthed {x y : Store} {r : ClipRow} (h : Unearthed x y r) : Takes .dialler x y r

omit [Blake3] in
/-- A content that both devices have with one HLC is not taken. -/
theorem Takes.hash_ne {role : Role} {x y : Store} {r xr yr : ClipRow} {hash : ContentHash}
    (h : Takes role x y r) (hx : x.rep hash = some xr) (hy : y.rep hash = some yr)
    (he : yr.hlc = xr.hlc) : r.hash ≠ hash := by
  rintro rfl
  cases h with
  | newer hr hb =>
    rw [hr] at hy
    cases hy
    exact absurd (hb xr hx) (he ▸ lt_irrefl _)
  | unearthed hu =>
    obtain ⟨x', hx', -, -, y', hy', -, hlt⟩ := hu.deletion
    rw [hx'] at hx
    rw [hy'] at hy
    cases hx
    cases hy
    exact absurd hlt (he ▸ lt_irrefl _)

section
variable {a b b₁ a' b' : SyncContext} {t : Taken} {digest : ContentHash}

/-- What the dialler takes, told from the two stores before the session. -/
theorem Turn.takes_dialler_iff (h : Turn a b t b₁ a' b') (ha : Store.Sound a.store)
    (hfit : a.store.rows.length ≤ historyLimit) :
    (∃ r, b'.store.rep r.hash = some r ∧ a'.store.Behind r.hash r.hlc ∧
        digest ∈ r.toClip.blobDigests) ↔
      ∃ r, Takes .dialler a.store b.store r ∧ digest ∈ r.toClip.blobDigests := by
  have hbehind : ∀ hash hlc, a'.store.Behind hash hlc ↔ a.store.Behind hash hlc := fun hash hlc =>
    Store.Behind.congr (h.sender.rep hash)
  have hsame : ∀ {hash : ContentHash},
      (∀ r, a.store.rep hash = some r → ¬ b.store.Behind hash r.hlc) →
      b'.store.rep hash = b.store.rep hash := by
    intro hash hb
    rw [Store.rep_eq, Store.rep_eq, h.rowsOf_of_not_behind ha hb]
  constructor
  · rintro ⟨r, hr, hb, hd⟩
    rw [hbehind] at hb
    by_cases hpush : ∀ x, a.store.rep r.hash = some x → ¬ b.store.Behind r.hash x.hlc
    · exact ⟨r, .newer (hsame hpush ▸ hr) hb, hd⟩
    · push Not at hpush
      obtain ⟨x, hx, hbx⟩ := hpush
      have hlt := hb x hx
      have hx' : Lww.rep (a.store.marks r.hash) = some x.mark := by rw [Store.rep_marks, hx]; rfl
      have hr' : Lww.rep (Lww.turn (a.store.marks r.hash) (b.store.marks r.hash)) =
          some r.mark := by
        rw [← turn_marks h ha hfit, Store.rep_marks, hr]
        rfl
      cases hy : b.store.rep r.hash with
      | none =>
        have hnil : b.store.marks r.hash = [] := by
          rw [← Lww.rep_eq_none, Store.rep_marks, hy]
          rfl
        rw [hnil, Lww.turn_to_nil hx', Lww.rep_singleton] at hr'
        have he : x.hlc = r.hlc := congrArg Lww.Mark.stamp (Option.some.inj hr')
        exact absurd hlt (he ▸ lt_irrefl _)
      | some y =>
        have hyx := hbx y hy
        have hy' : Lww.rep (b.store.marks r.hash) = some y.mark := by
          rw [Store.rep_marks, hy]
          rfl
        obtain ⟨hxd, hyd, hhead, -⟩ :=
          (Lww.stamp_lt_rep_turn_iff (Store.layered_marks _ _) hx' hy' hyx hr').1 hlt
        rw [Store.marks, List.head?_map] at hhead
        obtain ⟨f, hf, hmark⟩ := Option.map_eq_some_iff.1 hhead
        have hfh : f.hash = r.hash := (Store.mem_rowsOf.1 (List.mem_of_mem_head? hf)).2
        have hfl : f.hlc = r.hlc := congrArg Lww.Mark.stamp hmark
        have hu : Unearthed a.store b.store f :=
          ⟨hfh ▸ hf, x, hfh ▸ hx, hxd, hfl ▸ hlt, y, hfh ▸ hy, hyd, hyx⟩
        obtain ⟨z, hz, -, hp⟩ := hu.spec h ha hfit
        obtain rfl : r = z := Option.some.inj (hr.symm.trans (hfh ▸ hz))
        exact ⟨f, .unearthed hu, hp.blobDigests ▸ hd⟩
  · rintro ⟨r, ht, hd⟩
    cases ht with
    | newer hr hb =>
      refine ⟨r, ?_, (hbehind _ _).2 hb, hd⟩
      rw [hsame fun x hx hbx => absurd (hbx r hr) (lt_asymm (hb x hx)), hr]
    | unearthed hu =>
      obtain ⟨z, hz, hhlc, hp⟩ := hu.spec h ha hfit
      have hzh : z.hash = r.hash := (Store.mem_of_rep hz).2
      refine ⟨z, hzh ▸ hz, (hbehind _ _).2 fun x hx => ?_, hp.blobDigests ▸ hd⟩
      obtain ⟨x', hx', -, hlt, -⟩ := hu.deletion
      rw [hzh, hx'] at hx
      rw [← Option.some.inj hx, hhlc]
      exact hlt

end

/-! ## What arrives -/

theorem genuine_receiveBlobs {s : Store} (hs : Store.Genuine s)
    (blobs : List (ContentHash × Bytes)) : Store.Genuine (s.receiveBlobs blobs) := by
  induction blobs generalizing s with
  | nil => exact hs
  | cons b blobs ih =>
    obtain ⟨digest, bytes⟩ := b
    rw [Store.receiveBlobs]
    split
    · next h => exact ih (hs.putBlob h)
    · exact ih hs

theorem of_blobOf {s : Store} (hs : Store.Genuine s) {digest : ContentHash}
    (h : s.hasBlob digest) : ContentHash.of (s.blobOf digest) = digest := by
  obtain ⟨f, hf⟩ := Option.isSome_iff_exists.1 h
  obtain ⟨hmem, hd⟩ := Table.find?_eq_some.1 hf
  rw [Store.blobOf, hf]
  exact (hs f hmem).trans hd

section
variable {a b b₁ a' b' : SyncContext} {t : Taken} {digest : ContentHash}

theorem Turn.hasBlob_iff (h : Turn a b t b₁ a' b') :
    b'.store.hasBlob digest ↔ b.store.hasBlob digest ∨
      digest ∈ b₁.store.neededFrom t.missingBlobs [] ∧
        ContentHash.of (a.store.blobOf digest) = digest := by
  obtain ⟨o, hm⟩ := h.merged
  have hhas : b₁.store.hasBlob digest = b.store.hasBlob digest := by
    rw [Store.hasBlob, Store.hasBlob, files_takeAll hm]
  rw [h.stored, Store.hasBlob_receiveBlobs, hhas]
  refine or_congr_right ⟨?_, ?_⟩
  · rintro ⟨bytes, hb, ho⟩
    obtain ⟨d, hd, he⟩ := List.mem_map.1 hb
    cases he
    exact ⟨hd, ho⟩
  · rintro ⟨hd, ho⟩
    exact ⟨_, List.mem_map.2 ⟨digest, hd, rfl⟩, ho⟩

theorem Turn.genuine (h : Turn a b t b₁ a' b') (hb : Store.Genuine b.store) :
    Store.Genuine b'.store := by
  obtain ⟨o, hm⟩ := h.merged
  rw [h.stored]
  exact genuine_receiveBlobs (hb.of_files_eq (files_takeAll hm)) _

end

/-! ## A session from the side of one device -/

/-- A session of `x`, in the given role, with its peer `y`; the left end is that of `x`. -/
def sessionOf (role : Role) (x y : SyncContext) (epoch epoch' : UInt64) :
    Link syncWire SyncOutcome :=
  match role with
  | .dialler => sessionLink x y epoch epoch'
  | .responder => (sessionLink y x epoch' epoch).swap

/-- Both histories are short enough to be offered as a whole. -/
def FitsFor (role : Role) (x y : Store) : Prop :=
  match role with
  | .dialler => Fits x y
  | .responder => Fits y x

section
omit [Blake3]

theorem wantsIn_offerLog (a b b₁ : Store) (t : Taken) (hlc : Hlc) :
    wantsIn (Traffic.sentMsgs (offerLog a b b₁ t hlc)) = [] := by
  rw [sentMsgs_offerLog, wantsIn_append, wantsIn_summaryPages, wantsIn_push]
  rfl

theorem wantsIn_takeLog (a b b₁ : Store) (t : Taken) (hlc : Hlc) :
    wantsIn (Traffic.sentMsgs (takeLog a b b₁ t hlc)) =
      [b.wanted a.summaries, b₁.neededFrom t.missingBlobs []] := by
  rw [sentMsgs_takeLog]
  rfl

end

section
variable {role : Role} {x y : SyncContext} {epoch epoch' : UInt64} {F : Link syncWire SyncOutcome}

/-- **The blobs of a session**: what a device asks for, and what it has afterwards. -/
theorem session_blobs (hx : Store.Reachable x.store) (hy : Store.Reachable y.store)
    (hfit : FitsFor role x.store y.store) (h : Completes (sessionOf role x y epoch epoch') F)
    (digest : ContentHash) :
    (digest ∈ blobWant F.1 ↔ x.store.hasBlob digest = false ∧
      ∃ r, Takes role x.store y.store r ∧ digest ∈ r.toClip.blobDigests) ∧
    (x.store.hasBlob digest → F.1.state.store.hasBlob digest) ∧
    (digest ∈ blobWant F.1 → y.store.hasBlob digest → F.1.state.store.hasBlob digest) := by
  cases role with
  | dialler =>
    obtain ⟨t, b₁, a', b', hlc, t', a₁, hlc', h₁, h₂, hlog, -⟩ := completes_session h
    have hwant : blobWant F.1 = a₁.store.neededFrom t'.missingBlobs [] := by
      rw [blobWant, End.sent, hlog, Traffic.sentMsgs_append, Traffic.sentMsgs_append,
        wantsIn_append, wantsIn_append, wantsIn_offerLog, wantsIn_takeLog]
      rfl
    have hhas : ∀ d, a'.store.hasBlob d = x.store.hasBlob d := fun d => by
      rw [Store.hasBlob, Store.hasBlob, h₁.sender.files]
    rw [hwant, h₂.mem_needed_iff (h₁.sound hx.sound hy.sound) (h₁.length_le hfit),
      h₁.takes_dialler_iff hx.sound hfit.first, hhas]
    refine ⟨Iff.rfl, fun hd => h₂.hasBlob_iff.2 (.inl ((hhas digest).trans hd)), fun hd hyd => ?_⟩
    refine h₂.hasBlob_iff.2 (.inr ⟨?_, of_blobOf (h₁.genuine hy.genuine) ?_⟩)
    · rw [h₂.mem_needed_iff (h₁.sound hx.sound hy.sound) (h₁.length_le hfit),
        h₁.takes_dialler_iff hx.sound hfit.first, hhas]
      exact hd
    · exact h₁.hasBlob_iff.2 (.inl hyd)
  | responder =>
    obtain ⟨t, b₁, a', b', hlc, t', a₁, hlc', h₁, h₂, -, hlog⟩ := completes_session h.swap
    have hwant : blobWant F.1 = b₁.store.neededFrom t.missingBlobs [] := by
      change blobWant F.swap.2 = _
      rw [blobWant, End.sent, hlog, Traffic.sentMsgs_append, Traffic.sentMsgs_append,
        wantsIn_append, wantsIn_append, wantsIn_offerLog, wantsIn_takeLog]
      rfl
    have hhas : F.1.state.store.hasBlob digest = b'.store.hasBlob digest := by
      change F.swap.2.state.store.hasBlob digest = _
      rw [Store.hasBlob, Store.hasBlob, h₂.sender.files]
    rw [hwant, hhas, h₁.hasBlob_iff]
    refine ⟨?_, .inl, fun hd hyd => .inr ⟨hd, of_blobOf hy.genuine hyd⟩⟩
    rw [h₁.mem_needed_iff hy.sound hfit.first]
    refine and_congr_right fun _ => exists_congr fun r => ⟨?_, ?_⟩
    · rintro ⟨hr, hb, hd⟩
      exact ⟨.newer hr hb, hd⟩
    · rintro ⟨ht, hd⟩
      cases ht with
      | newer hr hb => exact ⟨hr, hb, hd⟩

/-- **An incomplete clip is completed** by a session with a peer that holds it exactly when each of
its missing blobs also belongs to a clip of another content that the device takes in that session. -/
theorem resumed_iff (hx : Store.Reachable x.store) (hy : Store.Reachable y.store)
    (hfit : FitsFor role x.store y.store) (h : Completes (sessionOf role x y epoch epoch') F)
    {r r' : ClipRow} (hr : x.store.rep r.hash = some r) (hr' : y.store.rep r.hash = some r')
    (hhlc : r'.hlc = r.hlc)
    (hpeer : r.toClip.isComplete y.store.hasBlob) :
    ((∀ d ∈ r.toClip.blobDigests, x.store.hasBlob d = false → d ∈ blobWant F.1) ∧
        r.toClip.isComplete F.1.state.store.hasBlob) ↔
      ∀ d ∈ r.toClip.blobDigests, x.store.hasBlob d = false →
        ∃ r₂, Takes role x.store y.store r₂ ∧ r₂.hash ≠ r.hash ∧ d ∈ r₂.toClip.blobDigests := by
  rw [Clip.isComplete_iff] at hpeer ⊢
  have hsession := session_blobs hx hy hfit h
  constructor
  · rintro ⟨hwant, -⟩ d hd hn
    obtain ⟨-, r₂, ht, hd₂⟩ := (hsession d).1.1 (hwant d hd hn)
    exact ⟨r₂, ht, ht.hash_ne hr hr' hhlc, hd₂⟩
  · intro htakes
    have hwant : ∀ d ∈ r.toClip.blobDigests, x.store.hasBlob d = false → d ∈ blobWant F.1 := by
      intro d hd hn
      obtain ⟨r₂, ht, -, hd₂⟩ := htakes d hd hn
      exact (hsession d).1.2 ⟨hn, r₂, ht, hd₂⟩
    refine ⟨hwant, fun d hd => ?_⟩
    cases hn : x.store.hasBlob d with
    | true => exact (hsession d).2.1 hn
    | false => exact (hsession d).2.2 (hwant d hd hn) (hpeer d hd)

end

/-- Stores in use stay so in a session, whether or not it breaks off. -/
theorem reachable_steps {role : Role} {x y : SyncContext} {epoch epoch' : UInt64}
    {L : Link syncWire SyncOutcome} (hx : Store.Reachable x.store) (hy : Store.Reachable y.store)
    (h : Steps (sessionOf role x y epoch epoch') L) :
    Store.Reachable L.1.state.store ∧ Store.Reachable L.2.state.store := by
  have hkeep : ∀ s s' : SyncContext, s = s' → Store.Reachable s.store → Store.Reachable s'.store :=
    fun _ _ he => he ▸ id
  cases role with
  | dialler => exact reachable_run hkeep hx hy h.busy
  | responder =>
    have hs := Steps.swap h
    exact (reachable_run hkeep hy hx hs.busy).symm

end

/-! ### Worked sessions -/

section
variable [Blake3]

/-- A copy of the big picture. -/
def picture (id : Nat) (device : DeviceId) (hlc : Hlc) : Clip :=
  .new ⟨id⟩ [.new .png bigImage] { device, deviceLabel := "desktop", app := none } hlc

/-- A copy of the big picture with the text `hi`. -/
def captioned (id : Nat) (device : DeviceId) (hlc : Hlc) : Clip :=
  .new ⟨id⟩ [.new .png bigImage, .new .text (utf8 "hi")]
    { device, deviceLabel := "desktop", app := none } hlc

theorem picture_canonical (id : Nat) (device : DeviceId) (hlc : Hlc) :
    (picture id device hlc).Canonical := Clip.new_canonical _ _ _ (List.nodup_singleton _)

theorem captioned_canonical (id : Nat) (device : DeviceId) (hlc : Hlc) :
    (captioned id device hlc).Canonical := by
  refine Clip.new_canonical _ _ _ ?_
  change ["image/png", "text/plain"].Nodup
  decide

theorem isBlob_bigImage : (Payload.new .png bigImage).isBlob := by
  have hlen : ¬ bigImage.length ≤ inlineMaxBytes := by
    rw [length_bigImage]
    decide
  rw [Payload.isBlob, Payload.new, if_neg hlen]
  rfl

theorem payloads_captioned (id : Nat) (device : DeviceId) (hlc : Hlc) :
    (captioned id device hlc).payloads = [.new .png bigImage, .new .text (utf8 "hi")] := by
  have hle : (Payload.new .png bigImage).label ≤ (Payload.new .text (utf8 "hi")).label := by
    change "image/png" ≤ "text/plain"
    decide
  change Clip.sortPayloads _ = _
  rw [Clip.sortPayloads, List.insertionSort_cons, List.insertionSort_cons, List.insertionSort_nil,
    List.orderedInsert_nil, List.orderedInsert_cons, if_pos hle]

/-- The picture is the one blob of both clips. -/
theorem blobDigests_picture (id : Nat) (device : DeviceId) (hlc : Hlc) :
    (ClipRow.of (picture id device hlc)).toClip.blobDigests = [.of bigImage] := by
  rw [ClipRow.blobDigests_of (picture_canonical id device hlc).sorted]
  change List.map _ (List.filter _ [Payload.new .png bigImage]) = _
  rw [List.filter_cons_of_pos isBlob_bigImage]
  rfl

theorem mem_blobDigests_captioned (id : Nat) (device : DeviceId) (hlc : Hlc) :
    ContentHash.of bigImage ∈ (ClipRow.of (captioned id device hlc)).toClip.blobDigests := by
  rw [ClipRow.blobDigests_of (captioned_canonical id device hlc).sorted, Clip.blobDigests,
    payloads_captioned, List.filter_cons_of_pos isBlob_bigImage]
  exact List.mem_cons_self

end

section
attribute [local instance] Blake3.examples

theorem of_bigImage : ContentHash.of bigImage = bigDigest :=
  of_examples (bigImage_ne (by decide)) (bigImage_ne (by decide)) rfl

theorem hash_picture (id : Nat) (device : DeviceId) (hlc : Hlc) :
    (picture id device hlc).hash = bigHash := by
  change ContentHash.ofParts [("image/png", (ContentHash.of bigImage).bytes.toList)] = _
  rw [of_bigImage]
  decide

theorem hash_captioned (id : Nat) (device : DeviceId) (hlc : Hlc) :
    (captioned id device hlc).hash = captionedHash := by
  change Clip.computeHash (captioned id device hlc).payloads = _
  rw [payloads_captioned]
  change ContentHash.ofParts [("image/png", (ContentHash.of bigImage).bytes.toList),
    ("text/plain", hiDigest.bytes.toList)] = _
  rw [of_bigImage]
  decide

/-- A store with the picture alone, whose blob is not there, and one to which the captioned picture
has been added. -/
theorem exists_pictured :
    ∃ s s' r r', Store.Reachable s ∧ s.rows = [r] ∧ s.files.rows = [] ∧
      Store.Reachable s' ∧ s'.rows = [r, r'] ∧ r.id ≠ r'.id ∧ r.hash = bigHash ∧
      r'.hash = captionedHash ∧ r.deleted = false ∧ r.toClip.blobDigests = [bigDigest] ∧
      bigDigest ∈ r'.toClip.blobDigests := by
  have hc := picture_canonical 1 (.repeated 1) ⟨1, 0, .repeated 1⟩
  have hc' := captioned_canonical 2 (.repeated 1) ⟨2, 0, .repeated 1⟩
  have hhash := hash_picture 1 (.repeated 1) ⟨1, 0, .repeated 1⟩
  have hhash' := hash_captioned 2 (.repeated 1) ⟨2, 0, .repeated 1⟩
  have hblobs := blobDigests_picture 1 (.repeated 1) ⟨1, 0, .repeated 1⟩
  have hblobs' := mem_blobDigests_captioned 2 (.repeated 1) ⟨2, 0, .repeated 1⟩
  have hid : (picture 1 (.repeated 1) ⟨1, 0, .repeated 1⟩).id = ⟨1⟩ := rfl
  have hid' : (captioned 2 (.repeated 1) ⟨2, 0, .repeated 1⟩).id = ⟨2⟩ := rfl
  have hlive : (picture 1 (.repeated 1) ⟨1, 0, .repeated 1⟩).deleted = false := rfl
  rw [of_bigImage] at hblobs hblobs'
  generalize picture 1 (.repeated 1) ⟨1, 0, .repeated 1⟩ = c at hc hhash hblobs hid hlive
  generalize captioned 2 (.repeated 1) ⟨2, 0, .repeated 1⟩ = c' at hc' hhash' hblobs' hid'
  obtain ⟨s, h, hr⟩ := Store.insert_fresh (s := .open_ 0) hc (fun r hr => by cases hr)
    (fun r hr => by cases hr)
  have hmem : ∀ r ∈ s.rows, r.hash = bigHash ∧ r.id = ⟨1⟩ := by
    intro r hr'
    rw [hr] at hr'
    rw [List.mem_singleton.1 hr']
    exact ⟨hhash, hid⟩
  obtain ⟨s', h', hr'⟩ := Store.insert_fresh (s := s) hc' (fun r hr' he => by
      rw [(hmem r hr').1, hhash'] at he
      exact absurd he (by decide)) fun r hr' he => by
      rw [(hmem r hr').2, hid'] at he
      exact absurd he (by decide)
  have hs := (Store.Reachable.open_ 0).insert hc h
  refine ⟨s, s', .of c, .of c', hs, hr, ?_, hs.insert hc' h', by rw [hr', hr]; rfl, ?_, hhash,
    hhash', hlive, hblobs, hblobs'⟩
  · rw [(Store.sameBlobs_insert h).files]
    rfl
  · change c.id ≠ c'.id
    rw [hid, hid']
    decide

/-- A store with one row. -/
theorem rep_singleton {s : Store} {r : ClipRow} (h : s.rows = [r]) (hash : ContentHash) :
    s.rep hash = if r.hash = hash then some r else none := by
  rw [Store.rep_eq, Store.rowsOf, h]
  split
  · next he => rw [List.filter_cons_of_pos (by simp [he]), List.filter_nil, repOf_singleton]
  · next he => rw [List.filter_cons_of_neg (by simp [he]), List.filter_nil, repOf_nil]

/-- A picture whose blob got lost in a session that broke off is not asked for in the next. -/
theorem not_asked_again :
    ¬ ∀ (role role' : Role) (x y : SyncContext) (epoch epoch' : UInt64)
      (L F : Link syncWire SyncOutcome) (r r' : ClipRow),
      Store.Reachable x.store → Store.Reachable y.store →
      Steps (sessionOf role x y epoch epoch') L →
      L.1.state.store.rep r.hash = some r → r.deleted = false →
      L.2.state.store.rep r.hash = some r' → r'.hlc = r.hlc →
      r.toClip.isComplete L.2.state.store.hasBlob →
      Completes (sessionOf role' L.1.state L.2.state epoch epoch') F →
      (∀ d ∈ r.toClip.blobDigests, L.1.state.store.hasBlob d = false → d ∈ blobWant F.1) ∧
        r.toClip.isComplete F.1.state.store.hasBlob := by
  intro h
  obtain ⟨s, -, r₀, -, hs, hrows, -, -, -, -, -, -, hlive, hblobs, -⟩ := exists_pictured
  have hcan := hs.sound _ (hrows ▸ List.mem_singleton_self _)
  obtain ⟨y, hystore⟩ : ∃ y : SyncContext, y.store = s.putBlob bigDigest bigImage :=
    ⟨.start _ (.repeated 1) fun _ => 0, rfl⟩
  have hy : Store.Reachable y.store := hystore ▸ hs.putBlob of_bigImage
  have hx : Store.Reachable newcomer.store := .open_ 0
  have hyrows : y.store.rows = [r₀] := hystore ▸ hrows
  have hpush : pushedBy y.store newcomer.store = [r₀.toClip] := pushedBy_singleton hyrows rfl
  -- the first session breaks off when the clip is stored and its blob is not
  obtain ⟨t, b₁, hm, -, hb₁, -⟩ := @takeAll_new _ _ newcomer hcan rfl {}
  rw [← hpush] at hm
  have hlost : b₁.store.hasBlob bigDigest = false := by
    rw [Store.hasBlob, files_takeAll hm]
    rfl
  obtain ⟨L, hL, hL₁, hL₂⟩ := @steps_clips _ _ _ _ 0 0 _ hm
  obtain ⟨hr₂, hr₁⟩ := @reachable_steps _ .dialler _ _ _ _ _ hy hx hL
  -- the second one completes
  have hcompat : Compatible L.1.state.store L.2.state.store := by
    refine @Only.compatible r₀.hash _ _ (fun r hr => ?_) fun r hr => ?_
    · rw [hL₁, hyrows] at hr
      rw [List.mem_singleton.1 hr]
    · rw [hL₂, hb₁] at hr
      rw [List.mem_singleton.1 hr]
      rfl
  obtain ⟨F, hF⟩ := session_completes hr₂.sound hr₁.sound hcompat 0 0
  have hblobs' : (ClipRow.of r₀.toClip).toClip.blobDigests = [bigDigest] := by
    rw [ClipRow.blobDigests_of hcan.sorted, hblobs]
  have hrep : L.2.state.store.rep (ClipRow.of r₀.toClip).hash = some (.of r₀.toClip) := by
    rw [hL₂, rep_singleton hb₁, if_pos rfl]
  have hrep' : L.1.state.store.rep (ClipRow.of r₀.toClip).hash = some r₀ := by
    rw [hL₁, rep_singleton hyrows]
    exact if_pos rfl
  have hhas : (ClipRow.of r₀.toClip).toClip.isComplete L.1.state.store.hasBlob := by
    rw [Clip.isComplete_iff, hblobs', hL₁, hystore]
    intro d hd
    rw [List.mem_singleton.1 hd]
    exact (Store.hasBlob_putBlob _ _ _ _).2 (.inl rfl)
  have hend := h .responder .responder newcomer y 0 0 L.swap F.swap (.of r₀.toClip) r₀ hx hy
    hL.swap hrep hlive hrep' rfl hhas hF.swap
  have hfit : FitsFor .responder L.2.state.store L.1.state.store := by
    refine fits_of_add_le ?_
    rw [hL₁, hL₂, hyrows, hb₁]
    exact (by decide : 2 ≤ historyLimit)
  have htakes := (resumed_iff hr₁ hr₂ hfit hF.swap hrep hrep' rfl hhas).1 hend
  obtain ⟨r₂, ht, hne, -⟩ := htakes bigDigest (hblobs' ▸ List.mem_singleton_self _) (hL₂ ▸ hlost)
  cases ht with
  | newer hr _ =>
    rw [hL₁, rep_singleton hyrows] at hr
    split at hr
    · next he => exact hne he.symm
    · cases hr

/-- A blob that also belongs to a clip that is new to the device is asked for. -/
theorem resumed_iff_captioned :
    ∃ (x y : SyncContext) (F : Link syncWire SyncOutcome) (r : ClipRow),
      Completes (sessionOf .responder x y 0 0) F ∧ x.store.rep r.hash = some r ∧
      r.toClip.isComplete x.store.hasBlob = false ∧
      (∀ d ∈ r.toClip.blobDigests, x.store.hasBlob d = false → d ∈ blobWant F.1) ∧
      r.toClip.isComplete F.1.state.store.hasBlob := by
  obtain ⟨s, s', r, r', hs, hrows, hfiles, hs', hrows', hid, hh, hh', -, hblobs, hblobs'⟩ :=
    exists_pictured
  have hne : r'.hash ≠ r.hash := by
    rw [hh, hh']
    decide
  obtain ⟨x, hxstore⟩ : ∃ x : SyncContext, x.store = s := ⟨.start s (.repeated 2) fun _ => 0, rfl⟩
  obtain ⟨y, hystore⟩ : ∃ y : SyncContext, y.store = s'.putBlob bigDigest bigImage :=
    ⟨.start _ (.repeated 1) fun _ => 0, rfl⟩
  have hx : Store.Reachable x.store := hxstore ▸ hs
  have hy : Store.Reachable y.store := hystore ▸ hs'.putBlob of_bigImage
  have hxrows : x.store.rows = [r] := hxstore ▸ hrows
  have hyrows : y.store.rows = [r, r'] := hystore ▸ hrows'
  have hrowsOf : y.store.rowsOf r.hash = [r] ∧ y.store.rowsOf r'.hash = [r'] := by
    rw [Store.rowsOf, Store.rowsOf, hyrows]
    simp [hne, hne.symm]
  have hcompat : Compatible y.store x.store := by
    intro r₁ hr₁ r₂ hr₂ he
    rw [hyrows, hxrows] at hr₁ hr₂
    simp only [List.mem_append, List.mem_cons, List.not_mem_nil, or_false] at hr₁ hr₂
    rcases hr₁ with (rfl | rfl) | rfl <;> rcases hr₂ with (rfl | rfl) | rfl <;>
      first | rfl | exact absurd he hid | exact absurd he.symm hid
  obtain ⟨F, hF⟩ := session_completes hy.sound hx.sound hcompat 0 0
  have hrep : x.store.rep r.hash = some r := by rw [rep_singleton hxrows, if_pos rfl]
  have hrep' : y.store.rep r.hash = some r := by rw [Store.rep_eq, hrowsOf.1, repOf_singleton]
  have hnew : Takes .responder x.store y.store r' := by
    refine .newer ?_ fun r₁ hr₁ => ?_
    · rw [Store.rep_eq, hrowsOf.2, repOf_singleton]
    · rw [rep_singleton hxrows, if_neg hne.symm] at hr₁
      cases hr₁
  have hlost : x.store.hasBlob bigDigest = false := by
    have hf : s.files = .empty := Table.ext hfiles
    rw [Store.hasBlob, hxstore, hf]
    rfl
  have hhas : r.toClip.isComplete y.store.hasBlob := by
    rw [Clip.isComplete_iff, hblobs, hystore]
    intro d hd
    rw [List.mem_singleton.1 hd]
    exact (Store.hasBlob_putBlob _ _ _ _).2 (.inl rfl)
  have hfit : FitsFor .responder x.store y.store := by
    refine fits_of_add_le ?_
    rw [hxrows, hyrows]
    exact (by decide : 3 ≤ historyLimit)
  have hgone : r.toClip.isComplete x.store.hasBlob = false := by
    rw [← Bool.not_eq_true, Clip.isComplete_iff, hblobs]
    intro hall
    rw [hall _ (List.mem_singleton_self _)] at hlost
    cases hlost
  refine ⟨x, y, F.swap, r, hF.swap, hrep, hgone, (resumed_iff hx hy hfit hF.swap
    hrep hrep' rfl hhas).2 fun d hd _ => ⟨r', hnew, hne, ?_⟩⟩
  rw [hblobs] at hd
  rw [List.mem_singleton.1 hd]
  exact hblobs'

end

end Session
end Clipse
