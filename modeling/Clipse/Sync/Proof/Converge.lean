import Clipse.Lib.Lww
import Clipse.Sync.Proof.Complete
import Clipse.Sync.Proof.Newest
import Mathlib.Data.List.Dedup

/-!
# Convergence of a session

For each content hash on its own, a session is an exchange of marks (`Lww`): the rows of the hash
are the marks, merging a pushed clip is `Lww.put`, a turn is `Lww.turn` (`turn_marks`).

* `converges_iff`: the two devices agree after a session exactly when `Lww.Settles` for each hash.
* `idle_iff`: the next session moves nothing exactly when `Lww.Meets` for each hash.
-/

namespace Clipse

open Duplex

def ClipRow.mark (r : ClipRow) : Lww.Mark Hlc Bool := ⟨r.hlc, r.pinned, r.deleted⟩

def Clip.mark (c : Clip) : Lww.Mark Hlc Bool := ⟨c.hlc, c.pinned, c.deleted⟩

@[simp] theorem ClipRow.mark_of (c : Clip) : (ClipRow.of c).mark = c.mark := rfl

@[simp] theorem ClipRow.mark_toClip (r : ClipRow) : r.toClip.mark = r.mark := rfl

@[simp] theorem mark_absorb (c : Clip) (now : UInt64) (r : ClipRow) :
    (absorb c now r).mark = Lww.absorb c.mark r.mark := by
  simp [ClipRow.mark, Clip.mark, Lww.absorb]

namespace Store

/-- The marks of a content. -/
def marks (s : Store) (hash : ContentHash) : List (Lww.Mark Hlc Bool) :=
  (s.rowsOf hash).map ClipRow.mark

theorem layered_marks (s : Store) (hash : ContentHash) : Lww.Layered (s.marks hash) :=
  List.pairwise_map.2 (s.rowsOf_pairwise hash)

theorem rep_map_mark (rows : List ClipRow) :
    Lww.rep (rows.map ClipRow.mark) = (repOf rows).map ClipRow.mark := by
  rw [Lww.rep, repOf, List.find?_map, List.head?_map, ← Option.map_or]
  rfl

theorem rep_marks (s : Store) (hash : ContentHash) :
    Lww.rep (s.marks hash) = (s.rep hash).map ClipRow.mark := by
  rw [marks, rep_map_mark, rep_eq]

/-- The rows of a content before and including a live one. -/
theorem rowsOf_live {s : Store} {hash : ContentHash} {r : ClipRow} (hr : r ∈ s.rowsOf hash)
    (hd : r.deleted = false) : ∀ r' ∈ s.rowsOf hash, r'.deleted = false → r' = r := by
  intro r' hr' hd'
  have hp := s.rowsOf_pairwise hash
  rcases List.eq_nil_or_concat (s.rowsOf hash) with he | ⟨ts, l, he⟩
  · rw [he] at hr
    cases hr
  rw [he, List.concat_eq_append] at hr hr' hp
  rw [List.pairwise_append] at hp
  have hlast : ∀ x ∈ ts ++ [l], x.deleted = false → x = l := by
    intro x hx hxd
    rcases List.mem_append.1 hx with hx | hx
    · have ht := hp.2.2 x hx l (List.mem_singleton_self l)
      rw [hxd] at ht
      cases ht
    · exact List.mem_singleton.1 hx
  rw [hlast r hr hd, hlast r' hr' hd']

/-- An update of the row that stands for a content overwrites the content's mark. -/
theorem marks_absorbed {s s' : Store} {c : Clip} {now : UInt64} {r : ClipRow}
    (hr : s.rep c.hash = some r) (h : s'.rows = absorbed c now r.id s.rows) :
    s'.marks c.hash = Lww.overwrite c.mark (s.marks c.hash) := by
  obtain ⟨hmem, hhash⟩ := mem_of_rep hr
  rw [rep_eq] at hr
  rw [marks, rowsOf_absorbed hmem h, if_pos hhash, absorbed, List.map_map, Lww.overwrite]
  cases hd : r.deleted with
  | true =>
    -- no row is live, and `r` is the first one
    have hall : (s.marks c.hash).all (·.deleted) := by
      simpa [marks, ClipRow.mark] using repOf_deleted hr hd
    have hfirst : (s.rowsOf c.hash).head? = some r := by
      rcases Option.or_eq_some_iff.1 hr with hf | ⟨-, hf⟩
      · have hl := List.find?_some hf
        simp [hd] at hl
      · exact hf
    have hn : ((s.rowsOf c.hash).map (·.id)).Nodup :=
      s.clip.nodup.sublist (List.filter_sublist.map _)
    rw [if_pos hall, marks]
    cases hrows : s.rowsOf c.hash with
    | nil =>
      rw [hrows] at hfirst
      cases hfirst
    | cons r₀ rest =>
      rw [hrows] at hfirst hn
      cases hfirst
      have hrest : ∀ r' ∈ rest, r'.id ≠ r.id := fun r' hr' he =>
        (List.nodup_cons.1 hn).1 (List.mem_map.2 ⟨r', hr', he⟩)
      have hmap : rest.map (ClipRow.mark ∘ fun r' => if r'.id = r.id then absorb c now r' else r') =
          rest.map ClipRow.mark :=
        List.map_congr_left fun r' hr' => by simp [hrest r' hr']
      simp [hmap]
  | false =>
    -- `r` is the one live row
    have hmem' := mem_of_repOf hr
    have hall : (s.marks c.hash).all (·.deleted) = false := by
      rw [List.all_eq_false]
      exact ⟨r.mark, List.mem_map_of_mem hmem', by simp [ClipRow.mark, hd]⟩
    rw [hall, marks, List.map_map]
    simp only [Bool.false_eq_true, ↓reduceIte]
    refine List.map_congr_left fun r' hr' => ?_
    by_cases hd' : r'.deleted
    · have hne : r'.id ≠ r.id := by
        intro he
        rw [s.clip.eq_of_key_eq (mem_rowsOf.1 hr').1 hmem he, hd] at hd'
        cases hd'
      simp [hne, ClipRow.mark, hd']
    · obtain rfl := rowsOf_live hmem' hd r' hr' (by simpa using hd')
      simp [ClipRow.mark, hd, Lww.absorb, Clip.mark]

end Store

namespace Session

section
variable [Blake3]

/-- Merging a genuine clip is one push on the marks of its content. -/
theorem marks_takePush {t t' : Taken} {c : Clip} {ctx ctx' : SyncContext} (hm : c.hashMatches)
    (h : (takePush t c).eval ctx = some (.ok t', ctx')) (hash : ContentHash) :
    ctx'.store.marks hash =
      if c.hash = hash then Lww.put c.mark (ctx.store.marks hash) else ctx.store.marks hash := by
  obtain ⟨a, ha, -⟩ := takePush_ok h
  rcases apply_cases ha with ⟨-, rfl, hcase⟩ | ⟨-, -, hr, -, hrows, -, -⟩ |
    ⟨r, now, -, -, hr, hlt, hrows, -, -⟩
  · split
    · next he =>
      subst he
      rcases hcase with hm' | ⟨r, hr, hnlt⟩
      · rw [hm] at hm'
        cases hm'
      · refine (Lww.put_stale (c := c.mark) (r := r.mark) ?_ hnlt).symm
        rw [Store.rep_marks, hr]
        rfl
    · rfl
  · rw [Store.marks, Store.rowsOf_append hrows]
    split
    · next he =>
      subst he
      have hempty : ctx.store.rowsOf c.hash = [] := repOf_eq_none.1 (Store.rep_eq _ _ ▸ hr)
      rw [Store.marks, hempty]
      rfl
    · rfl
  · obtain ⟨hmem, hhash⟩ := Store.mem_of_rep hr
    split
    · next he =>
      subst he
      have hrep : Lww.rep (ctx.store.marks c.hash) = some r.mark := by
        rw [Store.rep_marks, hr]
        rfl
      rw [Store.marks_absorbed hr hrows, Lww.put, hrep]
      exact (if_pos hlt).symm
    · next hne =>
      rw [Store.marks, Store.rowsOf_absorbed hmem hrows, if_neg (hhash ▸ hne), Store.marks]

theorem marks_takeAll {clips : List Clip} {t t' : Taken} {ctx ctx' : SyncContext}
    (hm : ∀ c ∈ clips, c.hashMatches) (h : (takeAll clips t).eval ctx = some (.ok t', ctx'))
    (hash : ContentHash) :
    ctx'.store.marks hash = (clips.filter (·.hash = hash)).foldl (fun ms c => Lww.put c.mark ms)
      (ctx.store.marks hash) := by
  induction clips generalizing t ctx with
  | nil =>
    rw [takeAll_nil] at h
    cases h
    rfl
  | cons c clips ih =>
    obtain ⟨t₁, ctx₁, h₁, h₂⟩ := takeAll_cons_ok h
    rw [ih (fun c' hc' => hm c' (List.mem_cons_of_mem _ hc')) h₂,
      marks_takePush (hm c List.mem_cons_self) h₁, List.filter_cons]
    by_cases he : c.hash = hash <;> simp [he]

/-! ## A turn on the marks -/

omit [Blake3] in
/-- Whenever a content is wanted, the clip that represents it is pushed. -/
theorem filter_pushedBy {a b : Store} {hash : ContentHash} {r : ClipRow}
    (hr : a.rep hash = some r) :
    (pushedBy a b).filter (fun c => c.hash = hash) =
      List.replicate ((b.wanted a.summaries).count hash) r.toClip := by
  have hh : ∀ h c, a.byHashIncludingDeleted h = some c → c.hash = h := by
    intro h c hc
    rw [Store.byHashIncludingDeleted_eq] at hc
    obtain ⟨r', hr', rfl⟩ := Option.map_eq_some_iff.1 hc
    exact (Store.mem_of_rep hr').2
  rw [pushedBy]
  generalize b.wanted a.summaries = hashes
  induction hashes with
  | nil => rfl
  | cons h hashes ih =>
    by_cases he : h = hash
    · subst he
      have hc : a.byHashIncludingDeleted h = some r.toClip := by
        rw [Store.byHashIncludingDeleted_eq, hr]
        rfl
      rw [List.filterMap_cons, hc, List.filter_cons, if_pos (by simp [hh h _ hc]), ih,
        List.count_cons_self, List.replicate_succ]
    · rw [List.count_cons_of_ne he, ← ih, List.filterMap_cons]
      cases hc : a.byHashIncludingDeleted h with
      | none => rfl
      | some c => rw [List.filter_cons, if_neg (by simp [hh h c hc, he])]

omit [Blake3] in
theorem lacks_eq (s : Store) (r : ClipRow) :
    s.lacks r.summary = Lww.lacks (s.marks r.hash) r.mark := by
  have hs : r.summary.hash = r.hash := rfl
  rw [Store.lacks, Lww.lacks, Store.rep_marks, hs]
  cases s.rep r.hash <;> rfl

omit [Blake3] in
/-- When the whole history is offered, a content is wanted once for each newer mark. -/
theorem count_wanted {a b : Store} (h : a.rows.length ≤ historyLimit) (hash : ContentHash) :
    (b.wanted a.summaries).count hash = Lww.newer (a.marks hash) (b.marks hash) := by
  have hperm := Store.byHlc_perm a.clip.rows
  have hmarks : a.marks hash = (a.rowsOf hash).map ClipRow.mark := rfl
  have hs : a.summaries = (Store.byHlc a.clip.rows).map ClipRow.summary := by
    rw [Store.summaries_eq, List.take_of_length_le (hperm.length_eq ▸ h)]
  rw [Store.wanted, hs, List.count, List.countP_map, List.countP_filter, List.countP_map,
    hperm.countP_eq, Lww.newer, hmarks, List.countP_map, Store.rowsOf, List.countP_filter]
  refine List.countP_congr fun r _ => ?_
  have hhash : r.summary.hash = r.hash := rfl
  simp only [Function.comp_apply, hhash, beq_iff_eq, Bool.and_eq_true, decide_eq_true_eq, lacks_eq]
  rw [and_comm]
  exact and_congr_left fun he => by rw [he]

/-- **A turn is a turn on the marks of every content.** -/
theorem turn_marks {a b b₁ a' b' : SyncContext} {t : Taken} (h : Turn a b t b₁ a' b')
    (ha : Store.Sound a.store) (hfit : a.store.rows.length ≤ historyLimit) (hash : ContentHash) :
    b'.store.marks hash = Lww.turn (a.store.marks hash) (b.store.marks hash) := by
  obtain ⟨o, hm⟩ := h.merged
  have hgen : ∀ c ∈ pushedBy a.store b.store, c.hashMatches := by
    intro c hc
    obtain ⟨r, hr, rfl⟩ := mem_pushedBy hc
    exact (ha r (Store.mem_of_rep hr).1).hash
  have hrows : b'.store.marks hash = b₁.store.marks hash := by
    rw [Store.marks, Store.marks, Store.rowsOf_of_rows_eq (h.stored ▸ Store.rows_receiveBlobs _ _)]
  rw [hrows, marks_takeAll hgen hm, Lww.turn, Store.rep_marks]
  cases hr : a.store.rep hash with
  | none =>
    have hnone : (pushedBy a.store b.store).filter (fun c => c.hash = hash) = [] := by
      refine List.filter_eq_nil_iff.2 fun c hc => ?_
      obtain ⟨r, hr', -⟩ := mem_pushedBy hc
      have hne : c.hash ≠ hash := by
        rintro rfl
        rw [hr] at hr'
        cases hr'
      simpa using hne
    rw [hnone]
    rfl
  | some r =>
    rw [filter_pushedBy hr, count_wanted hfit]
    simp only [Option.map_some]
    generalize Lww.newer (a.store.marks hash) (b.store.marks hash) = n
    generalize b.store.marks hash = ms
    induction n generalizing ms with
    | zero => rfl
    | succ n ih =>
      rw [List.replicate_succ, List.foldl_cons, ih, Function.iterate_succ_apply]
      rfl

/-! ## A session on the marks -/

/-- Both histories are short enough to be offered as a whole, in the first turn that of `a`, in the
second that of `b` with the contents that it has got from `a`. -/
structure Fits (a b : Store) : Prop where
  first : a.rows.length ≤ historyLimit
  second : b.rows.length +
    ((a.rows.map (·.hash)).dedup.filter fun hash => (b.rep hash).isNone).length ≤ historyLimit

omit [Blake3] in
theorem fits_of_add_le {a b : Store} (h : a.rows.length + b.rows.length ≤ historyLimit) :
    Fits a b := by
  refine ⟨by omega, ?_⟩
  have hle := (List.filter_sublist (p := fun hash => (b.rep hash).isNone)
    (l := (a.rows.map (·.hash)).dedup)).length_le
  have hle' := (List.dedup_sublist (a.rows.map (·.hash))).length_le
  rw [List.length_map] at hle'
  omega

section
variable {a b b₁ a' b' : SyncContext} {t : Taken}

theorem Turn.length_le (h : Turn a b t b₁ a' b') (hfit : Fits a.store b.store) :
    b'.store.rows.length ≤ historyLimit := by
  obtain ⟨o, hm⟩ := h.merged
  have hinv := takeInv_takeAll (takeInv_nil b.store o) hm
  rw [List.nil_append] at hinv
  have hsub : (newClips b.store (pushedBy a.store b.store)).map (·.hash) ⊆
      (a.store.rows.map (·.hash)).dedup.filter fun hash => (b.store.rep hash).isNone := by
    intro hash hh
    obtain ⟨c, hc, rfl⟩ := List.mem_map.1 hh
    obtain ⟨hmem, hnone⟩ := mem_newClips hc
    obtain ⟨r, hr, -⟩ := mem_pushedBy hmem
    obtain ⟨hrow, hrh⟩ := Store.mem_of_rep hr
    refine List.mem_filter.2 ⟨List.mem_dedup.2 (List.mem_map.2 ⟨r, hrow, hrh⟩), ?_⟩
    rw [hnone]
    rfl
  have hle := (List.subperm_of_subset (newClips_hashes b.store (pushedBy a.store b.store)) hsub).length_le
  rw [List.length_map] at hle
  have hrows : b'.store.rows = b₁.store.rows := by rw [h.stored, Store.rows_receiveBlobs]
  rw [hrows, hinv.count]
  exact (Nat.add_le_add_left hle _).trans hfit.second

end

/-- **A session is an exchange of the marks of every content.** -/
theorem session_marks {a b : SyncContext} {epochA epochB : UInt64} {F : Link syncWire SyncOutcome}
    (ha : Store.Sound a.store) (hb : Store.Sound b.store) (hfit : Fits a.store b.store)
    (h : Completes (sessionLink a b epochA epochB) F) (hash : ContentHash) :
    (F.1.state.store.marks hash, F.2.state.store.marks hash) =
      Lww.exchange (a.store.marks hash) (b.store.marks hash) := by
  obtain ⟨t, b₁, a', b', hlc, t', a₁, hlc', h₁, h₂, -, -⟩ := completes_session h
  have ha' : a'.store.marks hash = a.store.marks hash := by
    rw [Store.marks, Store.marks, Store.rowsOf_of_rows_eq h₁.sender.rows]
  have hb' : F.2.state.store.marks hash = b'.store.marks hash := by
    rw [Store.marks, Store.marks, Store.rowsOf_of_rows_eq h₂.sender.rows]
  rw [hb', turn_marks h₂ (h₁.sound ha hb) (h₁.length_le hfit), turn_marks h₁ ha hfit.first, ha']
  rfl

/-! ## Agreement -/

/-- Both devices answer for the content with the deleted flag, the pinned flag and the HLC of a row
that has the greatest HLC either had. -/
def Agree (a b a' b' : Store) (hash : ContentHash) : Prop :=
  ∃ m ∈ a.rowsOf hash ++ b.rowsOf hash, (∀ r ∈ a.rowsOf hash ++ b.rowsOf hash, r.hlc ≤ m.hlc) ∧
    (a'.byHashIncludingDeleted hash).map Clip.mark = some m.mark ∧
    (b'.byHashIncludingDeleted hash).map Clip.mark = some m.mark

omit [Blake3] in
theorem map_mark_byHash (s : Store) (hash : ContentHash) :
    (s.byHashIncludingDeleted hash).map Clip.mark = Lww.rep (s.marks hash) := by
  rw [Store.byHashIncludingDeleted_eq, Option.map_map, Store.rep_marks]
  rfl

omit [Blake3] in
theorem agree_iff (a b a' b' : Store) (hash : ContentHash) :
    (a.rowsOf hash ++ b.rowsOf hash ≠ [] → Agree a b a' b' hash) ↔
      Lww.Converged (a.marks hash) (b.marks hash) (a'.marks hash, b'.marks hash) := by
  have happ : a.marks hash ++ b.marks hash = (a.rowsOf hash ++ b.rowsOf hash).map ClipRow.mark :=
    List.map_append.symm
  have hne : a.marks hash ++ b.marks hash = [] ↔ a.rowsOf hash ++ b.rowsOf hash = [] := by
    rw [happ, List.map_eq_nil_iff]
  rw [Lww.Converged, hne, Agree, map_mark_byHash, map_mark_byHash, imp_iff_not_or, not_ne_iff,
    happ]
  refine or_congr_right ⟨?_, ?_⟩
  · rintro ⟨m, hm, hmax, h₁, h₂⟩
    exact ⟨m.mark, List.mem_map_of_mem hm, List.forall_mem_map.2 hmax, h₁, h₂⟩
  · rintro ⟨m, hm, hmax, h₁, h₂⟩
    obtain ⟨r, hr, rfl⟩ := List.mem_map.1 hm
    exact ⟨r, hr, List.forall_mem_map.1 hmax, h₁, h₂⟩

section
variable {a b : SyncContext} {epochA epochB : UInt64} {F : Link syncWire SyncOutcome}

/-- **A session converges** exactly when the marks of each content settle. -/
theorem converges_iff (ha : Store.Reachable a.store) (hb : Store.Reachable b.store)
    (hfit : Fits a.store b.store) (h : Completes (sessionLink a b epochA epochB) F) :
    (∀ hash, a.store.rowsOf hash ++ b.store.rowsOf hash ≠ [] →
      Agree a.store b.store F.1.state.store F.2.state.store hash) ↔
        ∀ hash, Lww.Settles (a.store.marks hash) (b.store.marks hash) := by
  refine forall_congr' fun hash => ?_
  rw [agree_iff, session_marks ha.sound hb.sound hfit h]
  exact Lww.converged_iff (Store.layered_marks _ _) (Store.layered_marks _ _)

end

/-! ### Worked sessions -/

theorem marks_copied (id : Nat) (device : DeviceId) (hlc : Hlc) (hash : ContentHash) :
    (Store.copied id device hlc).marks hash =
      if Clip.hiContent = hash then [⟨hlc, false, false⟩] else [] := by
  have hh : (ClipRow.of (.hi id device hlc)).hash = Clip.hiContent := rfl
  rw [Store.marks, Store.rowsOf, (Store.copied_spec id device hlc).2]
  by_cases he : Clip.hiContent = hash
  · rw [List.filter_cons_of_pos (by simp [hh, he]), if_pos he]
    rfl
  · rw [List.filter_cons_of_neg (by simp [hh, he]), if_neg he]
    rfl

theorem marks_recopied (n : Nat) (hash : ContentHash) :
    (Store.recopied n).marks hash =
      if Clip.hiContent = hash then (List.range n).map fun k => (Store.tombstone k).mark else [] := by
  have hh : ∀ k, (Store.tombstone k).hash = Clip.hiContent := fun k => rfl
  rw [Store.marks, Store.rowsOf, (Store.recopied_spec n).2, List.filter_map]
  by_cases he : Clip.hiContent = hash
  · rw [List.filter_eq_self.2 fun k _ => by simp [hh, he], if_pos he, List.map_map]
    rfl
  · rw [List.filter_eq_nil_iff.2 fun k _ => by simp [hh, he], if_neg he]
    rfl

theorem fits_copier {n m : UInt8} {wall wall' : UInt64} :
    Fits (copier n wall).store (copier m wall').store := by
  refine fits_of_add_le ?_
  rw [copier, copier, SyncContext.start_store, SyncContext.start_store,
    (Store.copied_spec _ _ _).2, (Store.copied_spec _ _ _).2]
  exact (by decide : 2 ≤ historyLimit)

theorem fits_recopier {n : UInt8} {wall : UInt64} {k : Nat} (hk : k < historyLimit) :
    Fits (copier n wall).store (recopier k).store := by
  refine fits_of_add_le ?_
  rw [copier, recopier, SyncContext.start_store, SyncContext.start_store,
    (Store.copied_spec _ _ _).2, (Store.recopied_spec _).2, List.length_map, List.length_range]
  exact Nat.add_comm k 1 ▸ hk

end

section
attribute [local instance] Blake3.examples

/-- A copy made after the other device has deleted the same text does not come back there. -/
theorem undelete_lost :
    ¬ ∀ (a b : SyncContext) (epochA epochB : UInt64) (F : Link syncWire SyncOutcome),
      Store.Reachable a.store → Store.Reachable b.store →
      Completes (sessionLink a b epochA epochB) F →
      ∀ hash, a.store.rowsOf hash ++ b.store.rowsOf hash ≠ [] →
        Agree a.store b.store F.1.state.store F.2.state.store hash := by
  intro h
  have ha : Store.Reachable (copier 2 2).store := (Store.copied_spec _ _ _).1
  have hb : Store.Reachable (recopier 1).store := (Store.recopied_spec 1).1
  obtain ⟨F, hF⟩ := session_completes ha.sound hb.sound
    ((onlyHi_copied _ _ _).compatible (onlyHi_recopied 1)) 0 0
  have hagree := (agree_iff _ _ _ _ _).1 (h _ _ 0 0 F ha hb hF Clip.hiContent)
  rw [session_marks ha.sound hb.sound (fits_recopier (by decide)) hF,
    Lww.converged_iff (Store.layered_marks _ _) (Store.layered_marks _ _), copier, recopier,
    SyncContext.start_store, SyncContext.start_store, marks_copied, marks_recopied, if_pos rfl,
    if_pos rfl] at hagree
  exact Lww.not_settles_of_undelete (Lww.rep_singleton _) (Lww.rep_singleton _) (by decide) rfl rfl
    hagree

/-- Two live copies of one text: both devices end with the newer one. -/
theorem converges_iff_copied :
    ∃ F, Completes (sessionLink (copier 2 2) (copier 1 1) 0 0) F ∧
      ∀ hash, (copier 2 2).store.rowsOf hash ++ (copier 1 1).store.rowsOf hash ≠ [] →
        Agree (copier 2 2).store (copier 1 1).store F.1.state.store F.2.state.store hash := by
  have ha : Store.Reachable (copier 2 2).store := (Store.copied_spec _ _ _).1
  have hb : Store.Reachable (copier 1 1).store := (Store.copied_spec _ _ _).1
  obtain ⟨F, hF⟩ := session_completes ha.sound hb.sound
    ((onlyHi_copied _ _ _).compatible (onlyHi_copied _ _ _)) 0 0
  refine ⟨F, hF, (converges_iff ha hb fits_copier hF).2 fun hash => ?_⟩
  rw [copier, copier, SyncContext.start_store, SyncContext.start_store, marks_copied, marks_copied]
  split
  · exact Lww.settles_of_live (Lww.rep_singleton _) (Lww.rep_singleton _) (by decide) rfl rfl
      (by simp [Lww.Newest]; decide)
  · trivial

end

/-! ## Idle sessions -/

section
variable [Blake3]

/-- Whatever the two ends do, they send no clip and no blob. -/
def Idle (c : Link syncWire SyncOutcome) : Prop :=
  ∀ F, Steps c F → pushesIn F.1.sent = [] ∧ pushesIn F.2.sent = [] ∧
    F.1.sentStreams = [] ∧ F.2.sentStreams = []

omit [Blake3] in
theorem pushedBy_eq_nil {a b : Store} (h : a.rows.length ≤ historyLimit) :
    pushedBy a b = [] ↔ ∀ hash, Lww.newer (a.marks hash) (b.marks hash) = 0 := by
  have hw : pushedBy a b = [] ↔ b.wanted a.summaries = [] := by
    rw [← List.length_eq_zero_iff, pushedBy_length, List.length_eq_zero_iff]
  rw [hw, List.eq_nil_iff_forall_not_mem]
  refine forall_congr' fun hash => ?_
  rw [← count_wanted h, List.count_eq_zero]

/-- Traffic without clips and blobs. -/
def NoData (log : List (Traffic SyncMessage Bytes)) : Prop :=
  pushesIn (Traffic.sentMsgs log) = [] ∧ Traffic.sentBytes log = []

omit [Blake3] in
theorem NoData.append {log log' : List (Traffic SyncMessage Bytes)} (h : NoData log)
    (h' : NoData log') : NoData (log ++ log') := by
  rw [NoData, Traffic.sentMsgs_append, Traffic.sentBytes_append, pushesIn_append, h.1, h.2, h'.1,
    h'.2]
  exact ⟨rfl, rfl⟩

omit [Blake3] in
theorem NoData.of_prefix {log log' : List (Traffic SyncMessage Bytes)} (h : NoData log')
    (hp : log <+: log') : NoData log := by
  obtain ⟨rest, rfl⟩ := hp
  rw [NoData, Traffic.sentMsgs_append, Traffic.sentBytes_append, pushesIn_append] at h
  exact ⟨(List.append_eq_nil_iff.1 h.1).1, (List.append_eq_nil_iff.1 h.2).1⟩

section
variable {a b : SyncContext} {oa ob : SyncOutcome} {la lb : List (Traffic SyncMessage Bytes)}
  {qa qb : SyncOutcome → Session SyncOutcome}

/-- A turn in which nothing is wanted. -/
theorem steps_idle_turn (h : pushedBy a.store b.store = []) (ha : NoData la) (hb : NoData lb) :
    ∃ a' b' oa' ob' la' lb', Store.SameData a.store a'.store ∧ b'.store = b.store ∧
      NoData la' ∧ NoData lb' ∧
      Steps (⟨offerOurHistory oa >>= qa, a, [], [], la⟩, ⟨takeTheirHistory ob >>= qb, b, [], [], lb⟩)
        (⟨qa oa', a', [], [], la'⟩, ⟨qb ob', b', [], [], lb'⟩) := by
  have hm : (takeAll (pushedBy a.store b.store) { outcome := ob }).eval b =
      some (.ok { outcome := ob }, b) := by rw [h, takeAll_nil]
  obtain ⟨a', b', oa', ob', hlc, hturn, hs⟩ := @steps_turn _ _ a b qa qb oa ob la lb _ _ hm
  refine ⟨a', b', oa', ob', _, _, hturn.sender, hturn.stored, ?_, ?_, hs⟩
  · refine ha.append ⟨?_, ?_⟩
    · rw [sentMsgs_offerLog, h, pushesIn_append, pushesIn_summaryPages]
      rfl
    · rw [sentBytes_offerLog]
      rfl
  · exact hb.append ⟨by rw [sentMsgs_takeLog]; rfl, sentBytes_takeLog _ _ _ _ _⟩

/-- A turn in which something is wanted gets as far as its pushes. -/
theorem steps_busy_turn (h : pushedBy a.store b.store ≠ []) :
    ∃ F, Steps (⟨offerOurHistory oa >>= qa, a, [], [], la⟩,
      ⟨takeTheirHistory ob >>= qb, b, [], [], lb⟩) F ∧ pushesIn F.1.sent ≠ [] := by
  simp only [offerOurHistory, takeTheirHistory, bind_assoc]
  refine ⟨_, steps_offerClips oa ob, ?_⟩
  rw [End.sent, Traffic.sentMsgs_append, Traffic.sentMsgs_sent, pushesIn_append, pushesIn_push]
  exact fun he => h (List.append_eq_nil_iff.1 he).2

end

/-- **A session is idle** exactly when neither device has anything newer for any content. -/
theorem idle_iff {a b : SyncContext} (epochA epochB : UInt64)
    (ha : a.store.rows.length ≤ historyLimit) (hb : b.store.rows.length ≤ historyLimit) :
    Idle (sessionLink a b epochA epochB) ↔
      ∀ hash, Lww.Quiet (a.store.marks hash, b.store.marks hash) := by
  have hhello := steps_hello a b epochA epochB
  by_cases h₁ : pushedBy a.store b.store = []
  · obtain ⟨a', b', oa, ob, la, lb, hsa, hsb, hla, hlb, hs₁⟩ :=
      @steps_idle_turn _ a b {} {} [.sent (helloOf a epochA), .received (helloOf b epochB)]
        [.received (helloOf a epochA), .sent (helloOf b epochB)] takeTheirHistory offerOurHistory h₁
        ⟨rfl, rfl⟩ ⟨rfl, rfl⟩
    have hma : ∀ hash, a'.store.marks hash = a.store.marks hash := fun hash => by
      rw [Store.marks, Store.marks, Store.rowsOf_of_rows_eq hsa.rows]
    have hquiet : (∀ hash, Lww.Quiet (a.store.marks hash, b.store.marks hash)) ↔
        pushedBy b'.store a'.store = [] := by
      rw [pushedBy_eq_nil (hsb ▸ hb)]
      refine forall_congr' fun hash => ?_
      rw [Lww.Quiet, hma, hsb]
      exact and_iff_right ((pushedBy_eq_nil ha).1 h₁ hash)
    rw [hquiet]
    rw [← bind_pure (takeTheirHistory oa), ← bind_pure (offerOurHistory ob)] at hs₁
    constructor
    · intro hidle
      by_contra h₂
      obtain ⟨F, hF, hne⟩ := @steps_busy_turn _ b' a' ob oa lb la pure pure h₂
      exact hne (hidle F.swap (hhello.trans (hs₁.trans hF.swap))).2.1
    · intro h₂
      obtain ⟨b'', a'', ob', oa', lb', la', -, -, hlb', hla', hs₂⟩ :=
        @steps_idle_turn _ b' a' ob oa lb la pure pure h₂ hlb hla
      have hrun := hhello.trans (hs₁.trans hs₂.swap)
      intro F hF
      have hend := Completes.of_steps ⟨hrun, ⟨_, rfl⟩, ⟨_, rfl⟩⟩ hF
      obtain ⟨hp₁, hp₂⟩ := steps_log hend
      have hn₁ := hla'.of_prefix hp₁
      have hn₂ := hlb'.of_prefix hp₂
      exact ⟨hn₁.1, hn₂.1, hn₁.2, hn₂.2⟩
  · refine iff_of_false (fun hidle => ?_) fun hq => h₁ ((pushedBy_eq_nil ha).2 fun hash => (hq hash).1)
    obtain ⟨F, hF, hne⟩ := @steps_busy_turn _ a b {} {}
      [.sent (helloOf a epochA), .received (helloOf b epochB)]
      [.received (helloOf a epochA), .sent (helloOf b epochB)] takeTheirHistory offerOurHistory h₁
    exact hne (hidle F (hhello.trans hF)).1

/-- The contents that `b` has after a turn were its own or were pushed. -/
theorem Turn.known {a b b₁ a' b' : SyncContext} {t : Taken} (h : Turn a b t b₁ a' b')
    {r : ClipRow} (hr : r ∈ b'.store.rows) :
    b.store.rep r.hash ≠ none ∨ a.store.rep r.hash ≠ none := by
  obtain ⟨o, hm⟩ := h.merged
  have hinv := takeInv_takeAll (takeInv_nil b.store o) hm
  rw [List.nil_append] at hinv
  have hrow : r ∈ b₁.store.rows := by
    rwa [h.stored, Store.rows_receiveBlobs] at hr
  by_contra hc
  rw [not_or, not_not, not_not] at hc
  have hnone : b₁.store.rep r.hash = none := by
    refine (hinv.known r.hash).2 ⟨hc.1, fun c hcn he => ?_⟩
    obtain ⟨r', hr', -⟩ := mem_pushedBy (mem_newClips hcn).1
    rw [he, hc.2] at hr'
    cases hr'
  exact Store.rep_eq_none.1 hnone r hrow rfl

section
variable {a b : SyncContext} {epochA epochB : UInt64} {F : Link syncWire SyncOutcome}

/-- Both devices can offer their whole histories after the session. -/
theorem length_le_of_session (hab : Fits a.store b.store) (hba : Fits b.store a.store)
    (h : Completes (sessionLink a b epochA epochB) F) :
    F.1.state.store.rows.length ≤ historyLimit ∧ F.2.state.store.rows.length ≤ historyLimit := by
  obtain ⟨t, b₁, a', b', hlc, t', a₁, hlc', h₁, h₂, -, -⟩ := completes_session h
  have hb' := h₁.length_le hab
  have hrepa : ∀ hash, a'.store.rep hash = a.store.rep hash := h₁.sender.rep
  refine ⟨h₂.length_le ⟨hb', ?_⟩, by rw [h₂.sender.rows]; exact hb'⟩
  -- what `a` does not know of `b` after the first turn it did not know before
  have hsub : ((b'.store.rows.map (·.hash)).dedup.filter fun hash => (a'.store.rep hash).isNone) ⊆
      (b.store.rows.map (·.hash)).dedup.filter fun hash => (a.store.rep hash).isNone := by
    intro hash hh
    obtain ⟨hmem, hnone⟩ := List.mem_filter.1 hh
    obtain ⟨r, hr, rfl⟩ := List.mem_map.1 (List.mem_dedup.1 hmem)
    rw [hrepa, Option.isNone_iff_eq_none] at hnone
    obtain ⟨r', hr'⟩ := Option.ne_none_iff_exists'.1 ((h₁.known hr).resolve_right (not_not.2 hnone))
    obtain ⟨hrow, hrh⟩ := Store.mem_of_rep hr'
    exact List.mem_filter.2 ⟨List.mem_dedup.2 (List.mem_map.2 ⟨r', hrow, hrh⟩), by simp [hnone]⟩
  have hle := (List.subperm_of_subset ((List.nodup_dedup _).filter _) hsub).length_le
  rw [h₁.sender.rows]
  exact (Nat.add_le_add_left hle _).trans hba.second

/-- **The next session is idle**, whoever dials, exactly when the marks of each content meet. -/
theorem next_idle_iff (ha : Store.Reachable a.store) (hb : Store.Reachable b.store)
    (hab : Fits a.store b.store) (hba : Fits b.store a.store)
    (h : Completes (sessionLink a b epochA epochB) F) (epoch epoch' : UInt64) :
    (Idle (sessionLink F.1.state F.2.state epoch epoch') ↔
      ∀ hash, Lww.Meets (a.store.marks hash) (b.store.marks hash)) ∧
    (Idle (sessionLink F.2.state F.1.state epoch epoch') ↔
      ∀ hash, Lww.Meets (a.store.marks hash) (b.store.marks hash)) := by
  obtain ⟨h₁, h₂⟩ := length_le_of_session hab hba h
  have hq : ∀ hash, Lww.Quiet (F.1.state.store.marks hash, F.2.state.store.marks hash) ↔
      Lww.Meets (a.store.marks hash) (b.store.marks hash) := by
    intro hash
    rw [session_marks ha.sound hb.sound hab h]
    exact Lww.quiet_iff (Store.layered_marks _ _) (Store.layered_marks _ _)
  constructor
  · rw [idle_iff _ _ h₁ h₂]
    exact forall_congr' hq
  · rw [idle_iff _ _ h₂ h₁]
    exact forall_congr' fun hash => and_comm.trans (hq hash)

end

end

section
attribute [local instance] Blake3.examples

/-- A content that was copied and deleted twice, and copied by the other device in between, is
pushed in every session. -/
theorem pushed_again :
    ¬ ∀ (a b : SyncContext) (epochA epochB : UInt64) (F : Link syncWire SyncOutcome),
      Store.Reachable a.store → Store.Reachable b.store →
      Completes (sessionLink a b epochA epochB) F →
      Idle (sessionLink F.1.state F.2.state epochA epochB) := by
  intro h
  have ha : Store.Reachable (copier 2 2).store := (Store.copied_spec _ _ _).1
  have hb : Store.Reachable (recopier 2).store := (Store.recopied_spec 2).1
  obtain ⟨F, hF⟩ := session_completes ha.sound hb.sound
    ((onlyHi_copied _ _ _).compatible (onlyHi_recopied 2)) 0 0
  have hfit : Fits (copier 2 2).store (recopier 2).store := fits_recopier (by decide)
  have hfit' : Fits (recopier 2).store (copier 2 2).store := by
    refine fits_of_add_le ?_
    rw [copier, recopier, SyncContext.start_store, SyncContext.start_store,
      (Store.copied_spec _ _ _).2, (Store.recopied_spec _).2]
    exact (by decide : 3 ≤ historyLimit)
  obtain ⟨h₁, h₂⟩ := length_le_of_session hfit hfit' hF
  have hquiet := (idle_iff 0 0 h₁ h₂).1 (h _ _ 0 0 F ha hb hF) Clip.hiContent
  rw [session_marks ha.sound hb.sound hfit hF,
    Lww.quiet_iff (Store.layered_marks _ _) (Store.layered_marks _ _), copier, recopier,
    SyncContext.start_store, SyncContext.start_store, marks_copied, marks_recopied, if_pos rfl,
    if_pos rfl] at hquiet
  refine Lww.not_meets_of_newer (Lww.rep_singleton _) (Lww.rep_dead ?_) (by decide) rfl
    (List.mem_cons_of_mem _ (List.mem_singleton_self _)) (by decide) hquiet
  simp [Store.tombstone, ClipRow.mark, Store.bury]

/-- Two live copies of one text: the session after the first is idle. -/
theorem next_idle_iff_copied :
    ∃ F, Completes (sessionLink (copier 2 2) (copier 1 1) 0 0) F ∧
      Idle (sessionLink F.1.state F.2.state 0 0) ∧ Idle (sessionLink F.2.state F.1.state 0 0) := by
  have ha : Store.Reachable (copier 2 2).store := (Store.copied_spec _ _ _).1
  have hb : Store.Reachable (copier 1 1).store := (Store.copied_spec _ _ _).1
  obtain ⟨F, hF⟩ := session_completes ha.sound hb.sound
    ((onlyHi_copied _ _ _).compatible (onlyHi_copied _ _ _)) 0 0
  have hmeets : ∀ hash, Lww.Meets ((copier 2 2).store.marks hash) ((copier 1 1).store.marks hash) := by
    intro hash
    rw [copier, copier, SyncContext.start_store, SyncContext.start_store, marks_copied,
      marks_copied]
    split
    · exact Lww.meets_of_live (Lww.rep_singleton _) (Lww.rep_singleton _) (by decide) rfl
        (by simp [Lww.Newest]; decide)
    · trivial
  obtain ⟨h₁, h₂⟩ := next_idle_iff ha hb fits_copier fits_copier hF 0 0
  exact ⟨F, hF, h₁.2 hmeets, h₂.2 hmeets⟩

end

end Session
end Clipse
