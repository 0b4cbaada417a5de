import Clipse.App.History
import Clipse.Daemon.Proof.History
import Clipse.Store.Proof.Calls

/-!
# What the history window lists

The rows that the daemon pages through for the window (`HistoryParams.listing`), and how a write
changes them (`DaemonWrite.run_cases`): only a clip that is announced as added, and with the pinned
filter a clip that is pinned, can come in.
-/

namespace Clipse

/-! ## Pages -/

namespace HistoryParams

variable [Fts5]

/-- Does the search find the clip? -/
def finds (params : HistoryParams) (s : Store) (id : ClipId) : Bool :=
  if jsTrim params.searchText = [] then true
  else
    match escapeQuery (jsTrim params.searchText) with
    | none => false
    | some matchExpr =>
      match Fts5.lex matchExpr >>= Fts5.parse with
      | .ok isMatch => id ∈ (s.clipFts.filter (isMatch ·.body)).map (·.clipId)
      | .error _ => false

/-- A live row that matches the query. -/
def wants (params : HistoryParams) (s : Store) (r : ClipRow) : Bool :=
  !r.deleted && (serverKindForFilter params.typeFilter).all (r.kind = ·) &&
    (!params.pinnedOnly || r.pinned) && params.finds s r.id

/-- These rows, newest first. -/
def listing (params : HistoryParams) (s : Store) : List ClipRow :=
  (s.rows.filter (params.wants s)).insertionSort fun a b => b.hlc.column ≤ a.hlc.column

variable {params : HistoryParams} {s : Store}

theorem mem_listing {r : ClipRow} : r ∈ params.listing s ↔ r ∈ s.rows ∧ params.wants s r := by
  rw [listing, (List.perm_insertionSort _ _).mem_iff, List.mem_filter]

theorem nodup_listing : ((params.listing s).map (·.id)).Nodup := by
  rw [listing, ((List.perm_insertionSort _ _).map _).nodup_iff]
  exact s.clip.nodup.sublist (List.filter_sublist.map _)

theorem live_of_wants {r : ClipRow} (h : params.wants s r) : r.deleted = false := by
  simp only [wants, Bool.and_eq_true, Bool.not_eq_true'] at h
  exact h.1.1.1

/-- The query of a request for a page. -/
def query (params : HistoryParams) (offset : Nat) : IpcHistoryQuery :=
  { limit := historyPageSize, offset := offset.toUInt32,
    kind := serverKindForFilter params.typeFilter, pinnedOnly := params.pinnedOnly }

omit [Fts5] in
theorem page_query {α : Type} {offset : Nat} (h : offset < 2 ^ 32) (rows : List α) :
    (toStoreQuery (params.query offset)).page rows = (rows.drop offset).take 150 := by
  rw [page_toStoreQuery]
  have ho : (params.query offset).offset.toNat = offset := UInt32.toNat_ofNat_of_lt' h
  rw [ho]
  rfl

theorem recent_query {offset : Nat} (h : offset < 2 ^ 32) (htrim : jsTrim params.searchText = []) :
    s.recent (toStoreQuery (params.query offset)) =
      (((params.listing s).drop offset).take 150).map ClipRow.toClip := by
  have hwants : params.wants s = fun r : ClipRow =>
      !r.deleted && (serverKindForFilter params.typeFilter).all (r.kind = ·) &&
        (!params.pinnedOnly || r.pinned) := by
    funext r
    rw [wants, finds, if_pos htrim, Bool.and_true]
  rw [Store.recent_eq, page_query h, listing, hwants]
  rfl

theorem search_query {offset : Nat} {page : List Clip} (h : offset < 2 ^ 32)
    (htrim : jsTrim params.searchText ≠ [])
    (hpage : s.search (jsTrim params.searchText) (toStoreQuery (params.query offset)) = .ok page) :
    page = (((params.listing s).drop offset).take 150).map ClipRow.toClip := by
  unfold Store.search at hpage
  split at hpage
  · next hescape =>
    have hnone : params.listing s = [] := by
      refine List.eq_nil_iff_forall_not_mem.mpr fun r hr => ?_
      have hw := (mem_listing.mp hr).2
      simp [wants, finds, htrim, hescape] at hw
    rw [← Except.ok.inj hpage, hnone, List.drop_nil]
    rfl
  · next matchExpr hescape =>
    cases hlex : Fts5.lex matchExpr with
    | error e =>
      rw [hlex] at hpage
      cases hpage
    | ok tokens =>
      cases hparse : Fts5.parse tokens with
      | error e =>
        simp only [hlex, bind, Except.bind, hparse] at hpage
        cases hpage
      | ok isMatch =>
        simp only [hlex, bind, Except.bind, hparse, pure, Except.pure, Except.ok.injEq] at hpage
        have hwants : params.wants s = fun r : ClipRow =>
            !r.deleted && (serverKindForFilter params.typeFilter).all (r.kind = ·) &&
              (!params.pinnedOnly || r.pinned) &&
              r.id ∈ (s.clipFts.filter (isMatch ·.body)).map (·.clipId) := by
          funext r
          rw [wants, finds, if_neg htrim]
          simp only [hescape, hlex, bind, Except.bind, hparse]
        rw [← hpage, page_query h, listing, hwants]
        rfl

/-- The daemon answers with a part of the listing. -/
theorem pageOf_eq {offset : Nat} {page : List Clip}
    (h : Browsing.pageOf params s offset = some page) :
    page = (((params.listing s).drop offset).take 150).map ClipRow.toClip := by
  unfold Browsing.pageOf request at h
  by_cases hoffset : offset < 2 ^ 32
  · by_cases htrim : jsTrim params.searchText = []
    · simp only [hoffset, htrim, ne_eq, not_true_eq_false, ↓reduceIte, Option.map_some,
        HistoryRequest.handle, Option.some.injEq] at h
      rw [← h]
      exact recent_query hoffset htrim
    · simp only [hoffset, htrim, ne_eq, not_false_eq_true, ↓reduceIte, Option.map_some,
        HistoryRequest.handle] at h
      split at h
      · next clips hpage =>
        split at hpage
        · next hsearch =>
          cases hpage
          cases h
          exact search_query hoffset htrim hsearch
        · cases hpage
      · cases h
  · rw [if_neg hoffset] at h
    cases h

end HistoryParams

/-! ## Writes -/

/-- A deleted clip, whose id is taken for good. -/
def Store.Entombed (s : Store) (id : ClipId) : Prop :=
  (∃ r ∈ s.rows, r.id = id) ∧ ∀ r ∈ s.rows, r.id = id → r.deleted

namespace HistoryParams

variable [Fts5] {params : HistoryParams} {s s' : Store}

theorem finds_of_subset {id : ClipId} (h : ∀ f ∈ s'.clipFts, f.clipId = id → f ∈ s.clipFts)
    (hf : params.finds s' id) : params.finds s id := by
  by_cases htrim : jsTrim params.searchText = []
  · rw [finds, if_pos htrim]
  cases hescape : escapeQuery (jsTrim params.searchText) with
  | none => simp [finds, htrim, hescape] at hf
  | some matchExpr =>
    cases hparse : Fts5.lex matchExpr >>= Fts5.parse with
    | error e => simp [finds, htrim, hescape, hparse] at hf
    | ok isMatch =>
      simp only [finds, htrim, ↓reduceIte, hescape, hparse, decide_eq_true_eq] at hf ⊢
      obtain ⟨f, hmem, rfl⟩ := List.mem_map.mp hf
      obtain ⟨hmem, hmatch⟩ := List.mem_filter.mp hmem
      exact List.mem_map.mpr ⟨f, List.mem_filter.mpr ⟨h f hmem rfl, hmatch⟩, rfl⟩

/-- A row that matches did so before, if it was pinned and as live, and the search index has got
nothing for it. -/
theorem wants_of {r r' : ClipRow} (hid : r'.id = r.id) (hkind : r'.kind = r.kind)
    (hdel : r'.deleted = false → r.deleted = false)
    (hpin : params.pinnedOnly → r'.pinned → r.pinned)
    (hfts : ∀ f ∈ s'.clipFts, f.clipId = r.id → f ∈ s.clipFts) (h : params.wants s' r') :
    params.wants s r := by
  simp only [wants, Bool.and_eq_true, Bool.or_eq_true, Bool.not_eq_true', hid, hkind] at h ⊢
  obtain ⟨⟨⟨hd, hk⟩, hp⟩, hf⟩ := h
  refine ⟨⟨⟨hdel hd, hk⟩, ?_⟩, finds_of_subset hfts hf⟩
  rcases hp with hp | hp
  · exact .inl hp
  · cases honly : params.pinnedOnly with
    | false => exact .inl rfl
    | true => exact .inr (hpin honly hp)

end HistoryParams

namespace Store

variable [Blake3]

/-- Every row comes from one with its id, no more alive and pinned only by a pin, or it is an
inserted clip's. -/
theorem row_of_write {s : Store} {w : Write} {r' : ClipRow} (hr' : r' ∈ (s.write w).rows) :
    (∃ r ∈ s.rows, r'.id = r.id ∧ r'.kind = r.kind ∧ (r'.deleted = false → r.deleted = false) ∧
      (r'.pinned → r.pinned ∨ ∃ hlc, w = .setPinned r.id true hlc)) ∨
    ∃ c s', w = .insert c ∧ r' = .of c ∧ s.insert c = .ok (.inserted c.id, s') := by
  cases w with
  | insert c =>
    cases h : s.insert c with
    | error e =>
      rw [write_eq_of_insert_error h] at hr'
      exact .inl ⟨r', hr', rfl, rfl, id, .inl⟩
    | ok p =>
      obtain ⟨o, s'⟩ := p
      rw [write_eq_of_insert h] at hr'
      rcases insert_cases h with ⟨-, rfl, -⟩ | ⟨e, -, -, -, -, -, hrows, -⟩ | ⟨rfl, -, -, -, hrows, -⟩
      · exact .inl ⟨r', hr', rfl, rfl, id, .inl⟩
      · rw [hrows] at hr'
        obtain ⟨r, hr, rfl⟩ := List.mem_map.mp hr'
        refine .inl ⟨r, hr, ?_⟩
        split
        · exact ⟨rfl, rfl, id, .inl⟩
        · exact ⟨rfl, rfl, id, .inl⟩
      · rw [hrows, List.mem_append, List.mem_singleton] at hr'
        rcases hr' with hr' | rfl
        · exact .inl ⟨r', hr', rfl, rfl, id, .inl⟩
        · exact .inr ⟨c, s', rfl, rfl, h⟩
  | setPinned id pinned hlc =>
    rw [rows_write_setPinned] at hr'
    obtain ⟨r, hr, rfl⟩ := List.mem_map.mp hr'
    refine .inl ⟨r, hr, ?_⟩
    split
    · next he =>
      refine ⟨rfl, rfl, fun h => h, fun h => .inr ⟨hlc, ?_⟩⟩
      rw [he, show pinned = true from h]
    · exact ⟨rfl, rfl, fun h => h, .inl⟩
  | delete id hlc now =>
    rw [rows_write_delete] at hr'
    obtain ⟨r, hr, rfl⟩ := List.mem_map.mp hr'
    refine .inl ⟨r, hr, ?_⟩
    split
    · exact ⟨rfl, rfl, nofun, .inl⟩
    · exact ⟨rfl, rfl, fun h => h, .inl⟩

/-- No row goes. -/
theorem exists_row_write {s : Store} {r : ClipRow} (hr : r ∈ s.rows) (w : Write) :
    ∃ r' ∈ (s.write w).rows, r'.id = r.id := by
  cases w with
  | insert c =>
    rcases write_insert_cases s c with ⟨e, -, -, -, -, hrows, -⟩ | ⟨-, -, -, -, hrows, -⟩ | ⟨hs, -⟩
    · rw [hrows]
      refine ⟨_, List.mem_map_of_mem hr, ?_⟩
      split <;> rfl
    · rw [hrows]
      exact ⟨r, List.mem_append_left _ hr, rfl⟩
    · rw [hs]
      exact ⟨r, hr, rfl⟩
  | setPinned id pinned hlc =>
    rw [rows_write_setPinned]
    refine ⟨_, List.mem_map_of_mem hr, ?_⟩
    split <;> rfl
  | delete id hlc now =>
    rw [rows_write_delete]
    refine ⟨_, List.mem_map_of_mem hr, ?_⟩
    split <;> rfl

/-- What the search index gets is of a clip whose id is new. -/
theorem fts_of_write {s : Store} {w : Write} {f : FtsRow} (hf : f ∈ (s.write w).clipFts) :
    f ∈ s.clipFts ∨ ∀ r ∈ s.rows, r.id ≠ f.clipId := by
  cases w with
  | insert c =>
    rcases write_insert_cases s c with ⟨e, -, -, -, -, -, hfts⟩ | ⟨-, -, -, hid, -, hfts⟩ | ⟨hs, -⟩
    · exact .inl (hfts ▸ hf)
    · rw [hfts, List.mem_append, List.mem_singleton] at hf
      rcases hf with hf | rfl
      · exact .inl hf
      · exact .inr hid
    · exact .inl (hs ▸ hf)
  | setPinned id pinned hlc => exact .inl (clipFts_write_setPinned s id pinned hlc ▸ hf)
  | delete id hlc now =>
    rw [clipFts_write_delete] at hf
    split at hf
    · exact .inl (List.mem_of_mem_filter hf)
    · exact .inl hf

theorem Entombed.write {s : Store} {id : ClipId} (h : s.Entombed id) (w : Write) :
    (s.write w).Entombed id := by
  obtain ⟨⟨r, hr, rfl⟩, hdel⟩ := h
  refine ⟨exists_row_write hr w, fun r' hr' he => ?_⟩
  rcases row_of_write hr' with ⟨r₀, hr₀, hid, -, hlive, -⟩ | ⟨c, s', rfl, rfl, hinsert⟩
  · have hdel₀ := hdel r₀ hr₀ (hid.symm.trans he)
    cases hd : r'.deleted with
    | true => rfl
    | false =>
      rw [hlive hd] at hdel₀
      cases hdel₀
  · rcases insert_cases hinsert with ⟨h, -⟩ | ⟨_, _, h, -⟩ | ⟨-, -, -, hid, -⟩
    · cases h
    · cases h
    · exact absurd he.symm (hid r hr)

omit [Blake3] in
theorem entombed_of_delete {s s' : Store} {id : ClipId} {hlc : Hlc} {now : UInt64}
    (h : s.delete id hlc now = .ok s') : s'.Entombed id := by
  have hrows := (delete_eq_ok h).1
  have hmem : ∃ r ∈ s.rows, r.id = id := by
    unfold delete at h
    split at h
    · cases h
    · next hsome => exact Table.find?_isSome.mp (Option.isSome_iff_ne_none.mpr (by simpa using hsome))
  obtain ⟨r, hr, hid⟩ := hmem
  refine ⟨?_, fun r' hr' he => ?_⟩
  · rw [hrows]
    refine ⟨_, List.mem_map_of_mem hr, ?_⟩
    split <;> exact hid
  · rw [hrows] at hr'
    obtain ⟨r₀, -, rfl⟩ := List.mem_map.mp hr'
    split at he
    · next hhit => rw [if_pos hhit]; rfl
    · next hhit =>
      rw [if_neg hhit]
      simpa [he] using hhit

omit [Blake3] in
theorem rows_of_delete_error {s : Store} {id : ClipId} {hlc : Hlc} {now : UInt64} {e : StoreError}
    (h : s.delete id hlc now = .error e) : ∀ r ∈ s.rows, r.id ≠ id := by
  unfold delete at h
  split at h
  · next hnone => exact Table.find?_eq_none.mp (by simpa using hnone)
  · cases h

end Store

namespace DaemonWrite

variable [Blake3]

/-- The write, as the store has it. -/
def call : DaemonWrite → Store.Write
  | .capture clip => .insert clip
  | .push clip => .insert clip
  | .setPinned id pinned hlc _ => .setPinned id pinned hlc
  | .delete id hlc now => .delete id hlc now

theorem run_fst (s : Store) (w : DaemonWrite) : (w.run s).1 = s.write w.call := by
  cases w with
  | capture clip =>
    simp only [run, call]
    split
    · next h => exact (Store.write_eq_of_insert h).symm
    · next h => exact (Store.write_eq_of_insert h).symm
    · next h => exact (Store.write_eq_of_insert h).symm
    · next h => exact (Store.write_eq_of_insert_error h).symm
  | push clip =>
    simp only [run, call]
    split
    · next h => exact (Store.write_eq_of_insert h).symm
    · next h => exact (Store.write_eq_of_insert_error h).symm
  | setPinned id pinned hlc told =>
    simp only [run, call]
    split
    · next h => exact (Store.write_eq_of_setPinned h).symm
    · next h => exact (Store.write_eq_of_setPinned_error h).symm
  | delete id hlc now =>
    simp only [run, call]
    split
    · next h => exact (Store.write_eq_of_delete h).symm
    · next h => exact (Store.write_eq_of_delete_error h).symm

/-- A clip that gets a row of its own is announced. -/
theorem clipAdded_mem_run {s s' : Store} {w : DaemonWrite} {clip : Clip} {id : ClipId}
    (hw : w.call = .insert clip) (h : s.insert clip = .ok (.inserted id, s')) :
    .clipAdded clip ∈ (w.run s).2 := by
  cases w with
  | capture c =>
    cases hw
    simp [run, h]
  | push c =>
    cases hw
    simp [run, h]
  | setPinned id pinned hlc told => cases hw
  | delete id hlc now => cases hw

/-- What a window is told to remove is deleted. -/
theorem entombed_of_clipRemoved {s : Store} {w : DaemonWrite} {id : ClipId}
    (h : .clipRemoved id ∈ (w.run s).2) : (w.run s).1.Entombed id := by
  cases w with
  | capture clip =>
    simp only [run] at h
    split at h <;> simp at h
  | push clip =>
    simp only [run] at h
    split at h <;> simp at h
  | setPinned id pinned hlc told =>
    simp only [run] at h
    split at h
    · split at h <;> simp at h
    · simp at h
  | delete id' hlc now =>
    simp only [run] at h ⊢
    split at h
    · next s' hdelete =>
      obtain rfl : id = id' := by simpa using h
      exact Store.entombed_of_delete hdelete
    · simp at h

variable [Fts5]

/-- **What a write lists** was listed, or is announced as added, or has just been pinned. -/
theorem run_cases {params : HistoryParams} {s : Store} {w : DaemonWrite} {r' : ClipRow}
    (h : r' ∈ params.listing (w.run s).1) :
    (∃ r ∈ params.listing s, r.id = r'.id) ∨ (∃ c, .clipAdded c ∈ (w.run s).2 ∧ c.id = r'.id) ∨
      params.pinnedOnly = true ∧ (∃ hlc told, w = .setPinned r'.id true hlc told) ∧
        ∃ r ∈ s.rows, r.id = r'.id ∧ params.wants s { r with pinned := true } := by
  obtain ⟨hr', hwants⟩ := HistoryParams.mem_listing.mp h
  rw [run_fst] at hr' hwants
  rcases Store.row_of_write hr' with ⟨r, hr, hid, hkind, hdel, hpin⟩ | ⟨c, s', hcall, rfl, hinsert⟩
  · have hfts : ∀ f ∈ (s.write w.call).clipFts, f.clipId = r.id → f ∈ s.clipFts := fun f hf he =>
      (Store.fts_of_write hf).resolve_right fun hnew => hnew r hr he.symm
    by_cases hold : params.pinnedOnly → r'.pinned → r.pinned
    · refine .inl ⟨r, HistoryParams.mem_listing.mpr ⟨hr, ?_⟩, hid.symm⟩
      exact HistoryParams.wants_of hid hkind hdel hold hfts hwants
    · have honly : params.pinnedOnly = true := by
        by_contra hne
        exact hold fun hp => absurd hp hne
      have hpinned : r'.pinned = true := by
        by_contra hne
        exact hold fun _ hp => absurd hp hne
      refine .inr (.inr ⟨honly, ?_, r, hr, hid.symm, ?_⟩)
      · obtain ⟨hlc, hcall⟩ := (hpin hpinned).resolve_left fun hp => hold fun _ _ => hp
        rw [hid]
        cases w with
        | setPinned id pinned hlc' told =>
          cases hcall
          exact ⟨_, told, rfl⟩
        | capture c => cases hcall
        | push c => cases hcall
        | delete id hlc now => cases hcall
      · exact HistoryParams.wants_of (r := { r with pinned := true }) hid hkind hdel
          (fun _ _ => rfl) hfts hwants
  · exact .inr (.inl ⟨c, clipAdded_mem_run hcall hinsert, rfl⟩)

end DaemonWrite
end Clipse
