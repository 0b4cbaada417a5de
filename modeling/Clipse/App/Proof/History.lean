import Clipse.App.Proof.Orderly
import Clipse.Lib.Stepwise

/-!
# What the history window holds

A run of steps in order keeps the window's list free of duplicates and, once all has arrived, complete
(`list_right_of_inOrder`). A copy between two pages is out of order, and shows the clip twice that it
moves onto the second (`not_list_right`).
-/

namespace Clipse
namespace Browsing

/-! ## Steps of the daemon -/

section
variable [Blake3] [Fts5] {params : HistoryParams} {s s' : Browsing}

/-- The daemon's store is written to, and the window told. -/
theorem Orderly.of_write (h : s.Orderly params) {w : DaemonWrite}
    (haligned : s.Aligned params (w.run s.store).1)
    (hpin : ∀ id hlc told, w = .setPinned id true hlc told → params.pinnedOnly = true →
      (∃ r ∈ s.store.rows, r.id = id ∧ params.wants s.store { r with pinned := true }) →
      s.Expected id)
    (hwindow : s'.window = s.window) (hstore : s'.store = (w.run s.store).1)
    (hevents : s'.events = s.events ++ (w.run s.store).2)
    (hdeleting : ∀ id, s'.Listed params id → id ∈ s.deleting → id ∈ s'.deleting) :
    s'.Orderly params := by
  refine h.of_same (by rw [hwindow]) (hwindow ▸ h.numbered)
    (latest_congr (by rw [hwindow]) (by rw [hwindow])) (by rw [hwindow]) (by rw [hwindow]) ?_ ?_
    (hstore ▸ haligned) ?_
  · intro id hid
    rw [hevents, List.mem_append] at hid
    rw [hstore]
    rcases hid with hid | hid
    · rw [DaemonWrite.run_fst]
      exact (h.dead id hid).write w.call
    · exact DaemonWrite.entombed_of_clipRemoved hid
  · intro id hl hc
    exact hc.of_subset (fun c hc => hevents ▸ List.mem_append_left _ hc) (hdeleting id hl)
  · intro id hl
    obtain ⟨r', hr', rfl⟩ := List.mem_map.mp hl
    rw [hstore] at hr'
    rcases DaemonWrite.run_cases hr' with
      ⟨r, hr, hid⟩ | ⟨c, hc, hid⟩ | ⟨honly, ⟨hlc, told, rfl⟩, hwants⟩
    · exact .inl (h.expected r'.id (hid ▸ List.mem_map_of_mem hr))
    · exact .inr (.inl ⟨c, hevents ▸ List.mem_append_right _ hc, hid⟩)
    · exact .inl (hpin _ _ _ rfl honly hwants)

/-- The daemon deletes a clip that the window has taken off its list. -/
theorem Orderly.handleDelete (h : s.Orderly params) {id : ClipId} {hlc : Hlc} {now : UInt64}
    (hin : s.InOrder params (.handleDelete id hlc now)) :
    (s.step params (.handleDelete id hlc now)).Orderly params := by
  simp only [step]
  split
  · next hmem =>
    split
    · next store hdelete =>
      have hrun : (DaemonWrite.delete id hlc now).run s.store = (store, [.clipRemoved id]) := by
        simp [DaemonWrite.run, hdelete]
      refine h.of_write (w := .delete id hlc now) (hin hmem) (fun _ _ _ h => by cases h) rfl
        (by rw [hrun]) (by rw [hrun]) ?_
      intro id' hl hd
      refine (List.mem_erase_of_ne ?_).mpr hd
      rintro rfl
      exact not_listed_of_entombed (Store.entombed_of_delete hdelete) hl
    · next e hdelete =>
      refine h.runFetch true rfl rfl rfl (fun _ id' hl hd => (List.mem_erase_of_ne ?_).mpr hd)
        fun h => by cases h
      rintro rfl
      obtain ⟨r, hr, hid, -⟩ := live_of_listed hl
      exact Store.rows_of_delete_error hdelete r hr hid
  · exact h

theorem Orderly.loseDelete (h : s.Orderly params) {id : ClipId}
    (hin : s.InOrder params (.loseDelete id)) : (s.step params (.loseDelete id)).Orderly params := by
  simp only [step]
  split
  · next hmem =>
    refine h.runFetch true rfl rfl rfl (fun hr id' hl hd => (List.mem_erase_of_ne ?_).mpr hd)
      fun h => by cases h
    rintro rfl
    exact hin hmem (hr.resolve_left (by decide)) hl
  · exact h

omit [Blake3] [Fts5] in
/-- An event other than of a new clip leaves what is to come. -/
theorem Coming.eraseIdx {id : ClipId} {i : Nat} {event : Event} (h : s.Coming id)
    (hevent : s.events[i]? = some event) (hne : ∀ c, .clipAdded c ≠ event) :
    Coming { s with events := s.events.eraseIdx i, window := s.window.hear event } id :=
  h.of_subset (fun c hc => mem_eraseIdx_of_ne hevent hc (hne c)) fun hd => hd

theorem Orderly.deliver (h : s.Orderly params) {i : Nat} (hin : s.InOrder params (.deliver i)) :
    (s.step params (.deliver i)).Orderly params := by
  simp only [step]
  cases hevent : s.events[i]? with
  | none => exact h
  | some event =>
    cases event with
    | clipAdded c => exact h.added hevent (hin c hevent)
    | clipUpdated c =>
      refine h.of_quiet ?_ (h.numbered.of_sublist (.refl _) rfl) (latest_congr rfl rfl) rfl rfl rfl
        (fun id hid => List.mem_of_mem_eraseIdx hid) fun id hc =>
          hc.eraseIdx hevent fun _ h => by cases h
      simp only [ClipHistory.hear, ClipHistory.onClipUpdated, List.map_map]
      refine List.map_congr_left fun d _ => ?_
      simp only [Function.comp_apply]
      split
      · next he => exact he.symm
      · rfl
    | clipRemoved id =>
      have hgone := h.dead id (List.mem_of_getElem? hevent)
      exact h.of_removed rfl rfl rfl rfl rfl rfl
        (fun id' hid => h.dead id' (List.mem_of_mem_eraseIdx hid))
        (fun id' _ hc => hc.eraseIdx hevent fun _ h => by cases h)
        fun hl => absurd hl (not_listed_of_entombed hgone)

/-- A clip of the list is pinned or unpinned. -/
theorem Orderly.togglePin (h : s.Orderly params) (id : ClipId) (pinned : Bool) :
    (s.step params (.togglePin id pinned)).Orderly params := by
  refine h.of_quiet ?_ (h.numbered.of_sublist (.refl _) rfl) (latest_congr rfl rfl) rfl rfl rfl
    (fun _ hid => hid) fun _ hc => hc
  simp only [step, ClipHistory.setPinnedLocally, List.map_map]
  refine List.map_congr_left fun c _ => ?_
  simp only [Function.comp_apply]
  split <;> rfl

theorem Orderly.step (h : s.Orderly params) {op : BrowsingOp} (hin : s.InOrder params op) :
    (s.step params op).Orderly params := by
  cases op with
  | write w => exact h.of_write hin.1 hin.2 rfl rfl rfl fun _ _ hd => hd
  | handleDelete id hlc now => exact h.handleDelete hin
  | loseDelete id => exact h.loseDelete hin
  | deliver i => exact h.deliver hin
  | answer n =>
    simp only [Browsing.step]
    split
    · next reset offset hf =>
      split
      · next page hpage => exact h.answer hf rfl hpage
      · exact h
    · exact h
  | receive n =>
    simp only [Browsing.step]
    split
    · next f hf =>
      split
      · next page hpage =>
        obtain ⟨-, rfl⟩ := mem_of_fetch? hf
        by_cases hcurrent : f.requestId = s.window.requestId
        · exact h.receive (by rw [latest, ← hcurrent, hf]) hpage
        · simp only [ClipHistory.receive, if_pos hcurrent]
          exact h.forget hcurrent
      · exact h
    · exact h
  | fail n failure =>
    simp only [Browsing.step]
    split
    · next f hf =>
      obtain ⟨-, rfl⟩ := mem_of_fetch? hf
      have hcurrent : f.requestId ≠ s.window.requestId := hin
      simp only [ClipHistory.fail, if_pos hcurrent]
      exact h.forget hcurrent
    · exact h
  | reload => exact h.runFetch true rfl rfl rfl (fun _ _ _ hd => hd) fun h => by cases h
  | loadMore =>
    simp only [Browsing.step, ClipHistory.loadMore]
    split
    · exact h
    · next hahead =>
      simp only [Bool.or_eq_true, Bool.not_eq_true', not_or, Bool.not_eq_true,
        Bool.not_eq_false] at hahead
      refine h.runFetch false rfl rfl rfl (fun _ _ _ hd => hd) fun _ => ?_
      exact hin hahead.1.1 hahead.1.2 hahead.2
  | render =>
    exact h.of_quiet rfl (h.numbered.of_sublist (.refl _) rfl) (latest_congr rfl rfl) rfl rfl rfl
      (fun _ hid => hid) fun _ hc => hc
  | togglePin id pinned => exact h.togglePin id pinned
  | delete id =>
    refine h.of_removed rfl rfl rfl rfl rfl rfl h.dead ?_ ?_
    · exact fun id' _ hc => hc.of_subset (fun c hc => hc) fun hd => List.mem_append_left _ hd
    · exact fun _ => .inr (List.mem_append_right _ (List.mem_singleton_self id))

omit [Blake3] in
/-- A window that has just been opened waits for its first page. -/
theorem orderly_opened (store : Store) : (opened store).Orderly params := by
  have hlatest : (opened store).latest = some { requestId := 1, reset := true, offset := 0 } := rfl
  have hreach : (opened store).reach = .unread := reach_of_waiting hlatest rfl
  exact
    { nodup := List.nodup_nil
      nodup_due := List.nodup_nil
      numbered := ClipHistory.numbered_mounted
      dead := by simp [opened]
      front := fun n hn => by rw [hreach] at hn; cases hn
      behind := fun n hn => by rw [hreach] at hn; cases hn
      expected := fun id _ =>
        ⟨fun hm => (by cases hm), fun hall => by rw [hreach] at hall; cases hall⟩ }

/-- No clip twice; and, once all has arrived, every live clip that matches the query. -/
def ListRight (params : HistoryParams) (s : Browsing) : Prop :=
  (s.window.clips.map (·.id)).Nodup ∧
    (s.events = [] → s.deleting = [] → s.window.flags.hasMore = false →
      ∀ r ∈ s.store.rows, params.wants s.store r → ∃ c ∈ s.window.clips, c.id = r.id)

omit [Blake3] in
theorem Orderly.listRight (h : s.Orderly params) : s.ListRight params := by
  refine ⟨h.nodup, fun hevents hdeleting hmore r hr hwants => ?_⟩
  have hl : s.Listed params r.id :=
    List.mem_map_of_mem (HistoryParams.mem_listing.mpr ⟨hr, hwants⟩)
  rcases (h.expected r.id hl).now hmore with hheld | ⟨c, hc, -⟩ | hd
  · exact List.mem_map.mp hheld
  · rw [hevents] at hc
    cases hc
  · rw [hdeleting] at hd
    cases hd

/-- **The window's list** while the daemon's changes: as long as every step is in order, it never
contains a clip twice, and is complete whenever it says that there is no more. -/
theorem list_right_of_inOrder (params : HistoryParams) (store : Store) (ops : List BrowsingOp)
    (h : Stepwise (step params) (InOrder params) (opened store) ops) :
    ∀ before after, ops = before ++ after →
      (before.foldl (step params) (opened store)).ListRight params := by
  rintro before after rfl
  have hbefore := (stepwise_append.mp h).1
  exact (hbefore.invariant (fun s op hs hop => hs.step hop) (orderly_opened store)).listRight

/-! ## A clip that is copied between two pages -/

/-- The first page, a copy that the window hears of, and the next page. -/
def copyBetweenPages (clip : Clip) : List BrowsingOp :=
  [.answer 1, .receive 1, .render, .write (.capture clip), .deliver 0, .loadMore, .answer 2, .receive 2]

omit [Blake3] in
theorem listing_perm {store : Store} (hlive : ∀ r ∈ store.rows, r.deleted = false) :
    (({} : HistoryParams).listing store).Perm store.rows := by
  refine (List.perm_insertionSort _ _).trans (.of_eq (List.filter_eq_self.mpr fun r hr => ?_))
  simp [HistoryParams.wants, HistoryParams.finds, serverKindForFilter, jsTrim, hlive r hr]

/-- What the list has then, if there were 150 clips. -/
theorem clips_copyBetweenPages {store store' : Store} {clip : Clip} {page page' : List Clip}
    (hpage : pageOf {} store 0 = some page) (hlen : page.length = 150)
    (hinsert : store.insert clip = .ok (.inserted clip.id, store'))
    (hnew : ∀ c ∈ page, c.id ≠ clip.id) (hpage' : pageOf {} store' 150 = some page') :
    ((copyBetweenPages clip).foldl (step {}) (opened store)).window.clips =
      clip :: page ++ page' := by
  have hany : page.any (·.id = clip.id) = false := by
    rw [List.any_eq_false]
    exact fun c hc => by simpa using hnew c hc
  simp [copyBetweenPages, step, fetch?, opened, ClipHistory.mounted, ClipHistory.runFetch, hpage,
    ClipHistory.receive, hlen, historyPageSize, DaemonWrite.run, hinsert, ClipHistory.hear,
    ClipHistory.onClipAdded, hany, ClipHistory.loadMore, hpage']

/-- The clip that was last on the first page is first on the next. -/
theorem not_listRight_copyBetweenPages {store store' : Store} {clip : Clip}
    (hlen : store.rows.length = 150) (hlive : ∀ r ∈ store.rows, r.deleted = false)
    (hclip : clip.deleted = false) (hinsert : store.insert clip = .ok (.inserted clip.id, store')) :
    ¬ ListRight {} ((copyBetweenPages clip).foldl (step {}) (opened store)) := by
  obtain ⟨hnew, hrows⟩ :
      (∀ r ∈ store.rows, r.id ≠ clip.id) ∧ store'.rows = store.rows ++ [.of clip] := by
    rcases Store.insert_cases hinsert with ⟨h, -⟩ | ⟨_, _, h, -⟩ | ⟨-, -, -, hid, hrows, -⟩
    · cases h
    · cases h
    · exact ⟨hid, hrows⟩
  have hlive' : ∀ r ∈ store'.rows, r.deleted = false := by
    rw [hrows]
    intro r hr
    rcases List.mem_append.mp hr with hr | hr
    · exact hlive r hr
    · rw [List.mem_singleton.mp hr]
      exact hclip
  obtain ⟨page, hpage⟩ : ∃ page, pageOf {} store 0 = some page := ⟨_, rfl⟩
  obtain ⟨page', hpage'⟩ : ∃ page, pageOf {} store' 150 = some page := ⟨_, rfl⟩
  have hids : (page.map (·.id)).Perm (store.rows.map (·.id)) := by
    have hlisting : (({} : HistoryParams).listing store).length ≤ 150 := by
      rw [(listing_perm hlive).length_eq, hlen]
    rw [HistoryParams.pageOf_eq hpage, List.drop_zero, List.take_of_length_le hlisting, List.map_map]
    exact (listing_perm hlive).map _
  have hsub : ∀ c ∈ page', c.id ∈ (clip :: page).map (·.id) := by
    intro c hc
    rw [HistoryParams.pageOf_eq hpage'] at hc
    obtain ⟨r, hr, rfl⟩ := List.mem_map.mp hc
    have hr := (listing_perm hlive').mem_iff.mp (List.mem_of_mem_drop (List.mem_of_mem_take hr))
    rw [hrows, List.mem_append, List.mem_singleton] at hr
    rcases hr with hr | rfl
    · exact List.mem_cons_of_mem _ (hids.mem_iff.mpr (List.mem_map_of_mem hr))
    · exact List.mem_cons_self
  have hlen' : page'.length = 1 := by
    rw [HistoryParams.pageOf_eq hpage', List.length_map, List.length_take, List.length_drop,
      (listing_perm hlive').length_eq, hrows, List.length_append, hlen,
      List.length_singleton, Nat.add_sub_cancel_left]
    decide
  have hclips := clips_copyBetweenPages hpage (by simpa [hlen] using hids.length_eq) hinsert
    (fun c hc he => by
      obtain ⟨r, hr, hid⟩ := List.mem_map.mp (hids.mem_iff.mp (List.mem_map_of_mem hc))
      exact hnew r hr (hid.trans he)) hpage'
  rintro ⟨hnodup, -⟩
  rw [hclips, List.map_append, List.nodup_append] at hnodup
  obtain ⟨c, rfl⟩ := List.length_eq_one_iff.mp hlen'
  exact hnodup.2.2 c.id (hsub c List.mem_cons_self) c.id (List.mem_singleton_self _) rfl

/-! ## A second page -/

omit [Blake3] [Fts5] in
/-- What goes after everything stays the last. -/
theorem insertionSort_concat {α : Type} {r : α → α → Prop} [DecidableRel r] {l : List α} {a : α}
    (h : ∀ b ∈ l, r b a) : (l ++ [a]).insertionSort r = l.insertionSort r ++ [a] := by
  have hinsert : ∀ {l : List α} {b : α}, r b a →
      (l ++ [a]).orderedInsert r b = l.orderedInsert r b ++ [a] := by
    intro l b hb
    induction l with
    | nil => simp [hb]
    | cons c l ih =>
      simp only [List.cons_append, List.orderedInsert_cons, ih]
      split <;> rfl
  induction l with
  | nil => rfl
  | cons b l ih =>
    obtain ⟨hb, hl⟩ := List.forall_mem_cons.mp h
    rw [List.cons_append, List.insertionSort_cons, ih hl, hinsert hb, List.insertionSort_cons]

/-- The first page; a clip that is older than all comes from another device; the next page has it, and
the window hears of it; a new copy is made, and the window hears of that. -/
def lateBetweenPages (late clip : Clip) : List BrowsingOp :=
  [.answer 1, .receive 1, .render, .write (.push late), .loadMore, .answer 2, .receive 2, .deliver 0,
    .write (.capture clip), .deliver 0]

/-- The window when it has a full page. -/
def onePage (page : List Clip) : ClipHistory :=
  { clips := page, offset := 150, requestId := 1,
    flags := { loading := false, loadingMore := false, hasMore := true },
    rendered := { loading := false, loadingMore := false, hasMore := true } }

/-- The window when it has all there was. -/
def twoPages (page page' : List Clip) : ClipHistory :=
  { onePage page with
    clips := page ++ page', offset := 150 + page'.length, requestId := 2,
    flags := { loading := false, loadingMore := false, hasMore := false } }

theorem inOrder_lateBetweenPages {store store' : Store} {late clip : Clip}
    (hlive : ∀ r ∈ store.rows, r.deleted = false) (hlen : store.rows.length = 150)
    (hinsert : store.insert late = .ok (.inserted late.id, store'))
    (hrows : store'.rows = store.rows ++ [.of late]) (hlate : late.deleted = false)
    (hid : ∀ r ∈ store.rows, r.id ≠ late.id)
    (hlast : ∀ r ∈ store.rows, late.hlc.column ≤ r.hlc.column) :
    Stepwise (step {}) (InOrder {}) (opened store) (lateBetweenPages late clip) := by
  have hlisting : ({} : HistoryParams).listing store' =
      ({} : HistoryParams).listing store ++ [.of late] := by
    have hwants : ∀ s : Store, ({} : HistoryParams).wants s = fun r => !r.deleted := fun s => by
      funext r
      simp [HistoryParams.wants, HistoryParams.finds, serverKindForFilter, jsTrim]
    have hlisted : [ClipRow.of late].filter (fun r => !r.deleted) = [.of late] := by
      simp [ClipRow.of, hlate]
    rw [HistoryParams.listing, HistoryParams.listing, hwants, hwants, hrows, List.filter_append,
      hlisted]
    exact insertionSort_concat fun r hr => hlast r (List.mem_of_mem_filter hr)
  have hlength : (({} : HistoryParams).listing store).length = 150 := by
    rw [(listing_perm hlive).length_eq, hlen]
  obtain ⟨page, hpage⟩ : ∃ page, pageOf {} store 0 = some page := ⟨_, rfl⟩
  obtain ⟨page', hpage'⟩ : ∃ page, pageOf {} store' 150 = some page := ⟨_, rfl⟩
  have hfull : page.length = 150 := by
    rw [HistoryParams.pageOf_eq hpage]
    simp [hlength]
  have hone : page' = [(ClipRow.of late).toClip] := by
    rw [HistoryParams.pageOf_eq hpage', hlisting, List.drop_left' hlength]
    rfl
  have hfirst : step {} (step {} (step {} (opened store) (.answer 1)) (.receive 1)) .render =
      ⟨store, [], [], onePage page⟩ := by
    simp [step, fetch?, opened, ClipHistory.mounted, ClipHistory.runFetch, hpage,
      ClipHistory.receive, hfull, historyPageSize, onePage]
  have hpushed : step {} ⟨store, [], [], onePage page⟩ (.write (.push late)) =
      ⟨store', [.clipAdded late], [], onePage page⟩ := by
    simp [step, DaemonWrite.run, hinsert]
  have hsecond : step {} (step {} (step {} ⟨store', [.clipAdded late], [], onePage page⟩ .loadMore)
      (.answer 2)) (.receive 2) = ⟨store', [.clipAdded late], [], twoPages page page'⟩ := by
    simp [step, fetch?, ClipHistory.loadMore, ClipHistory.runFetch, hpage', onePage, twoPages,
      ClipHistory.receive, hone, historyPageSize]
  have hheard : step {} ⟨store', [.clipAdded late], [], twoPages page page'⟩ (.deliver 0) =
      ⟨store', [], [], twoPages page page'⟩ := by
    simp [step, ClipHistory.hear, ClipHistory.onClipAdded, twoPages, hone, ClipRow.of, ClipRow.toClip]
  have hdue : ∀ events, (⟨store, events, [], onePage page⟩ : Browsing).due = page := fun _ =>
    List.append_nil page
  refine ⟨trivial, trivial, trivial, ?_, ?_, trivial, trivial, ?_, ?_, ?_, trivial⟩
  · -- the offset is behind all that was listed before
    rw [hfirst]
    refine ⟨fun n hn id => ?_, fun _ _ _ h => by cases h⟩
    obtain rfl : 150 = n := Reach.upTo.inj hn
    have hrun : (DaemonWrite.run store (.push late)).1 = store' := by simp [DaemonWrite.run, hinsert]
    rw [hrun, InFront, InFront, Behind, hlisting, List.take_left' hlength, List.drop_left' hlength,
      List.take_of_length_le (Nat.le_of_eq hlength)]
    refine ⟨fun hf => hf, fun hb => .inr ?_⟩
    have hnew : late.id ∉ (({} : HistoryParams).listing store).map (·.id) := by
      intro hl
      obtain ⟨r, hr, he⟩ := List.mem_map.mp hl
      exact hid r (HistoryParams.mem_listing.mp hr).1 he
    obtain rfl : id = late.id := List.mem_singleton.mp hb
    refine ⟨hnew, ?_⟩
    rw [Due, hdue, ids_of_page hpage, List.drop_zero,
      List.take_of_length_le (Nat.le_of_eq hlength)]
    exact hnew
  · rw [hfirst, hpushed]
    exact fun _ _ _ => ⟨rfl, fun _ h => by cases h⟩
  · rw [hfirst, hpushed, hsecond]
    intro c hc
    obtain rfl : late = c := by simpa using hc
    refine fun hnot => absurd ?_ hnot
    show late.id ∈ (page ++ page').map (·.id)
    rw [hone, List.map_append]
    exact List.mem_append_right _ (List.mem_singleton_self _)
  · rw [hfirst, hpushed, hsecond, hheard]
    exact ⟨fun n hn => (by cases hn), fun _ _ _ h => by cases h⟩
  · rw [hfirst, hpushed, hsecond, hheard]
    exact fun c _ _ => ⟨List.not_mem_nil, fun n hn => by cases hn⟩

end

section
attribute [local instance] Blake3.lastBytes Fts5.examples

/-- A clip of such letters. -/
def lettersClip (n : Nat) (source : ClipSource) (hlc : Hlc) : Clip :=
  .new (lettersCopy n).1 ((lettersCopy n).2.payloads.map SyncContext.payloadOf) source hlc

/-- It is new to a store of others. -/
theorem insert_lettersClip {store : Store} {n : Nat} (hn : n < 3840)
    (hold : ∀ r ∈ store.rows, ∃ k < 3840, k ≠ n ∧ ∃ source hlc, r = .of (lettersClip k source hlc))
    (source : ClipSource) (hlc : Hlc) :
    ∃ store', store.insert (lettersClip n source hlc) =
        .ok (.inserted (lettersClip n source hlc).id, store') ∧
      store'.rows = store.rows ++ [.of (lettersClip n source hlc)] := by
  have hlabels : (((lettersCopy n).2.payloads.map SyncContext.payloadOf).map Payload.label).Nodup := by
    rw [SyncContext.labels_payloadOf]
    exact show ["text/plain", "text/html"].Nodup by decide
  refine Store.insert_fresh (Clip.new_canonical (lettersCopy n).1 source hlc hlabels) ?_ ?_
  · intro r hr he
    obtain ⟨k, hk, hne, _, _, rfl⟩ := hold r hr
    exact absurd (captureHash_lettersCopy_inj hk hn he) hne
  · intro r hr he
    obtain ⟨k, -, hne, _, _, rfl⟩ := hold r hr
    exact hne (congrArg ClipId.uuid he)

/-- Copies of texts, 150 before the window is opened and one after its first page. -/
theorem not_list_right :
    ∃ ctx, (SyncContext.start (.open_ 0) (.repeated 1) fun n => n.toUInt64).storeCaptures
        ((List.range 150).map lettersCopy) = .ok ctx ∧
      ¬ ListRight {} ((copyBetweenPages (.new (lettersCopy 150).1
          ((lettersCopy 150).2.payloads.map SyncContext.payloadOf) (ctx.now.2.clipSource none)
          ctx.now.1)).foldl (step {}) (opened ctx.store)) := by
  obtain ⟨ctx, clips, hcaptures, hforall, hrows⟩ := storeCaptures_lettersCopy 0 (.repeated 1)
    (fun n => n.toUInt64) (nodup_captureHash (k := 150) (by decide))
  obtain ⟨hlen, hbecomes⟩ := becomes_lettersCopy hforall
  have hold : ∀ r ∈ ctx.store.rows, ∃ k < 150, ∃ source hlc, r = .of (lettersClip k source hlc) := by
    intro r hr
    rw [hrows] at hr
    obtain ⟨c, hc, rfl⟩ := List.mem_map.mp hr
    obtain ⟨k, hk, source, hlc, rfl⟩ := hbecomes c hc
    exact ⟨k, hk, source, hlc, rfl⟩
  obtain ⟨store', hinsert, -⟩ := insert_lettersClip (n := 150) (by decide) (fun r hr => by
    obtain ⟨k, hk, h⟩ := hold r hr
    exact ⟨k, by omega, by omega, h⟩) (ctx.now.2.clipSource none) ctx.now.1
  refine ⟨ctx, hcaptures, not_listRight_copyBetweenPages ?_ ?_ rfl hinsert⟩
  · rw [hrows, List.length_map, hlen]
  · intro r hr
    obtain ⟨k, -, _, _, rfl⟩ := hold r hr
    rfl

/-- Copies of texts, by a clock that goes on. -/
theorem exists_letters {n : Nat} (hn : n ≤ 3840) (source : ClipSource) (device : DeviceId) :
    ∃ store : Store, store.rows = (List.range n).map fun k =>
      .of (lettersClip k source ⟨UInt64.ofNat (k + 1), 0, device⟩) := by
  induction n with
  | zero => exact ⟨.open_ 0, rfl⟩
  | succ n ih =>
    obtain ⟨store, hrows⟩ := ih (by omega)
    obtain ⟨store', -, hrows'⟩ := insert_lettersClip (n := n) (by omega) (fun r hr => by
      rw [hrows] at hr
      obtain ⟨k, hk, rfl⟩ := List.mem_map.mp hr
      have := List.mem_range.mp hk
      exact ⟨k, by omega, by omega, _, _, rfl⟩) source ⟨UInt64.ofNat (n + 1), 0, device⟩
    refine ⟨store', ?_⟩
    rw [hrows', hrows, List.range_succ, List.map_append, List.map_singleton]

/-- Copies of texts, 150 before the window is opened; an older one from another device after its first
page, and a new one after its second. -/
theorem list_right_of_inOrder_late :
    ∃ (store : Store) (late clip : Clip), store.rows.length = 150 ∧
      Stepwise (step {}) (InOrder {}) (opened store) (lateBetweenPages late clip) ∧
      ListRight {} ((lateBetweenPages late clip).foldl (step {}) (opened store)) := by
  let source : ClipSource := { device := .repeated 1, deviceLabel := "desktop", app := none }
  let late := lettersClip 150 source ⟨0, 0, .repeated 2⟩
  let clip := lettersClip 151 source ⟨151, 0, .repeated 1⟩
  obtain ⟨store, hrows⟩ := exists_letters (n := 150) (by decide) source (.repeated 1)
  have hlen : store.rows.length = 150 := by rw [hrows, List.length_map, List.length_range]
  have hold : ∀ r ∈ store.rows, ∃ k < 150, r =
      .of (lettersClip k source ⟨UInt64.ofNat (k + 1), 0, .repeated 1⟩) := by
    intro r hr
    rw [hrows] at hr
    obtain ⟨k, hk, rfl⟩ := List.mem_map.mp hr
    exact ⟨k, List.mem_range.mp hk, rfl⟩
  obtain ⟨store', hinsert, hrows'⟩ := insert_lettersClip (n := 150) (by decide) (fun r hr => by
    obtain ⟨k, hk, rfl⟩ := hold r hr
    exact ⟨k, by omega, by omega, _, _, rfl⟩) source ⟨0, 0, .repeated 2⟩
  have hlive : ∀ r ∈ store.rows, r.deleted = false := by
    intro r hr
    obtain ⟨k, -, rfl⟩ := hold r hr
    rfl
  have hid : ∀ r ∈ store.rows, r.id ≠ late.id := by
    intro r hr he
    obtain ⟨k, hk, rfl⟩ := hold r hr
    have : k = 150 := congrArg ClipId.uuid he
    omega
  have hlast : ∀ r ∈ store.rows, late.hlc.column ≤ r.hlc.column := by
    intro r hr
    obtain ⟨k, hk, rfl⟩ := hold r hr
    have hsmall : k + 1 < UInt64.size := lt_of_le_of_lt (Nat.succ_le_of_lt hk) (by decide)
    have hwall : (UInt64.ofNat (k + 1)).toNat = k + 1 := UInt64.toNat_ofNat_of_lt' hsmall
    have hlt : (⟨0, 0, .repeated 2⟩ : Hlc) < ⟨UInt64.ofNat (k + 1), 0, .repeated 1⟩ := by
      refine Hlc.lt_iff.2 (.inl (UInt64.lt_iff_toNat_lt.2 ?_))
      rw [hwall]
      exact Nat.succ_pos k
    refine (Hlc.column_le_iff (iff_of_true (by decide) ?_)).2 hlt.le
    show (UInt64.ofNat (k + 1)).toNat < _
    omega
  have hin : Stepwise (step {}) (InOrder {}) (opened store) (lateBetweenPages late clip) :=
    inOrder_lateBetweenPages hlive hlen hinsert hrows' rfl hid hlast
  exact ⟨store, late, clip, hlen, hin,
    list_right_of_inOrder {} store _ hin _ [] (List.append_nil _).symm⟩

end

end Browsing
end Clipse
