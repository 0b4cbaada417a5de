import Clipse.App.Proof.Reach

/-!
# The history window in order

Offsets count rows of a listing that changes, and events edit the window's list meanwhile. `InOrder`
is what keeps the two together: between two pages no write moves a row across the offset (`Aligned`),
an event of a new clip is in time (`Timely`), with the pinned filter no clip is pinned that the window
does not have, and the next page is asked for once.

* `Orderly`: the invariant. What is in front of the next page's offset is held or to come, what is
  behind it is not held, and a list that counts as complete is.
* `Orderly.of_same`, `Orderly.of_removed`, `Orderly.added`: the list is edited.
* `Orderly.runFetch`, `Orderly.answer`, `Orderly.receive`: a page is fetched.
-/

namespace Clipse
namespace Browsing

/-! ## What is in order -/

/-- The window is yet to hear of the clip, or the daemon to delete it. -/
def Coming (s : Browsing) (id : ClipId) : Prop :=
  (∃ c, .clipAdded c ∈ s.events ∧ c.id = id) ∨ id ∈ s.deleting

/-- As far as the window takes its list for complete, or will with the page that is on its way, the
clip is in it or to come. -/
structure Expected (s : Browsing) (id : ClipId) : Prop where
  now : s.window.flags.hasMore = false → s.Held id ∨ s.Coming id
  next : s.reach = .all → s.Due id ∨ s.Coming id

section
variable [Fts5] (params : HistoryParams)

/-- A write that leaves this store moves no row across the offset of the next page, and puts no row
behind it that the window has. -/
def Aligned (s : Browsing) (store : Store) : Prop :=
  ∀ n, s.reach = .upTo n → ∀ id,
    (InFront params store n id → InFront params s.store n id) ∧
      (Behind params store n id →
        Behind params s.store n id ∨ ¬ s.Listed params id ∧ ¬ s.Due id)

/-- The window can hear of the clip now: no page that is on its way or to be asked for has it as well,
and no page is on its way that replaces the list without it. -/
def Timely (s : Browsing) (id : ClipId) : Prop :=
  if s.overwritten then s.reach = .all → s.Listed params id → id ∈ s.arriving.map (·.id)
  else ¬ s.Held id →
    id ∉ s.arriving.map (·.id) ∧ ∀ n, s.reach = .upTo n → ¬ Behind params s.store n id

/-- The step leaves the window's list and the daemon's in order. -/
def InOrder [Blake3] (s : Browsing) : BrowsingOp → Prop
  | .write w =>
    s.Aligned params (w.run s.store).1 ∧
      ∀ id hlc told, w = .setPinned id true hlc told → params.pinnedOnly = true →
        (∃ r ∈ s.store.rows, r.id = id ∧ params.wants s.store { r with pinned := true }) →
        s.Expected id
  | .handleDelete id hlc now =>
    id ∈ s.deleting → s.Aligned params ((DaemonWrite.delete id hlc now).run s.store).1
  | .loseDelete id =>
    id ∈ s.deleting → s.window.flags.hasMore = false → ¬ s.Listed params id
  | .deliver i => ∀ c, s.events[i]? = some (.clipAdded c) → s.Timely params c.id
  | .loadMore =>
    s.window.rendered.loading = false → s.window.rendered.loadingMore = false →
      s.window.rendered.hasMore = true →
      s.reach = .upTo s.window.offset ∧ ∀ f, s.latest = some f → f.answer = none
  | .fail requestId _ => requestId ≠ s.window.requestId
  | _ => True

/-- What runs of such steps keep. -/
structure Orderly (s : Browsing) : Prop where
  nodup : (s.window.clips.map (·.id)).Nodup
  nodup_due : (s.due.map (·.id)).Nodup
  numbered : s.window.Numbered
  dead : ∀ id, .clipRemoved id ∈ s.events → s.store.Entombed id
  front : ∀ n, s.reach = .upTo n → ∀ id, InFront params s.store n id →
    s.Due id ∨ s.overwritten = false ∧ s.Coming id
  behind : ∀ n, s.reach = .upTo n → ∀ id, Behind params s.store n id → ¬ s.Due id
  expected : ∀ id, s.Listed params id → s.Expected id

end

theorem Expected.mono {s s' : Browsing} {id : ClipId} (h : s.Expected id)
    (hmore : s'.window.flags.hasMore = s.window.flags.hasMore)
    (hreach : s'.reach = .all → s.reach = .all) (hheld : s.Held id → s'.Held id)
    (hdue : s'.reach = .all → s.Due id → s'.Due id)
    (hcoming : s.Coming id → s'.Coming id) : s'.Expected id :=
  ⟨fun hm => (h.now (hmore ▸ hm)).imp hheld hcoming,
    fun hall => (h.next (hreach hall)).imp (hdue hall) hcoming⟩

theorem Expected.of_coming {s : Browsing} {id : ClipId} (h : s.Coming id) : s.Expected id :=
  ⟨fun _ => .inr h, fun _ => .inr h⟩

theorem Coming.of_subset {s s' : Browsing} {id : ClipId} (h : s.Coming id)
    (hevents : ∀ c, .clipAdded c ∈ s.events → .clipAdded c ∈ s'.events)
    (hdeleting : id ∈ s.deleting → id ∈ s'.deleting) : s'.Coming id :=
  h.imp (fun ⟨c, hc, he⟩ => ⟨c, hevents c hc, he⟩) hdeleting

/-! ## Steps of the window -/

section
variable [Fts5] {params : HistoryParams} {s s' : Browsing}

theorem live_of_listed {id : ClipId} (h : s.Listed params id) :
    ∃ r ∈ s.store.rows, r.id = id ∧ r.deleted = false := by
  obtain ⟨r, hr, rfl⟩ := List.mem_map.mp h
  obtain ⟨hmem, hwants⟩ := HistoryParams.mem_listing.mp hr
  exact ⟨r, hmem, rfl, HistoryParams.live_of_wants hwants⟩

theorem not_listed_of_entombed {id : ClipId} (h : s.store.Entombed id) : ¬ s.Listed params id := by
  intro hl
  obtain ⟨r, hr, hid, hlive⟩ := live_of_listed hl
  have := h.2 r hr hid
  rw [hlive] at this
  cases this

theorem aligned_of_same (h : s'.store = s.store) : s.Aligned params s'.store := by
  intro n _ id
  rw [h]
  exact ⟨fun hf => hf, .inl⟩

/-- A step that leaves the fetches, and what the list holds, alone. -/
theorem Orderly.of_same (h : s.Orderly params)
    (hids : s'.window.clips.map (·.id) = s.window.clips.map (·.id))
    (hnumbered : s'.window.Numbered) (hlatest : s'.latest = s.latest)
    (hmore : s'.window.flags.hasMore = s.window.flags.hasMore)
    (hoffset : s'.window.offset = s.window.offset)
    (hdead : ∀ id, .clipRemoved id ∈ s'.events → s'.store.Entombed id)
    (hcoming : ∀ id, s'.Listed params id → s.Coming id → s'.Coming id)
    (haligned : s.Aligned params s'.store)
    (hlisted : ∀ id, s'.Listed params id → s.Expected id ∨ s'.Coming id) : s'.Orderly params := by
  have hreach : s'.reach = s.reach := reach_congr hlatest hmore hoffset
  have hdue : ∀ id, s'.Due id ↔ s.Due id := fun id => by
    rw [Due, Due, due_ids_congr hlatest hids]
  refine ⟨hids ▸ h.nodup, due_ids_congr hlatest hids ▸ h.nodup_due, hnumbered, hdead, ?_, ?_, ?_⟩
  · intro n hn id hf
    rw [hreach] at hn
    rw [hdue, overwritten_congr hlatest]
    have hl := (listed_iff n).2 (.inl hf)
    exact (h.front n hn id ((haligned n hn id).1 hf)).imp_right (And.imp_right (hcoming id hl))
  · intro n hn id hb
    rw [hreach] at hn
    rw [hdue]
    rcases (haligned n hn id).2 hb with hb | ⟨-, hfree⟩
    · exact h.behind n hn id hb
    · exact hfree
  · intro id hl
    rcases hlisted id hl with he | hc
    · exact he.mono hmore (fun hall => hreach ▸ hall) (held_iff_of_ids hids).2
        (fun _ => (hdue id).2) (hcoming id hl)
    · exact .of_coming hc

/-- The window's list and the daemon's are both left alone. -/
theorem Orderly.of_quiet (h : s.Orderly params)
    (hids : s'.window.clips.map (·.id) = s.window.clips.map (·.id))
    (hnumbered : s'.window.Numbered) (hlatest : s'.latest = s.latest)
    (hmore : s'.window.flags.hasMore = s.window.flags.hasMore)
    (hoffset : s'.window.offset = s.window.offset) (hstore : s'.store = s.store)
    (hdead : ∀ id, .clipRemoved id ∈ s'.events → .clipRemoved id ∈ s.events)
    (hcoming : ∀ id, s.Coming id → s'.Coming id) : s'.Orderly params := by
  refine h.of_same hids hnumbered hlatest hmore hoffset (fun id hid => ?_)
    (fun id _ hc => hcoming id hc) (aligned_of_same hstore) fun id hl => .inl (h.expected id ?_)
  · rw [hstore]
    exact h.dead id (hdead id hid)
  · rwa [Listed, hstore] at hl

/-- A new fetch supersedes the last one. -/
theorem Orderly.runFetch (h : s.Orderly params) (reset : Bool)
    (hwindow : s'.window = s.window.runFetch reset) (hstore : s'.store = s.store)
    (hevents : s'.events = s.events)
    (hdeleting : reset = false ∨ s.window.flags.hasMore = false →
      ∀ id, s.Listed params id → id ∈ s.deleting → id ∈ s'.deleting)
    (hnext : reset = false →
      s.reach = .upTo s.window.offset ∧ ∀ f, s.latest = some f → f.answer = none) :
    s'.Orderly params := by
  have hlatest := latest_runFetch h.numbered reset hwindow
  have hdue' : s'.due = s.window.clips := by
    rw [due_of_waiting, hwindow]
    · rfl
    · intro f hf
      rw [hlatest] at hf
      rw [← Option.some.inj hf]
  have hreach' : s'.reach = if reset then .unread else .upTo s.window.offset := by
    rw [reach_of_waiting hlatest rfl]
    cases reset <;> rfl
  have hmore : s'.window.flags.hasMore = s.window.flags.hasMore := by
    rw [hwindow, ClipHistory.runFetch]
    split <;> rfl
  have hheld : ∀ id, s.Held id → s'.Held id := fun id hh => by rwa [Held, hwindow]
  have hcoming : reset = false ∨ s.window.flags.hasMore = false → ∀ id, s.Listed params id →
      s.Coming id → s'.Coming id := fun hr id hl hc =>
    hc.of_subset (fun c hc => hevents ▸ hc) (hdeleting hr id hl)
  have hlisted : ∀ id, s'.Listed params id → s.Listed params id := fun id hl => by
    rwa [Listed, hstore] at hl
  refine ⟨?_, ?_, hwindow ▸ h.numbered.runFetch reset, ?_, ?_, ?_, ?_⟩
  · rw [hwindow]
    exact h.nodup
  · rw [hdue']
    exact h.nodup
  · rw [hevents, hstore]
    exact h.dead
  · intro n hn id hf
    cases reset with
    | true =>
      rw [hreach'] at hn
      cases hn
    | false =>
      obtain ⟨hreach, hwait⟩ := hnext rfl
      rw [hreach', if_neg Bool.false_ne_true, ← hreach] at hn
      rw [hstore] at hf
      have hl := (listed_iff n).2 (.inl hf)
      have hout : s'.overwritten = false := by simp [overwritten, hlatest]
      rw [Due, hdue', ← due_of_waiting hwait]
      exact (h.front n hn id hf).imp_right fun hc => ⟨hout, hcoming (.inl rfl) id hl hc.2⟩
  · intro n hn id hb
    cases reset with
    | true =>
      rw [hreach'] at hn
      cases hn
    | false =>
      obtain ⟨hreach, hwait⟩ := hnext rfl
      rw [hreach', if_neg Bool.false_ne_true, ← hreach] at hn
      rw [hstore] at hb
      rw [Due, hdue', ← due_of_waiting hwait]
      exact h.behind n hn id hb
  · intro id hl
    refine ⟨fun hm => ?_, fun hall => ?_⟩
    · have hm : s.window.flags.hasMore = false := hmore ▸ hm
      exact ((h.expected id (hlisted id hl)).now hm).imp (hheld id)
        (hcoming (.inr hm) id (hlisted id hl))
    · rw [hreach'] at hall
      cases reset <;> cases hall

/-- A clip leaves the window's list, and is to come if the daemon lists it. -/
theorem Orderly.of_removed (h : s.Orderly params) {id₀ : ClipId}
    (hclips : s'.window.clips = s.window.clips.filter (·.id ≠ id₀))
    (hfetches : s'.window.fetches = s.window.fetches)
    (hrequest : s'.window.requestId = s.window.requestId)
    (hmore : s'.window.flags.hasMore = s.window.flags.hasMore)
    (hoffset : s'.window.offset = s.window.offset) (hstore : s'.store = s.store)
    (hdead : ∀ id, .clipRemoved id ∈ s'.events → s.store.Entombed id)
    (hcoming : ∀ id, s.Listed params id → s.Coming id → s'.Coming id)
    (hremoved : s.Listed params id₀ → s'.Coming id₀) : s'.Orderly params := by
  have hlatest : s'.latest = s.latest := latest_congr hfetches hrequest
  have hreach : s'.reach = s.reach := reach_congr hlatest hmore hoffset
  have hkept : ∀ id, id ≠ id₀ → s.Held id → s'.Held id := by
    intro id hne hid
    obtain ⟨c, hc, rfl⟩ := List.mem_map.mp hid
    rw [Held, hclips]
    exact List.mem_map_of_mem (List.mem_filter.mpr ⟨hc, by simpa using hne⟩)
  have hsub : s'.due.Sublist s.due := by
    rw [due, due, overwritten_congr hlatest, arriving_congr hlatest]
    split
    · exact .refl _
    · rw [hclips]
      exact List.filter_sublist.append (.refl _)
  have hdue : ∀ id, s.Due id → s'.Due id ∨ s'.overwritten = false ∧ id = id₀ := by
    intro id hid
    rw [Due, due, ← overwritten_congr hlatest, ← arriving_congr hlatest] at hid
    cases hout : s'.overwritten with
    | true =>
      rw [hout, if_pos rfl] at hid
      exact .inl (by rwa [Due, due_of_overwritten hout])
    | false =>
      rw [hout, if_neg Bool.false_ne_true, List.map_append, List.mem_append] at hid
      by_cases hne : id = id₀
      · exact .inr ⟨rfl, hne⟩
      · rw [Due, due_of_not_overwritten hout, List.map_append, List.mem_append]
        exact .inl (hid.imp_left (hkept id hne))
  refine ⟨?_, h.nodup_due.sublist (hsub.map _),
    h.numbered.of_sublist (hfetches ▸ .refl _) hrequest, ?_, ?_, ?_, ?_⟩
  · rw [hclips]
    exact h.nodup.sublist (List.filter_sublist.map _)
  · rw [hstore]
    exact hdead
  · intro n hn id hf
    rw [hreach] at hn
    rw [hstore] at hf
    have hl : s.Listed params id := (listed_iff n).2 (.inl hf)
    rcases h.front n hn id hf with hd | ⟨hout, hc⟩
    · rcases hdue id hd with hd | ⟨hout, rfl⟩
      · exact .inl hd
      · exact .inr ⟨hout, hremoved hl⟩
    · exact .inr ⟨overwritten_congr hlatest ▸ hout, hcoming id hl hc⟩
  · intro n hn id hb hd
    rw [hreach] at hn
    rw [hstore] at hb
    exact h.behind n hn id hb ((hsub.map _).subset hd)
  · intro id hl
    have hl : s.Listed params id := by rwa [Listed, hstore] at hl
    by_cases hne : id = id₀
    · subst hne
      exact .of_coming (hremoved hl)
    · exact (h.expected id hl).mono hmore (fun hall => hreach ▸ hall) (hkept id hne)
        (fun _ hd => (hdue id hd).resolve_right fun he => hne he.2) (hcoming id hl)

omit [Fts5] in
theorem mem_eraseIdx_of_ne {α : Type} {l : List α} {a b : α} {i : Nat} (hi : l[i]? = some b)
    (ha : a ∈ l) (hne : a ≠ b) : a ∈ l.eraseIdx i := by
  obtain ⟨j, hj, rfl⟩ := List.getElem_of_mem ha
  refine List.mem_eraseIdx_iff_getElem?.mpr ⟨j, fun hij => ?_, List.getElem?_eq_getElem hj⟩
  rw [← hij, List.getElem?_eq_getElem hj] at hi
  exact hne (Option.some.inj hi)

/-- The window hears of a new clip. -/
theorem Orderly.added (h : s.Orderly params) {i : Nat} {c : Clip}
    (hevent : s.events[i]? = some (.clipAdded c)) (hin : s.Timely params c.id) :
    Orderly params { s with
      events := s.events.eraseIdx i, window := s.window.onClipAdded c } := by
  set s' : Browsing := { s with events := s.events.eraseIdx i, window := s.window.onClipAdded c }
    with hs'
  have hrest : s'.window.fetches = s.window.fetches ∧ s'.window.requestId = s.window.requestId ∧
      s'.window.flags = s.window.flags ∧ s'.window.offset = s.window.offset := by
    simp only [hs', ClipHistory.onClipAdded]
    split <;> exact ⟨rfl, rfl, rfl, rfl⟩
  obtain ⟨hfetches, hrequest, hflags, hoffset⟩ := hrest
  have hlatest : s'.latest = s.latest := latest_congr hfetches hrequest
  have hreach : s'.reach = s.reach := reach_congr hlatest (by rw [hflags]) hoffset
  have hany : s.window.clips.any (·.id = c.id) = true ↔ s.Held c.id := by
    simp [Held, List.any_eq_true]
  have hids : s'.window.clips.map (·.id) = if s.window.clips.any (·.id = c.id) then
      s.window.clips.map (·.id) else c.id :: s.window.clips.map (·.id) := by
    simp only [hs', ClipHistory.onClipAdded]
    split <;> rfl
  have hheld : ∀ id, s'.Held id ↔ s.Held id ∨ id = c.id := by
    intro id
    rw [Held, hids]
    split
    · next hc => exact ⟨.inl, fun hid => hid.elim (fun h => h) fun he => he ▸ hany.mp hc⟩
    · rw [List.mem_cons, or_comm]
      rfl
  have hcoming : ∀ id, s.Coming id → s'.Coming id ∨ id = c.id := by
    rintro id (⟨d, hd, rfl⟩ | hd)
    · by_cases he : d = c
      · exact .inr (congrArg Clip.id he)
      · refine .inl (.inl ⟨d, mem_eraseIdx_of_ne hevent hd ?_, rfl⟩)
        simpa using he
    · exact .inl (.inr hd)
  have hout : s'.overwritten = s.overwritten := overwritten_congr hlatest
  have hdue : ∀ id, s'.Due id ↔ s.Due id ∨ s.overwritten = false ∧ id = c.id := by
    intro id
    rw [Due, Due, due, due, hout, arriving_congr hlatest]
    cases s.overwritten with
    | true => simp
    | false =>
      have := hheld id
      rw [Held, Held] at this
      simp only [Bool.false_eq_true, if_false, List.map_append, List.mem_append, this, true_and]
      exact or_right_comm
  have hafter : s.overwritten = false → ¬ s.Held c.id → ¬ s.Due c.id ∧
      ∀ n, s.reach = .upTo n → ¬ Behind params s.store n c.id := by
    intro ho hh
    rw [Timely, if_neg (by simp [ho])] at hin
    rw [Due, due_of_not_overwritten ho, List.map_append, List.mem_append, not_or]
    exact ⟨⟨hh, (hin hh).1⟩, (hin hh).2⟩
  have hdue_of_held : s.overwritten = false → s.Held c.id → s.Due c.id := by
    intro ho hh
    rw [Due, due_of_not_overwritten ho, List.map_append]
    exact List.mem_append_left _ hh
  refine ⟨?_, ?_, h.numbered.of_sublist (hfetches ▸ .refl _) hrequest, ?_, ?_, ?_, ?_⟩
  · rw [hids]
    split
    · exact h.nodup
    · next hc => exact List.nodup_cons.mpr ⟨fun hid => hc (hany.mpr hid), h.nodup⟩
  · cases ho : s.overwritten with
    | true =>
      rw [due_of_overwritten (hout.trans ho), arriving_congr hlatest, ← due_of_overwritten ho]
      exact h.nodup_due
    | false =>
      rw [due_of_not_overwritten (hout.trans ho), arriving_congr hlatest, List.map_append, hids]
      have hd := h.nodup_due
      rw [due_of_not_overwritten ho, List.map_append] at hd
      split
      · exact hd
      · next hc =>
        have hnew := (hafter ho fun hh => hc (hany.mpr hh)).1
        rw [Due, due_of_not_overwritten ho, List.map_append] at hnew
        exact List.nodup_cons.mpr ⟨hnew, hd⟩
  · exact fun id hid => h.dead id (List.mem_of_mem_eraseIdx hid)
  · intro n hn id hf
    rw [hreach] at hn
    rw [hdue, hout]
    rcases h.front n hn id hf with hd | ⟨ho, hc⟩
    · exact .inl (.inl hd)
    · rcases hcoming id hc with hc | he
      · exact .inr ⟨ho, hc⟩
      · exact .inl (.inr ⟨ho, he⟩)
  · intro n hn id hb hd
    rw [hreach] at hn
    rcases (hdue id).mp hd with hd | ⟨ho, rfl⟩
    · exact h.behind n hn id hb hd
    · by_cases hh : s.Held c.id
      · exact h.behind n hn c.id hb (hdue_of_held ho hh)
      · exact (hafter ho hh).2 n hn hb
  · intro id hl
    have hl : s.Listed params id := hl
    by_cases he : id = c.id
    · subst he
      refine ⟨fun _ => .inl ((hheld c.id).mpr (.inr rfl)), fun hall => .inl ?_⟩
      rw [hdue]
      cases ho : s.overwritten with
      | true =>
        rw [Timely, if_pos ho] at hin
        refine .inl ?_
        rw [Due, due_of_overwritten ho]
        exact hin (hreach ▸ hall) hl
      | false => exact .inr ⟨rfl, rfl⟩
    · exact (h.expected id hl).mono (by rw [hflags]) (fun hall => hreach ▸ hall)
        (fun hh => (hheld id).mpr (.inl hh)) (fun _ hd => (hdue id).mpr (.inl hd))
        (fun hc => (hcoming id hc).resolve_right he)

/-! ## Answers -/

/-- The daemon answers. -/
theorem Orderly.answer (h : s.Orderly params) {n : Nat} {f₀ : HistoryFetch} {page₀ : List Clip}
    (hf₀ : s.fetch? n = some f₀) (hwait : f₀.answer = none)
    (hpage₀ : pageOf params s.store f₀.offset = some page₀) :
    (s.answered n page₀).Orderly params := by
  have hnumbered : (s.answered n page₀).window.Numbered := by
    refine h.numbered.of_map (fun f => ?_) rfl rfl
    split <;> exact ⟨rfl, rfl, rfl⟩
  by_cases hn : n = s.window.requestId
  swap
  · -- nobody waits for it
    refine h.of_quiet rfl hnumbered ?_ rfl rfl rfl (fun _ hid => hid) fun _ hc => hc
    rw [latest_answered]
    cases hl : s.latest with
    | none => rfl
    | some f =>
      have hid := (mem_of_fetch? hl).2
      rw [Option.map_some, if_neg fun he => hn (he.symm.trans hid)]
  have hl : s.latest = some f₀ := by rw [latest, ← hn, hf₀]
  have hlatest : (s.answered n page₀).latest = some { f₀ with answer := some page₀ } := by
    rw [latest_answered, hl, Option.map_some, if_pos (mem_of_fetch? hf₀).2]
  obtain ⟨hout, harriving⟩ := due_of_page hlatest rfl
  have hreach := reach_of_page hlatest rfl
  have hreach₀ := reach_of_waiting hl hwait
  have hdue₀ : s.due = s.window.clips := due_of_waiting fun f hf => by
    rw [hl] at hf
    rw [← Option.some.inj hf, hwait]
  have hnodup : (page₀.map (·.id)).Nodup := by
    rw [ids_of_page hpage₀]
    exact HistoryParams.nodup_listing.sublist
      (((List.take_sublist _ _).trans (List.drop_sublist _ _)).map _)
  -- what the window has is in front of the page
  have hfront : ∀ id, InFront params s.store f₀.offset id →
      (s.answered n page₀).Due id ∨ f₀.reset = false ∧ s.Coming id := by
    intro id hf
    cases hr : f₀.reset with
    | true =>
      rw [InFront, h.numbered.first f₀ (mem_of_fetch? hf₀).1 hr, List.take_zero] at hf
      cases hf
    | false =>
      rw [hr, if_neg Bool.false_ne_true] at hreach₀
      refine (h.front _ hreach₀ id hf).imp (fun hd => ?_) fun hc => ⟨rfl, hc.2⟩
      rw [Due, hdue₀] at hd
      rw [Due, due_of_not_overwritten (hout.trans hr), List.map_append]
      exact List.mem_append_left _ hd
  have hbehind : f₀.reset = false → ∀ id, Behind params s.store f₀.offset id → ¬ s.Held id := by
    intro hr id hb hh
    rw [hr, if_neg Bool.false_ne_true] at hreach₀
    exact h.behind _ hreach₀ id hb (by rwa [Due, hdue₀])
  have hpage : ∀ id ∈ page₀.map (·.id), (s.answered n page₀).Due id := by
    intro id hid
    rw [Due, due, harriving]
    split
    · exact hid
    · rw [List.map_append]
      exact List.mem_append_right _ hid
  refine ⟨h.nodup, ?_, hnumbered, h.dead, ?_, ?_, ?_⟩
  · cases hr : f₀.reset with
    | true =>
      rw [due_of_overwritten (hout.trans hr), harriving]
      exact hnodup
    | false =>
      rw [due_of_not_overwritten (hout.trans hr), harriving, List.map_append, List.nodup_append]
      refine ⟨h.nodup, hnodup, ?_⟩
      rintro a hheld _ hb rfl
      refine hbehind hr a ?_ hheld
      rw [ids_of_page hpage₀] at hb
      exact (List.take_sublist _ _).map _ |>.subset hb
  · intro m hm id hf
    rw [hreach] at hm
    split at hm
    next hlen =>
      obtain rfl := Reach.upTo.inj hm
      rw [hout]
      rcases inFront_page hpage₀ hlen hf with hf | hid
      · exact hfront id hf
      · exact .inl (hpage id hid)
    next => cases hm
  · intro m hm id hb hd
    rw [hreach] at hm
    split at hm
    next hlen =>
      obtain rfl := Reach.upTo.inj hm
      obtain ⟨hb, hid⟩ := not_mem_page_of_behind hpage₀ hlen hb
      rw [Due, due, hout, harriving] at hd
      cases hr : f₀.reset with
      | true =>
        rw [hr, if_pos rfl] at hd
        exact hid hd
      | false =>
        rw [hr, if_neg Bool.false_ne_true, List.map_append, List.mem_append] at hd
        exact hd.elim (hbehind hr id hb) hid
    next => cases hm
  · intro id hid
    refine ⟨(h.expected id hid).now, fun hall => ?_⟩
    rw [hreach] at hall
    split at hall
    next => cases hall
    next hlen =>
      rcases (listed_iff f₀.offset).1 hid with hf | hb
      · exact (hfront id hf).imp_right (·.2)
      · exact .inl (hpage id (mem_page_of_behind hpage₀ hlen hb))

/-- An answer that nobody waits for comes to nothing. -/
theorem Orderly.forget (h : s.Orderly params) {n : Nat} (hn : n ≠ s.window.requestId) :
    (s.forget n).Orderly params := by
  refine h.of_quiet rfl (h.numbered.of_sublist List.filter_sublist rfl) ?_ rfl rfl rfl
    (fun _ hid => hid) fun _ hc => hc
  rw [latest_forget, if_neg hn]

/-- The answer of the last fetch arrives. -/
theorem Orderly.receive (h : s.Orderly params) {f : HistoryFetch} {page : List Clip}
    (hl : s.latest = some f) (ha : f.answer = some page) :
    Orderly params { s with window := s.window.receive f page } := by
  obtain ⟨-, hfetches, hrequest, -⟩ := receive_eq hl ha
  set s' : Browsing := { s with window := s.window.receive f page } with hs'
  obtain ⟨hlatest, hclips, hdue, hreach⟩ := due_receive hl ha (rfl : s'.window = _)
  have hout : s'.overwritten = false := by simp [overwritten, hlatest]
  refine ⟨hclips ▸ h.nodup_due, hdue ▸ h.nodup_due, ?_, h.dead, ?_, ?_, ?_⟩
  · refine h.numbered.of_sublist ?_ hrequest
    rw [hfetches]
    exact List.filter_sublist
  · intro n hn id hf
    rw [Due, hdue]
    exact (h.front n (hreach ▸ hn) id hf).imp_right fun hc => ⟨hout, hc.2⟩
  · intro n hn id hb
    rw [Due, hdue]
    exact h.behind n (hreach ▸ hn) id hb
  · intro id hid
    have hnext := (h.expected id hid).next
    refine ⟨fun hm => ?_, fun hall => ?_⟩
    · have hall : s'.reach = .all := by
        rw [reach, hlatest]
        dsimp only
        rw [hm, if_neg Bool.false_ne_true]
      rw [Held, hclips]
      exact hnext (hreach ▸ hall)
    · rw [Due, hdue]
      exact hnext (hreach ▸ hall)

end

end Browsing
end Clipse
