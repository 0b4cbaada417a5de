import Clipse.App.Proof.Listing

/-!
# How far the history window has read

The window reads the daemon's listing page by page, each from the offset where the last one ended.
`latest` is the fetch that it waits for, `due` what its list will be with the page that is on its way,
and `reach` how much of the listing that is to be.

* `latest_runFetch`, `latest_answered`, `latest_forget`: the fetch after each step that concerns it.
* `due_receive`, `reach_receive`: the page arrives, and both stay.
-/

namespace Clipse

/-! ## The fetches of a window -/

namespace ClipHistory

/-- No two fetches have one number, and none is later than the last. -/
structure Numbered (w : ClipHistory) : Prop where
  requestIds : (w.fetches.map (·.requestId)).Nodup
  current : ∀ f ∈ w.fetches, f.requestId ≤ w.requestId
  first : ∀ f ∈ w.fetches, f.reset = true → f.offset = 0

theorem mem_runFetch {w : ClipHistory} {reset : Bool} {f : HistoryFetch} :
    f ∈ (w.runFetch reset).fetches ↔ f ∈ w.fetches ∨
      f = { requestId := w.requestId + 1, reset, offset := if reset then 0 else w.offset } := by
  rw [runFetch, List.mem_append, List.mem_singleton]

theorem Numbered.runFetch {w : ClipHistory} (h : w.Numbered) (reset : Bool) :
    (w.runFetch reset).Numbered := by
  refine ⟨?_, fun f hf => ?_, fun f hf hreset => ?_⟩
  · rw [ClipHistory.runFetch, List.map_append, List.map_singleton]
    refine List.nodup_append.mpr ⟨h.requestIds, List.nodup_singleton _, fun n hn m hm => ?_⟩
    obtain ⟨f, hf, rfl⟩ := List.mem_map.mp hn
    rw [List.mem_singleton.mp hm]
    exact Nat.ne_of_lt (Nat.lt_succ_of_le (h.current f hf))
  · rcases mem_runFetch.mp hf with hf | rfl
    · exact Nat.le_succ_of_le (h.current f hf)
    · exact Nat.le_refl _
  · rcases mem_runFetch.mp hf with hf | rfl
    · exact h.first f hf hreset
    · exact if_pos hreset

theorem Numbered.of_sublist {w w' : ClipHistory} (h : w.Numbered)
    (hfetches : w'.fetches.Sublist w.fetches) (hrequest : w'.requestId = w.requestId) :
    w'.Numbered where
  requestIds := h.requestIds.sublist (hfetches.map _)
  current f hf := hrequest ▸ h.current f (hfetches.subset hf)
  first f hf := h.first f (hfetches.subset hf)

theorem numbered_mounted : mounted.Numbered := by
  have h : ({} : ClipHistory).Numbered :=
    ⟨List.nodup_nil, fun _ hf => absurd hf List.not_mem_nil, fun _ hf => absurd hf List.not_mem_nil⟩
  exact h.runFetch true

/-- An answer changes no number. -/
theorem Numbered.of_map {w w' : ClipHistory} (h : w.Numbered) {g : HistoryFetch → HistoryFetch}
    (hg : ∀ f, (g f).requestId = f.requestId ∧ (g f).reset = f.reset ∧ (g f).offset = f.offset)
    (hfetches : w'.fetches = w.fetches.map g) (hrequest : w'.requestId = w.requestId) :
    w'.Numbered := by
  refine ⟨?_, fun f hf => ?_, fun f hf hreset => ?_⟩
  · have hsame : w'.fetches.map (·.requestId) = w.fetches.map (·.requestId) := by
      rw [hfetches, List.map_map]
      exact List.map_congr_left fun f _ => (hg f).1
    rw [hsame]
    exact h.requestIds
  · rw [hfetches] at hf
    obtain ⟨f₀, hf₀, rfl⟩ := List.mem_map.mp hf
    rw [(hg f₀).1, hrequest]
    exact h.current f₀ hf₀
  · rw [hfetches] at hf
    obtain ⟨f₀, hf₀, rfl⟩ := List.mem_map.mp hf
    rw [(hg f₀).2.2]
    exact h.first f₀ hf₀ ((hg f₀).2.1 ▸ hreset)

end ClipHistory

namespace Browsing

/-! ## The fetch that the window waits for -/

/-- The last call of `runFetch`, until it comes back. -/
def latest (s : Browsing) : Option HistoryFetch := s.fetch? s.window.requestId

/-- The window with the answer. -/
def answered (s : Browsing) (n : Nat) (page : List Clip) : Browsing :=
  { s with
    window.fetches := s.window.fetches.map fun f =>
      if f.requestId = n then { f with answer := some page } else f }

/-- The window without the fetch. -/
def forget (s : Browsing) (n : Nat) : Browsing :=
  { s with window.fetches := s.window.fetches.filter (·.requestId ≠ n) }

section
variable {s s' : Browsing} {n : Nat} {f : HistoryFetch} {page : List Clip}

theorem mem_of_fetch? (h : s.fetch? n = some f) : f ∈ s.window.fetches ∧ f.requestId = n := by
  refine ⟨List.mem_of_find?_eq_some h, ?_⟩
  simpa using List.find?_some h

theorem latest_congr (hfetches : s'.window.fetches = s.window.fetches)
    (hrequest : s'.window.requestId = s.window.requestId) : s'.latest = s.latest := by
  rw [latest, latest, fetch?, fetch?, hfetches, hrequest]

theorem latest_runFetch (h : s.window.Numbered) (reset : Bool)
    (hwindow : s'.window = s.window.runFetch reset) :
    s'.latest = some
      { requestId := s.window.requestId + 1, reset, offset := if reset then 0 else s.window.offset } := by
  have hold : s.window.fetches.find? (·.requestId = s.window.requestId + 1) = none := by
    refine List.find?_eq_none.2 fun f hf => ?_
    have := h.current f hf
    simp only [decide_eq_true_eq]
    omega
  rw [latest, fetch?, hwindow, ClipHistory.runFetch, List.find?_append, hold, Option.none_or]
  simp

theorem latest_answered (s : Browsing) (n : Nat) (page : List Clip) :
    (s.answered n page).latest =
      s.latest.map fun f => if f.requestId = n then { f with answer := some page } else f := by
  show List.find? _ (List.map _ _) = _
  rw [List.find?_map]
  congr 2
  funext f
  simp only [Function.comp_apply]
  split <;> rfl

theorem latest_forget (s : Browsing) (n : Nat) :
    (s.forget n).latest = if n = s.window.requestId then none else s.latest := by
  show List.find? _ (List.filter _ _) = _
  rw [List.find?_filter]
  split
  · next hn =>
    subst hn
    refine List.find?_eq_none.2 fun f _ => ?_
    simp [forget]
  · next hn =>
    show _ = List.find? _ _
    congr 1
    funext f
    by_cases hf : f.requestId = s.window.requestId
    · simp [forget, hf, Ne.symm hn]
    · simp [forget, hf]

end

/-! ## The list, with the page that is on its way -/

/-- The page that is on its way. -/
def arriving (s : Browsing) : List Clip := (s.latest.bind (·.answer)).getD []

/-- It is to replace the list. -/
def overwritten (s : Browsing) : Bool := s.latest.any fun f => f.answer.isSome && f.reset

/-- The list once it is there. -/
def due (s : Browsing) : List Clip :=
  if s.overwritten then s.arriving else s.window.clips ++ s.arriving

/-- The clip is in the window's list. -/
def Held (s : Browsing) (id : ClipId) : Prop := id ∈ s.window.clips.map (·.id)

def Due (s : Browsing) (id : ClipId) : Prop := id ∈ s.due.map (·.id)

section
variable {s s' : Browsing} {f : HistoryFetch} {page : List Clip} {id : ClipId}

theorem arriving_congr (h : s'.latest = s.latest) : s'.arriving = s.arriving := by
  rw [arriving, arriving, h]

theorem overwritten_congr (h : s'.latest = s.latest) : s'.overwritten = s.overwritten := by
  rw [overwritten, overwritten, h]

theorem due_of_overwritten (h : s.overwritten = true) : s.due = s.arriving := if_pos h

theorem due_of_not_overwritten (h : s.overwritten = false) :
    s.due = s.window.clips ++ s.arriving := if_neg (by simp [h])

/-- No page is on its way. -/
theorem due_of_waiting (h : ∀ f, s.latest = some f → f.answer = none) : s.due = s.window.clips := by
  cases hl : s.latest with
  | none => simp [due, overwritten, arriving, hl]
  | some f => simp [due, overwritten, arriving, hl, h f hl]

theorem due_of_page (hl : s.latest = some f) (ha : f.answer = some page) :
    s.overwritten = f.reset ∧ s.arriving = page := by
  simp [overwritten, arriving, hl, ha]

theorem held_iff_of_ids (h : s'.window.clips.map (·.id) = s.window.clips.map (·.id)) :
    s'.Held id ↔ s.Held id := by
  rw [Held, Held, h]

theorem due_ids_congr (hlatest : s'.latest = s.latest)
    (hids : s'.window.clips.map (·.id) = s.window.clips.map (·.id)) :
    s'.due.map (·.id) = s.due.map (·.id) := by
  rw [due, due, overwritten_congr hlatest, arriving_congr hlatest]
  split
  · rfl
  · rw [List.map_append, List.map_append, hids]

end

/-! ## How much of the listing that is to be -/

inductive Reach where
  /-- The rows in front of the offset at which the next page begins. -/
  | upTo (offset : Nat)
  /-- All rows: the last page was not full. -/
  | all
  /-- The list is to be replaced by a page that the daemon has still to send. -/
  | unread
deriving DecidableEq

def reach (s : Browsing) : Reach :=
  match s.latest with
  | none => if s.window.flags.hasMore then .upTo s.window.offset else .all
  | some f =>
    match f.answer with
    | none => if f.reset then .unread else .upTo f.offset
    | some page => if page.length = 150 then .upTo (f.offset + page.length) else .all

section
variable {s s' : Browsing} {f : HistoryFetch} {page : List Clip}

theorem reach_congr (hlatest : s'.latest = s.latest)
    (hmore : s'.window.flags.hasMore = s.window.flags.hasMore)
    (hoffset : s'.window.offset = s.window.offset) : s'.reach = s.reach := by
  rw [reach, reach, hlatest, hmore, hoffset]

theorem reach_of_waiting (hl : s.latest = some f) (ha : f.answer = none) :
    s.reach = if f.reset then .unread else .upTo f.offset := by
  rw [reach, hl]
  dsimp only
  rw [ha]

theorem reach_of_page (hl : s.latest = some f) (ha : f.answer = some page) :
    s.reach = if page.length = 150 then .upTo (f.offset + page.length) else .all := by
  rw [reach, hl]
  dsimp only
  rw [ha]

/-- The window once the page is there. -/
theorem receive_eq (hl : s.latest = some f) (ha : f.answer = some page) :
    let window := s.window.receive f page
    window.clips = s.due ∧ window.fetches = (s.forget f.requestId).window.fetches ∧
      window.requestId = s.window.requestId ∧ window.offset = f.offset + page.length ∧
      window.flags.hasMore = decide (page.length = 150) := by
  obtain ⟨hreset, harriving⟩ := due_of_page hl ha
  have hcurrent : ¬ f.requestId ≠ s.window.requestId := not_not.2 (mem_of_fetch? hl).2
  simp only [ClipHistory.receive, if_neg hcurrent, due, hreset, harriving]
  exact ⟨trivial, rfl, trivial, trivial, rfl⟩

/-- **The page arrives**: the list is what was due, and as much of the listing. -/
theorem due_receive (hl : s.latest = some f) (ha : f.answer = some page)
    (hwindow : s'.window = s.window.receive f page) :
    s'.latest = none ∧ s'.window.clips = s.due ∧ s'.due = s.due ∧ s'.reach = s.reach := by
  obtain ⟨hclips, hfetches, hrequest, hoffset, hmore⟩ := receive_eq hl ha
  rw [← hwindow] at hclips hfetches hrequest hoffset hmore
  have hnone : s'.latest = none := by
    rw [latest_congr (s := s.forget f.requestId) hfetches hrequest, latest_forget,
      if_pos (mem_of_fetch? hl).2]
  refine ⟨hnone, hclips, ?_, ?_⟩
  · rw [due_of_waiting (fun g hg => by rw [hnone] at hg; cases hg), hclips]
  · rw [reach_of_page hl ha, reach, hnone]
    dsimp only
    rw [hmore, hoffset]
    simp only [decide_eq_true_eq]

end

/-! ## The rows in front of an offset and behind it -/

section
variable [Fts5] (params : HistoryParams)

/-- The ids that the daemon lists for the window. -/
def Listed (s : Browsing) (id : ClipId) : Prop := id ∈ (params.listing s.store).map (·.id)

def InFront (store : Store) (n : Nat) (id : ClipId) : Prop :=
  id ∈ ((params.listing store).take n).map (·.id)

def Behind (store : Store) (n : Nat) (id : ClipId) : Prop :=
  id ∈ ((params.listing store).drop n).map (·.id)

variable {params} {s : Browsing} {store : Store} {n : Nat} {id : ClipId}

theorem listed_iff (n : Nat) :
    s.Listed params id ↔ InFront params s.store n id ∨ Behind params s.store n id := by
  rw [InFront, Behind, ← List.mem_append, ← List.map_append, List.take_append_drop, Listed]

/-- A row is on one side only. -/
theorem not_behind_of_inFront (h : InFront params store n id) : ¬ Behind params store n id := by
  have hn : ((params.listing store).map (·.id)).Nodup := HistoryParams.nodup_listing
  rw [← List.take_append_drop n (params.listing store), List.map_append, List.nodup_append] at hn
  exact fun hb => hn.2.2 id h id hb rfl

theorem ids_of_page {page : List Clip} (hpage : pageOf params store n = some page) :
    page.map (·.id) = (((params.listing store).drop n).take 150).map (·.id) := by
  rw [HistoryParams.pageOf_eq hpage, List.map_map]
  rfl

/-- What is behind a full page is behind what is in front of it, and not on it. -/
theorem not_mem_page_of_behind {page : List Clip} (hpage : pageOf params store n = some page)
    (hlen : page.length = 150) (h : Behind params store (n + page.length) id) :
    Behind params store n id ∧ id ∉ page.map (·.id) := by
  rw [Behind, hlen, ← List.drop_drop] at h
  refine ⟨(List.drop_sublist 150 _).map _ |>.subset h, fun hid => ?_⟩
  rw [ids_of_page hpage] at hid
  have hn : ((params.listing store).map (·.id)).Nodup := HistoryParams.nodup_listing
  replace hn := hn.sublist ((List.drop_sublist n _).map _)
  rw [← List.take_append_drop 150 ((params.listing store).drop n), List.map_append,
    List.nodup_append] at hn
  exact hn.2.2 id hid id h rfl

/-- What is in front of the next page is on this one, or in front of it. -/
theorem inFront_page {page : List Clip} (hpage : pageOf params store n = some page)
    (hlen : page.length = 150) (h : InFront params store (n + page.length) id) :
    InFront params store n id ∨ id ∈ page.map (·.id) := by
  rw [InFront, hlen, List.take_add, List.map_append, List.mem_append] at h
  rwa [ids_of_page hpage]

/-- A page that is not full ends the listing. -/
theorem mem_page_of_behind {page : List Clip} (hpage : pageOf params store n = some page)
    (hlen : page.length ≠ 150) (h : Behind params store n id) : id ∈ page.map (·.id) := by
  rw [HistoryParams.pageOf_eq hpage, List.length_map, List.length_take] at hlen
  rwa [ids_of_page hpage, List.take_of_length_le (by omega)]

end

end Browsing
end Clipse
