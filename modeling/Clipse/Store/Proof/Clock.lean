import Clipse.Store.Proof.Calls

/-!
# The clocks of rows (`clipse-store/src/store.rs`)

Three statements write the HLC columns of a row that is there: the renewal in `insert`, `set_pinned`
and `delete`. None of them compares, so a row's clock goes forward exactly as long as the callers
hand in nothing older than the rows that are hit (`clocks_forward_iff`).
-/

namespace Clipse
namespace Store

variable [Blake3]

/-- What a write is to do to the rows that are there: no clock goes back, and a write that is older
than a row changes none of its replicated state. -/
def Forward (s : Store) (w : Write) : Prop :=
  ∀ r ∈ s.rows, ∃ r' ∈ (s.write w).rows, r'.id = r.id ∧ r.hlc ≤ r'.hlc ∧
    (w.hlc < r.hlc → r'.pinned = r.pinned ∧ r'.deleted = r.deleted ∧ r'.hlc = r.hlc)

/-- No row that the write hits is newer than it. -/
def NotStale (s : Store) : Write → Prop
  | .insert c =>
    c.hashMatches → ∀ r ∈ s.rows, r.hash = c.hash → r.deleted = false → r.hlc ≤ c.hlc
  | .setPinned id _ hlc => ∀ r ∈ s.rows, r.id = id → r.hlc ≤ hlc
  | .delete id hlc _ => ∀ r ∈ s.rows, r.id = id → r.deleted = false → r.hlc ≤ hlc

variable {s : Store} {w : Write}

theorem Forward.of_rows (h : ∀ r ∈ s.rows, r ∈ (s.write w).rows) : s.Forward w :=
  fun r hr => ⟨r, h r hr, rfl, le_refl _, fun _ => ⟨rfl, rfl, rfl⟩⟩

/-- A statement that stamps the rows it hits with the HLC of the write. -/
theorem forward_iff_of_update {p : ClipRow → Prop} [DecidablePred p] {f : ClipRow → ClipRow}
    (hrows : (s.write w).rows = s.rows.map (fun r => if p r then f r else r))
    (hid : ∀ r, (f r).id = r.id) (hlc : ∀ r, (f r).hlc = w.hlc) :
    s.Forward w ↔ ∀ r ∈ s.rows, p r → r.hlc ≤ w.hlc := by
  constructor
  · intro h r hr hp
    obtain ⟨r', hr', he, hle, -⟩ := h r hr
    have hmem : f r ∈ (s.write w).rows := by
      rw [hrows]
      exact List.mem_map.2 ⟨r, hr, if_pos hp⟩
    rw [(s.write w).clip.eq_of_key_eq hr' hmem (he.trans (hid r).symm), hlc] at hle
    exact hle
  · intro h r hr
    by_cases hp : p r
    · refine ⟨f r, ?_, hid r, ?_, fun hlt => absurd (h r hr hp) (not_le_of_gt hlt)⟩
      · rw [hrows]
        exact List.mem_map.2 ⟨r, hr, if_pos hp⟩
      · rw [hlc]
        exact h r hr hp
    · refine ⟨r, ?_, rfl, le_refl _, fun _ => ⟨rfl, rfl, rfl⟩⟩
      rw [hrows]
      exact List.mem_map.2 ⟨r, hr, if_neg hp⟩

theorem forward_insert_iff {c : Clip} : s.Forward (.insert c) ↔ s.NotStale (.insert c) := by
  unfold NotStale
  rcases write_insert_cases s c with ⟨e, he, hm, hh, hd, hrows, -⟩ | ⟨-, -, hlive, -, hrows, -⟩ |
      ⟨hs, hno⟩
  · -- the live row with the content is the one that is hit
    rw [forward_iff_of_update (w := .insert c) hrows (fun _ => rfl) fun _ => rfl]
    constructor
    · intro h _ r hr hrh hrd
      exact h r hr (congrArg ClipRow.id (eq_of_live hr he (hrh.trans hh.symm) hrd hd))
    · intro h r hr hid
      rw [s.clip.eq_of_key_eq hr he hid]
      exact h hm e he hh hd
  · refine iff_of_true (.of_rows fun r hr => ?_) fun _ r hr hh hd => ?_
    · rw [hrows]
      exact List.mem_append_left _ hr
    · have hdel := hlive r hr hh
      rw [hd] at hdel
      cases hdel
  · refine iff_of_true (.of_rows fun r hr => hs.symm ▸ hr) fun hm r hr hh hd => ?_
    have hdel := (hno hm).1 r hr hh
    rw [hd] at hdel
    cases hdel

/-- One write. -/
theorem forward_iff : s.Forward w ↔ s.NotStale w := by
  cases w with
  | insert c => exact forward_insert_iff
  | setPinned id pinned hlc =>
    exact forward_iff_of_update (rows_write_setPinned s id pinned hlc) (fun _ => rfl) fun _ => rfl
  | delete id hlc now =>
    rw [forward_iff_of_update (rows_write_delete s id hlc now) (fun _ => rfl) fun _ => rfl]
    simp only [NotStale, Bool.and_eq_true, decide_eq_true_eq, Bool.not_eq_true', and_imp]
    exact Iff.rfl

/-- **Row clocks move forward** in a run of writes exactly if no write is older than a row it
hits. -/
theorem clocks_forward_iff (s : Store) (ws : List Write) :
    Stepwise write Forward s ws ↔ Stepwise write NotStale s ws :=
  stepwise_congr (I := fun _ => True) (fun _ _ _ _ => trivial) (fun _ _ _ => forward_iff) trivial

/-- What that says of a row over the whole run. -/
theorem hlc_le_of_forward {ws : List Write} (h : Stepwise write Forward s ws) {r : ClipRow}
    (hr : r ∈ s.rows) : ∃ r' ∈ (ws.foldl write s).rows, r'.id = r.id ∧ r.hlc ≤ r'.hlc := by
  refine h.invariant (I := fun s => ∃ r' ∈ s.rows, r'.id = r.id ∧ r.hlc ≤ r'.hlc) ?_
    ⟨r, hr, rfl, le_refl _⟩
  rintro s w ⟨r₁, hr₁, hid, hle⟩ hf
  obtain ⟨r₂, hr₂, hid', hle', -⟩ := hf r₁ hr₁
  exact ⟨r₂, hr₂, hid'.trans hid, hle.trans hle'⟩

end Store

/-! ## A pin under a slow clock -/

section
attribute [local instance] Blake3.examples

/-- A peer whose clock is ahead sends a clip, and the user pins it. -/
theorem Store.pin_turns_clock_back :
    ¬ Stepwise Store.write Store.Forward (.open_ 0)
      [.insert (.hi 0 (.repeated 2) ⟨2000, 0, .repeated 2⟩),
        .setPinned ⟨0⟩ true ⟨1000, 0, .repeated 1⟩] := by
  have hc := Clip.hi_canonical 0 (.repeated 2) ⟨2000, 0, .repeated 2⟩
  obtain ⟨s', hs, hr⟩ := Store.insert_fresh (s := .open_ 0) hc (fun r hr => by cases hr)
    (fun r hr => by cases hr)
  rintro ⟨-, h, -⟩
  rw [Store.write_eq_of_insert hs] at h
  have hmem : ClipRow.of (.hi 0 (.repeated 2) ⟨2000, 0, .repeated 2⟩) ∈ s'.rows := by
    rw [hr]
    exact List.mem_append_right _ (List.mem_singleton_self _)
  have hle := Store.forward_iff.1 h _ hmem rfl
  exact absurd hle (by decide)

end
end Clipse
