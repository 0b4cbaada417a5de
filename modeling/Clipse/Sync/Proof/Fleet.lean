import Clipse.Sync.Fleet
import Clipse.Sync.Proof.Converge
import Clipse.Sync.Proof.Keep

/-!
# Deleted content stays deleted as long as no purge is early

A tombstone keeps its content deleted on its own device, whatever peers push. When the last
tombstone of a content is purged, the next live copy that a peer pushes is a new clip. So deleted
content comes back only after a purge at a time when another device still has it
(`deleted_stays`), and then it does with the next session between the two (`purged_comes_back`).
-/

namespace Clipse

open Duplex Session

namespace Store

variable {s s' : Store} {hash : ContentHash}

/-- A row of the content, live or deleted. -/
def Known (s : Store) (hash : ContentHash) : Prop := ∃ r ∈ s.rows, r.hash = hash

/-- No row of the content is live. -/
def Dead (s : Store) (hash : ContentHash) : Prop := ∀ r ∈ s.rows, r.hash = hash → r.deleted

/-- The content has a tombstone, and no live row. -/
def Buried (s : Store) (hash : ContentHash) : Prop := s.Known hash ∧ s.Dead hash

/-! ## Updates -/

/-- The rows are updated in their places: none changes its content, and none comes back to life. -/
def Updates (s s' : Store) : Prop :=
  ∃ f : ClipRow → ClipRow, (∀ r, (f r).hash = r.hash) ∧ (∀ r, r.deleted → (f r).deleted) ∧
    s'.rows = s.rows.map f

theorem Updates.of_rows_eq (h : s'.rows = s.rows) : Updates s s' :=
  ⟨id, fun _ => rfl, fun _ => id, h.trans (List.map_id _).symm⟩

theorem updates_renew [Blake3] {c : Clip} {id : ClipId}
    (h : s'.rows = s.rows.map fun r => if r.id = id then renew c r else r) : Updates s s' := by
  refine ⟨_, fun r => ?_, fun r hd => ?_, h⟩
  · split <;> rfl
  · split <;> exact hd

theorem updates_repin {id : ClipId} {pinned : Bool} {hlc : Hlc}
    (h : s'.rows = s.rows.map fun r => if r.id = id then repin pinned hlc r else r) :
    Updates s s' := by
  refine ⟨_, fun r => ?_, fun r hd => ?_, h⟩
  · split <;> rfl
  · split <;> exact hd

theorem updates_bury {id : ClipId} {hlc : Hlc} {now : UInt64}
    (h : s'.rows = s.rows.map fun r => if r.id = id && !r.deleted then bury now hlc r else r) :
    Updates s s' := by
  refine ⟨_, fun r => ?_, fun r hd => ?_, h⟩
  · split <;> rfl
  · split
    · rfl
    · exact hd

theorem Known.updates (h : s.Known hash) (hu : Updates s s') : s'.Known hash := by
  obtain ⟨r, hmem, hh⟩ := h
  obtain ⟨f, hf, -, hr⟩ := hu
  exact ⟨f r, hr ▸ List.mem_map_of_mem hmem, (hf r).trans hh⟩

theorem Dead.updates (h : s.Dead hash) (hu : Updates s s') : s'.Dead hash := by
  intro r hmem hh
  obtain ⟨f, hf, hd, hr⟩ := hu
  rw [hr] at hmem
  obtain ⟨r₀, hmem₀, rfl⟩ := List.mem_map.1 hmem
  exact hd r₀ (h r₀ hmem₀ ((hf r₀).symm.trans hh))

theorem Buried.updates (h : s.Buried hash) (hu : Updates s s') : s'.Buried hash :=
  ⟨h.1.updates hu, h.2.updates hu⟩

theorem Known.append {c : Clip} (h : s.Known hash) (hr : s'.rows = s.rows ++ [.of c]) :
    s'.Known hash := by
  obtain ⟨r, hmem, hh⟩ := h
  exact ⟨r, hr ▸ List.mem_append_left _ hmem, hh⟩

/-- A new row does not matter, unless it is a live one of the content. -/
theorem Dead.append {c : Clip} (h : s.Dead hash) (hr : s'.rows = s.rows ++ [.of c])
    (hc : c.hash = hash → c.deleted) : s'.Dead hash := by
  intro r hmem hh
  rw [hr] at hmem
  rcases List.mem_append.1 hmem with hmem | hmem
  · exact h r hmem hh
  · rw [List.mem_singleton.1 hmem] at hh ⊢
    exact hc hh

theorem Buried.append {c : Clip} (h : s.Buried hash) (hr : s'.rows = s.rows ++ [.of c])
    (hc : c.hash ≠ hash) : s'.Buried hash :=
  ⟨h.1.append hr, h.2.append hr fun he => absurd he hc⟩

section
variable [Blake3]

theorem insert_ok_cases {c : Clip} {o : InsertOutcome} (h : s.insert c = .ok (o, s')) :
    Updates s s' ∨ s'.rows = s.rows ++ [.of c] := by
  rcases insert_cases h with ⟨-, rfl, -⟩ | ⟨e, -, -, -, -, -, hr, -⟩ | ⟨-, -, -, -, hr, -⟩
  · exact .inl (.of_rows_eq rfl)
  · exact .inl (updates_renew hr)
  · exact .inr hr

/-- What a local write does: only a capture adds a row. -/
theorem write_cases (s : Store) (w : Write) :
    Updates s (s.write w) ∨ ∃ c, w = .insert c ∧ (s.write w).rows = s.rows ++ [.of c] := by
  cases w with
  | insert c =>
    rcases write_insert_cases s c with ⟨e, -, -, -, -, hr, -⟩ | ⟨-, -, -, -, hr, -⟩ | ⟨he, -⟩
    · exact .inl (updates_renew hr)
    · exact .inr ⟨c, rfl, hr⟩
    · exact .inl (.of_rows_eq (by rw [he]))
  | setPinned id pinned hlc => exact .inl (updates_repin (rows_write_setPinned s id pinned hlc))
  | delete id hlc now => exact .inl (updates_bury (rows_write_delete s id hlc now))

end

end Store

/-! ## Sessions -/

namespace Session

variable [Blake3] {hash : ContentHash}

/-- Whatever a peer pushes, a buried content stays buried. -/
theorem upkeep_buried (hash : ContentHash) :
    Upkeep (Store.Buried · hash) fun _ => True where
  served _ _ := trivial
  insert {s₀ s s' c o} h₀ hm hs _ h := by
    -- a row is added for unknown content only
    have hne : c.hash ≠ hash := by
      rintro rfl
      obtain ⟨⟨r, hmem, hh⟩, -⟩ := h₀
      cases hr : s₀.rep c.hash with
      | none => exact Store.rep_eq_none.1 hr r hmem hh
      | some e =>
        rw [Store.byHashIncludingDeleted_eq, hr, Option.map_some] at hm
        unfold merge at hm
        dsimp only at hm
        split_ifs at hm
    rcases Store.insert_ok_cases h with hu | hr
    · exact hs.updates hu
    · exact hs.append hr hne
  setPinned hs h := hs.updates (Store.updates_repin (Store.setPinned_eq_ok h).1)
  delete hs h := hs.updates (Store.updates_bury (Store.delete_eq_ok h).1)
  putBlob hs _ := hs.updates (.of_rows_eq rfl)
  readBlob hs h := hs.updates (.of_rows_eq (Store.rows_readBlob h))

/-- Two devices on which the content is not live do not push it live. -/
theorem upkeep_dead (hash : ContentHash) :
    Upkeep (Store.Dead · hash) fun c => c.hash = hash → c.deleted where
  served {s hash' c} hs h he := by
    rw [Store.byHashIncludingDeleted_eq] at h
    obtain ⟨r, hr, rfl⟩ := Option.map_eq_some_iff.1 h
    exact hs r (Store.mem_of_rep hr).1 he
  insert _ _ hs hc h := by
    rcases Store.insert_ok_cases h with hu | hr
    · exact hs.updates hu
    · exact hs.append hr hc
  setPinned hs h := hs.updates (Store.updates_repin (Store.setPinned_eq_ok h).1)
  delete hs h := hs.updates (Store.updates_bury (Store.delete_eq_ok h).1)
  putBlob hs _ := hs.updates (.of_rows_eq rfl)
  readBlob hs h := hs.updates (.of_rows_eq (Store.rows_readBlob h))

section
variable {a b : SyncContext} {epochA epochB : UInt64} {F : Link syncWire SyncOutcome}

omit [Blake3] in
/-- Anything may be received under rules that do not restrict what is pushed. -/
theorem carries_any (i : Item SyncMessage Bytes) : Carries (fun _ => True) i := by
  cases i with
  | msg m => cases m <;> trivial
  | stream => trivial

theorem buried_session_left (ha : a.store.Buried hash)
    (h : Steps (sessionLink a b epochA epochB) F) : F.1.state.store.Buried hash :=
  kept_alone (R := upkeepRules (Store.Buried · hash) fun _ => True)
    (e := (sessionLink a b epochA epochB).1) carries_any (fun _ _ => trivial)
    (upholds_session (upkeep_buried hash) b.clock.device epochA .dialler) ha h

theorem buried_session_right (hb : b.store.Buried hash)
    (h : Steps (sessionLink a b epochA epochB) F) : F.2.state.store.Buried hash :=
  kept_alone (R := upkeepRules (Store.Buried · hash) fun _ => True)
    (e := (sessionLink a b epochA epochB).2) carries_any (fun _ _ => trivial)
    (upholds_session (upkeep_buried hash) a.clock.device epochB .responder) hb h.swap

theorem dead_session (ha : a.store.Dead hash) (hb : b.store.Dead hash)
    (h : Steps (sessionLink a b epochA epochB) F) :
    F.1.state.store.Dead hash ∧ F.2.state.store.Dead hash :=
  upholds_run (upkeep_dead hash) (fun s s' (he : s = s') hs => he ▸ hs) ha hb h.busy

/-- **What was purged comes back** with the next session, if the peer has it live. -/
theorem purged_comes_back (ha : Store.Sound a.store) (hb : Store.Sound b.store)
    (hfit : Fits a.store b.store) (hgone : ¬ a.store.Known hash) (hlive : ¬ b.store.Dead hash)
    (h : Completes (sessionLink a b epochA epochB) F) : ¬ F.1.state.store.Dead hash := by
  have hmarks : a.store.marks hash = [] := by
    refine List.map_eq_nil_iff.2 (List.filter_eq_nil_iff.2 fun r hmem hh => hgone ⟨r, hmem, ?_⟩)
    simpa using hh
  unfold Store.Dead at hlive
  push Not at hlive
  obtain ⟨r, hmem, hh, hd⟩ := hlive
  -- a live row of the content stands for it
  obtain ⟨e, he⟩ : ∃ e, b.store.rep hash = some e := by
    rw [← Option.ne_none_iff_exists']
    exact fun hnone => Store.rep_eq_none.1 hnone r hmem hh
  have hed : e.deleted = false := by
    by_contra hed
    rw [Store.rep_eq] at he
    exact hd (repOf_deleted he (by simpa using hed) r (Store.mem_rowsOf.2 ⟨hmem, hh⟩))
  have hrep : Lww.rep (b.store.marks hash) = some e.mark := by
    rw [Store.rep_marks, he]
    rfl
  have hleft := (Lww.exchange_of_left_empty hrep).1
  rw [← hmarks, ← session_marks ha hb hfit h hash, Store.rep_marks] at hleft
  obtain ⟨r', hr', hmark⟩ := Option.map_eq_some_iff.1 hleft
  obtain ⟨hmem', hh'⟩ := Store.mem_of_rep hr'
  intro hdead
  have hd' : r'.mark.deleted = true := hdead r' hmem' hh'
  rw [hmark, show e.mark.deleted = false from hed] at hd'
  cases hd'

end

end Session

/-! ## Runs of the fleet -/

/-- The user copies the content. -/
def FleetOp.Copies {ι : Type} (hash : ContentHash) : FleetOp ι → Prop
  | .call _ (.write (.insert c)) => c.hash = hash
  | _ => False

namespace Fleet

variable {ι : Type} {hash : ContentHash}

/-- A purge that takes the last tombstone of the content finds it live on no device. -/
def Heeds (hash : ContentHash) (w : Fleet ι) : FleetOp ι → Prop
  | .call i (.purgeTombstones olderThanMs now) =>
    (w i).store.Known hash →
      (∀ r ∈ (w i).store.rows, r.hash = hash → Store.due olderThanMs now r) →
      ∀ j, (w j).store.Dead hash
  | _ => True

/-- The content is buried on the device, or live on none. -/
def Rests (hash : ContentHash) (i : ι) (w : Fleet ι) : Prop :=
  (w i).store.Buried hash ∨ ∀ j, (w j).store.Dead hash

variable [DecidableEq ι] [Blake3] {w w' : Fleet ι} {op : FleetOp ι} {i : ι}

omit [DecidableEq ι] in
theorem dead_call {s : Store} {c : Store.Call} (h : s.Dead hash)
    (hc : ¬ (FleetOp.call i c).Copies hash) : (s.call c).Dead hash := by
  cases c with
  | write w =>
    rcases s.write_cases w with hu | ⟨c, rfl, hr⟩
    · exact h.updates hu
    · exact h.append hr fun he => absurd he hc
  | purgeTombstones olderThanMs now =>
    exact fun r hmem => h r (Store.rows_purgeTombstones_subset hmem)

theorem dead_step (h : ∀ j, (w j).store.Dead hash) (hs : w.Step op w') (hc : ¬ op.Copies hash) :
    ∀ j, (w' j).store.Dead hash := by
  intro j
  cases hs with
  | call i c =>
    by_cases hj : j = i
    · subst hj
      rw [Function.update_self]
      exact dead_call (h j) hc
    · rw [Function.update_of_ne hj]
      exact h j
  | @session i i' hne epochA epochB F hF =>
    obtain ⟨h₁, h₂⟩ := dead_session (h i) (h i') hF
    by_cases hj' : j = i'
    · subst hj'
      rw [Function.update_self]
      exact h₂
    · rw [Function.update_of_ne hj']
      by_cases hj : j = i
      · subst hj
        rw [Function.update_self]
        exact h₁
      · rw [Function.update_of_ne hj]
        exact h j

/-- A tombstone stays, unless it is purged. -/
theorem buried_step (h : (w i).store.Buried hash) (hs : w.Step op w') (hc : ¬ op.Copies hash) :
    (w' i).store.Buried hash ∨
      ∃ olderThanMs now, op = .call i (.purgeTombstones olderThanMs now) ∧
        ∀ r ∈ (w i).store.rows, r.hash = hash → Store.due olderThanMs now r := by
  cases hs with
  | call j c =>
    by_cases hj : i = j
    · subst hj
      rw [Function.update_self]
      cases c with
      | write u =>
        left
        rcases (w i).store.write_cases u with hu | ⟨c, rfl, hr⟩
        · exact h.updates hu
        · exact h.append hr hc
      | purgeTombstones olderThanMs now =>
        by_cases hall : ∀ r ∈ (w i).store.rows, r.hash = hash → Store.due olderThanMs now r
        · exact .inr ⟨olderThanMs, now, rfl, hall⟩
        · left
          push Not at hall
          obtain ⟨r, hmem, hh, hdue⟩ := hall
          refine ⟨⟨r, ?_, hh⟩, dead_call h.2 hc⟩
          show r ∈ ((w i).store.purgeTombstones olderThanMs now).rows
          rw [Store.rows_purgeTombstones]
          exact List.mem_filter.2 ⟨hmem, by simpa using hdue⟩
    · rw [Function.update_of_ne hj]
      exact .inl h
  | @session j j' hne epochA epochB F hF =>
    left
    by_cases hj' : i = j'
    · subst hj'
      rw [Function.update_self]
      exact buried_session_right h hF
    · rw [Function.update_of_ne hj']
      by_cases hj : i = j
      · subst hj
        rw [Function.update_self]
        exact buried_session_left h hF
      · rw [Function.update_of_ne hj]
        exact h

/-- **One step** of the fleet. -/
theorem Rests.step (h : Rests hash i w) (hs : w.Step op w') (hc : ¬ op.Copies hash)
    (hp : Heeds hash w op) : Rests hash i w' := by
  rcases h with h | h
  · rcases buried_step h hs hc with h' | ⟨olderThanMs, now, rfl, hall⟩
    · exact .inl h'
    · exact .inr (dead_step (hp h.1 hall) hs hc)
  · exact .inr (dead_step h hs hc)

omit [DecidableEq ι] [Blake3] in
theorem Rests.dead (h : Rests hash i w) : (w i).store.Dead hash := h.elim (·.2) (· i)

/-- **Deleted content stays deleted** wherever it was deleted, in a run in which every purge heeds
the other devices, until a user copies it again. -/
theorem deleted_stays {run before after : List (FleetOp ι × Fleet ι)} (hrun : Trail Step w run)
    (hpurge : Trail (fun w op _ => Heeds hash w op) w run) (hsplit : run = before ++ after)
    (hheld : (lastState w before i).store.Buried hash)
    (hcopy : ∀ step ∈ after, ¬ step.1.Copies hash) :
    (lastState w run i).store.Dead hash := by
  subst hsplit
  rw [lastState_append]
  have hrun' := (trail_append.1 hrun).2
  have hpurge' := (trail_append.1 hpurge).2
  generalize lastState w before = v at hheld hrun' hpurge'
  have hrests : Rests hash i v := .inl hheld
  clear hheld hrun hpurge
  induction after generalizing v with
  | nil => exact hrests.dead
  | cons step after ih =>
    rw [List.forall_mem_cons] at hcopy
    exact ih hcopy.2 step.2 hrun'.2 hpurge'.2 (hrests.step hrun'.1 hcopy.1 hpurge'.1)

end Fleet
/-! ## A purge on one device -/

section
attribute [local instance] Blake3.examples

/-- Two devices that have just been paired, and have stored nothing. -/
def newPair : Fleet Bool := fun i => .start (.open_ 0) (.repeated (if i then 1 else 2)) fun _ => 0

/-- The HLC at which the first device deletes. -/
def deletedAt : Hlc := ⟨1, 0, .repeated 1⟩

/-- The first device copies the text. -/
def copyThere : FleetOp Bool :=
  .call true (.write (.insert (.hi 0 (.repeated 1) ⟨0, 0, .repeated 1⟩)))

/-- So does the second. -/
def copyHere : FleetOp Bool :=
  .call false (.write (.insert (.hi 5 (.repeated 2) ⟨0, 0, .repeated 2⟩)))

def deleteThere : FleetOp Bool := .call true (.write (.delete ⟨0⟩ deletedAt 1))

def purgeThere : FleetOp Bool := .call true (.purgeTombstones 0 5)

namespace Fleet

/-- A call, as it takes the fleet on. -/
def after (w : Fleet Bool) : FleetOp Bool → Fleet Bool
  | .call i c => Function.update w i { w i with store := (w i).store.call c }
  | .session _ _ => w

end Fleet

def bothCopied : Fleet Bool := (newPair.after copyThere).after copyHere

def deletedOnce : Fleet Bool := bothCopied.after deleteThere

def purgedOnce : Fleet Bool := deletedOnce.after purgeThere

theorem rows_deletedOnce : (deletedOnce true).store.rows = [Store.tombstone 0] := by
  show ((Store.copied 0 (.repeated 1) ⟨0, 0, .repeated 1⟩).write (.delete ⟨0⟩ deletedAt 1)).rows = _
  rw [Store.rows_write_delete, (Store.copied_spec _ _ _).2]
  rfl

theorem rows_purgedOnce : (purgedOnce true).store.rows = [] := by
  show ((deletedOnce true).store.purgeTombstones 0 5).rows = []
  rw [Store.rows_purgeTombstones, rows_deletedOnce]
  decide

/-- A session between the two completes, and leaves the text on both. -/
theorem exists_session : ∃ F, Completes (sessionLink (purgedOnce true) (purgedOnce false) 0 0) F ∧
    ¬ F.1.state.store.Dead Clip.hiContent := by
  have hsound : Store.Sound (purgedOnce true).store := by
    intro r hr
    rw [rows_purgedOnce] at hr
    cases hr
  have hreach := (Store.copied_spec 5 (.repeated 2) ⟨0, 0, .repeated 2⟩).1
  have honly : Only Clip.hiContent (purgedOnce true).store := by
    intro r hr
    rw [rows_purgedOnce] at hr
    cases hr
  have hrows : (purgedOnce false).store.rows = [.of (.hi 5 (.repeated 2) ⟨0, 0, .repeated 2⟩)] :=
    (Store.copied_spec _ _ _).2
  obtain ⟨F, hF⟩ := session_completes hsound (b := purgedOnce false) hreach.sound
    (honly.compatible (onlyHi_copied _ _ _)) 0 0
  refine ⟨F, hF, Session.purged_comes_back hsound hreach.sound (fits_of_add_le ?_) ?_ ?_ hF⟩
  · rw [rows_purgedOnce, hrows]
    decide
  · rintro ⟨r, hr, -⟩
    rw [rows_purgedOnce] at hr
    cases hr
  · intro hdead
    have hlive := hdead _ (hrows ▸ List.mem_singleton_self _) rfl
    cases hlive

/-- Copies of the content, and pins, carry an HLC below that of the delete. -/
def FleetOp.Precedes {ι : Type} (hash : ContentHash) (deletedAt : Hlc) : FleetOp ι → Prop
  | .call _ (.write (.insert c)) => c.hash = hash → c.hlc < deletedAt
  | .call _ (.write (.setPinned _ _ hlc)) => hlc < deletedAt
  | _ => True

/-- Both devices have copied the text, and the first has deleted it since. Once it has purged the
tombstone, the other gives the text back to it. -/
theorem not_deleted_stays :
    ¬ ∀ (w : Fleet Bool) (run before after : List (FleetOp Bool × Fleet Bool))
        (hash : ContentHash) (deletedAt : Hlc) (i : Bool),
      (∀ i, Store.Reachable (w i).store ∧ ¬ (w i).store.Known hash) →
      Trail Fleet.Step w run → (∀ step ∈ run, step.1.Precedes hash deletedAt) →
      run = before ++ after →
      (∃ r ∈ (lastState w before i).store.rows,
        r.hash = hash ∧ r.deleted ∧ r.hlc = deletedAt) →
      (∀ step ∈ after, ¬ step.1.Copies hash) →
      (lastState w run i).store.Dead hash := by
  intro h
  obtain ⟨F, hF, hlive⟩ := exists_session
  let last := Function.update (Function.update purgedOnce true F.1.state) false F.2.state
  have hlast : (last true).store = F.1.state.store := rfl
  refine hlive (hlast ▸ h newPair
    [(copyThere, newPair.after copyThere), (copyHere, bothCopied), (deleteThere, deletedOnce),
      (purgeThere, purgedOnce), (.session true false, last)]
    [(copyThere, newPair.after copyThere), (copyHere, bothCopied), (deleteThere, deletedOnce)]
    [(purgeThere, purgedOnce), (.session true false, last)]
    Clip.hiContent deletedAt true ?_ ?_ ?_ rfl ?_ ?_)
  · exact fun i => ⟨.open_ 0, fun ⟨r, hr, _⟩ => by cases hr⟩
  · exact ⟨.call _ _, .call _ _, .call _ _, .call _ _, .session (by decide) hF.1, trivial⟩
  · intro step hstep
    simp only [List.mem_cons, List.not_mem_nil, or_false] at hstep
    rcases hstep with rfl | rfl | rfl | rfl | rfl
    · exact fun _ => by decide
    · exact fun _ => by decide
    · trivial
    · trivial
    · trivial
  · refine ⟨Store.tombstone 0, ?_, rfl, rfl, rfl⟩
    show Store.tombstone 0 ∈ (deletedOnce true).store.rows
    rw [rows_deletedOnce]
    exact List.mem_singleton_self _
  · intro step hstep
    simp only [List.mem_cons, List.not_mem_nil, or_false] at hstep
    rcases hstep with rfl | rfl <;> exact id

/-- The first device copies the text and deletes it. -/
def deletedAlone : List (FleetOp Bool × Fleet Bool) :=
  [(copyThere, newPair.after copyThere),
    (deleteThere, (newPair.after copyThere).after deleteThere)]

/-- The first device purges the tombstone. -/
def purgedAlone : List (FleetOp Bool × Fleet Bool) :=
  [(purgeThere, ((newPair.after copyThere).after deleteThere).after purgeThere)]

theorem buried_deletedAlone : ∀ i, ((lastState newPair deletedAlone) i).store.Dead Clip.hiContent ∧
    (i = true → ((lastState newPair deletedAlone) i).store.Known Clip.hiContent) := by
  have hrows : ((lastState newPair deletedAlone) true).store.rows = [Store.tombstone 0] :=
    rows_deletedOnce
  intro i
  cases i with
  | true =>
    refine ⟨fun r hr _ => ?_, fun _ => ⟨Store.tombstone 0, ?_, rfl⟩⟩
    · rw [hrows] at hr
      rw [List.mem_singleton.1 hr]
      rfl
    · rw [hrows]
      exact List.mem_singleton_self _
  | false =>
    refine ⟨fun r hr => ?_, fun he => ?_⟩
    · cases hr
    · cases he

/-- As long as the other device has no copy, purging is safe. -/
theorem deleted_stays_alone :
    ((lastState newPair (deletedAlone ++ purgedAlone)) true).store.Dead Clip.hiContent := by
  obtain ⟨hdead, hknown⟩ := buried_deletedAlone true
  refine @Fleet.deleted_stays Bool Clip.hiContent _ _ newPair true (deletedAlone ++ purgedAlone)
    deletedAlone purgedAlone ⟨.call _ _, .call _ _, .call _ _, trivial⟩
    ⟨trivial, trivial, fun _ _ j => (buried_deletedAlone j).1, trivial⟩ rfl ⟨hknown rfl, hdead⟩ ?_
  intro step hstep
  rw [List.mem_singleton.1 hstep]
  exact id

end
end Clipse
