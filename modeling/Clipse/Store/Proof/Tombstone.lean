import Clipse.Store.Proof.Calls

/-!
# Tombstones (`clipse-store/src/store.rs`, `schema.rs`)

`Tidy`: the flag, the deletion time and the search row of every row agree. The calls keep it
(`Tidy.call`) until a clip that is deleted already gets a row of its own: `insert` leaves
`deleted_at_ms` of that row `NULL`, so no purge takes it, and gives it a search row.
`tidy_iff`: that, and a clock that goes back, is all that can go wrong.
-/

namespace Clipse
namespace Store

structure Tidy (s : Store) : Prop where
  stamped : ∀ r ∈ s.rows, r.deleted ↔ r.deletedAtMs.isSome
  indexed : ∀ r ∈ s.rows, r.deleted = false → (s.ftsOf r.id).length = 1
  dropped : ∀ r ∈ s.rows, r.deleted → s.ftsOf r.id = []

/-- The search index has only rows of clips in the table. -/
def Indexed (s : Store) : Prop := ∀ f ∈ s.clipFts, ∃ r ∈ s.rows, r.id = f.clipId

section
variable [Blake3]

/-- What a call is to leave behind. -/
def KeepsBooks (s : Store) (c : Call) : Prop :=
  Tidy (s.call c) ∧
    ∀ now, c = .purgeTombstones 0 now → ∀ r ∈ (s.call c).rows, r.deleted = false

/-- No clip that is deleted already gets a row of its own, and a purge of every tombstone does not
read a time before the deletions. -/
def InTime (s : Store) : Call → Prop
  | .write (.insert c) =>
    c.deleted → c.hashMatches → (c.payloads.map (·.label)).Nodup → (∀ r ∈ s.rows, r.id ≠ c.id) →
      ∃ r ∈ s.rows, r.hash = c.hash ∧ r.deleted = false
  | .write (.setPinned ..) | .write (.delete ..) => True
  | .purgeTombstones olderThanMs now =>
    olderThanMs = 0 → ∀ r ∈ s.rows, ∀ at_ ∈ r.deletedAtMs, at_.toInt64 ≤ now.toInt64

end

variable {s s' : Store}

/-! ## What the calls keep -/

theorem tidy_open (quota : UInt64) : Tidy (open_ quota) ∧ Indexed (open_ quota) := by
  refine ⟨⟨?_, ?_, ?_⟩, ?_⟩
  all_goals
    intro r hr
    cases hr

/-- Updates that leave the flag and the deletion time alone. -/
theorem Tidy.of_map {f : ClipRow → ClipRow} (h : Tidy s) (hi : Indexed s)
    (hr : s'.rows = s.rows.map f) (hf : s'.clipFts = s.clipFts) (hid : ∀ r, (f r).id = r.id)
    (hdel : ∀ r, (f r).deleted = r.deleted) (hat : ∀ r, (f r).deletedAtMs = r.deletedAtMs) :
    Tidy s' ∧ Indexed s' := by
  have hfts : s'.ftsOf = s.ftsOf := by
    funext id
    rw [ftsOf, ftsOf, hf]
  refine ⟨⟨fun r hr' => ?_, fun r hr' hd => ?_, fun r hr' hd => ?_⟩, fun g hg => ?_⟩
  · rw [hr] at hr'
    obtain ⟨r₀, hr₀, rfl⟩ := List.mem_map.1 hr'
    rw [hdel, hat]
    exact h.stamped r₀ hr₀
  · rw [hr] at hr'
    obtain ⟨r₀, hr₀, rfl⟩ := List.mem_map.1 hr'
    rw [hdel] at hd
    rw [hfts, hid]
    exact h.indexed r₀ hr₀ hd
  · rw [hr] at hr'
    obtain ⟨r₀, hr₀, rfl⟩ := List.mem_map.1 hr'
    rw [hdel] at hd
    rw [hfts, hid]
    exact h.dropped r₀ hr₀ hd
  · rw [hf] at hg
    obtain ⟨r₀, hr₀, he⟩ := hi g hg
    refine ⟨f r₀, ?_, (hid r₀).trans he⟩
    rw [hr]
    exact List.mem_map_of_mem hr₀

/-- A row of its own for a clip that is not deleted. -/
theorem Tidy.of_append {c : Clip} (h : Tidy s) (hi : Indexed s) (hc : c.deleted = false)
    (hid : ∀ r ∈ s.rows, r.id ≠ c.id) (hr : s'.rows = s.rows ++ [.of c])
    (hf : s'.clipFts = s.clipFts ++ [.of c]) : Tidy s' ∧ Indexed s' := by
  have hold : ∀ r ∈ s.rows, s'.ftsOf r.id = s.ftsOf r.id := by
    intro r hr₀
    have hne : ¬ (FtsRow.of c).clipId = r.id := fun he => hid r hr₀ he.symm
    rw [ftsOf, hf, List.filter_append, List.filter_singleton, decide_eq_false hne]
    exact List.append_nil _
  have hnew : s'.ftsOf c.id = [.of c] := by
    have hnone : s.clipFts.filter (·.clipId = c.id) = [] := by
      refine List.filter_eq_nil_iff.2 fun f hf₀ he => ?_
      obtain ⟨r, hr₀, hrf⟩ := hi f hf₀
      exact hid r hr₀ (hrf.trans (of_decide_eq_true he))
    rw [ftsOf, hf, List.filter_append, hnone, List.nil_append, List.filter_singleton]
    simp [FtsRow.of]
  have hcases : ∀ r ∈ s'.rows, r ∈ s.rows ∨ r = .of c := by
    intro r hr'
    rw [hr] at hr'
    exact (List.mem_append.1 hr').imp_right List.mem_singleton.1
  refine ⟨⟨fun r hr' => ?_, fun r hr' hd => ?_, fun r hr' hd => ?_⟩, fun f hf' => ?_⟩
  · rcases hcases r hr' with hr' | rfl
    · exact h.stamped r hr'
    · show c.deleted = true ↔ _
      simp [hc, ClipRow.of]
  · rcases hcases r hr' with hr' | rfl
    · rw [hold r hr']
      exact h.indexed r hr' hd
    · exact congrArg List.length hnew
  · rcases hcases r hr' with hr' | rfl
    · rw [hold r hr']
      exact h.dropped r hr' hd
    · exact absurd hd (by rw [show (ClipRow.of c).deleted = c.deleted from rfl, hc]; decide)
  · rw [hf] at hf'
    rw [hr]
    rcases List.mem_append.1 hf' with hf' | hf'
    · obtain ⟨r, hr₀, he⟩ := hi f hf'
      exact ⟨r, List.mem_append_left _ hr₀, he⟩
    · rw [List.mem_singleton.1 hf']
      exact ⟨.of c, List.mem_append_right _ (List.mem_singleton_self _), rfl⟩

/-- A deletion stamps the row and takes its search row away. -/
theorem Tidy.of_delete {id : ClipId} {hlc : Hlc} {now : UInt64} (h : Tidy s) (hi : Indexed s)
    (hr : s'.rows = s.rows.map (fun r => if r.id = id && !r.deleted then bury now hlc r else r))
    (hf : s'.clipFts =
      if ∃ r ∈ s.rows, r.id = id ∧ r.deleted = false then s.clipFts.filter (·.clipId ≠ id)
      else s.clipFts) :
    Tidy s' ∧ Indexed s' := by
  by_cases hlive : ∃ r ∈ s.rows, r.id = id ∧ r.deleted = false
  swap
  · -- no row is hit
    have hmiss : ∀ r ∈ s.rows, ¬ (r.id = id && !r.deleted) := by
      intro r hr₀ he
      simp only [Bool.and_eq_true, decide_eq_true_eq, Bool.not_eq_true'] at he
      exact hlive ⟨r, hr₀, he⟩
    rw [map_eq_self hmiss] at hr
    rw [if_neg hlive] at hf
    refine h.of_map hi (f := fun r => r) ?_ hf (fun _ => rfl) (fun _ => rfl) fun _ => rfl
    rw [hr, List.map_id']
  obtain ⟨e, he, rfl, hd⟩ := hlive
  rw [if_pos ⟨e, he, rfl, hd⟩] at hf
  have hgone : s'.ftsOf e.id = [] := by
    rw [ftsOf, hf, List.filter_filter]
    refine List.filter_eq_nil_iff.2 fun f _ => ?_
    simp
  have hother : ∀ id', id' ≠ e.id → s'.ftsOf id' = s.ftsOf id' := by
    intro id' hne
    rw [ftsOf, hf, List.filter_filter]
    refine List.filter_congr fun f _ => ?_
    by_cases hfi : f.clipId = id'
    · simp [hfi, hne]
    · simp [hfi]
  have hcases : ∀ r ∈ s'.rows, r = bury now hlc e ∨ (r ∈ s.rows ∧ r.id ≠ e.id) := by
    intro r hr'
    rw [hr] at hr'
    obtain ⟨r₀, hr₀, rfl⟩ := List.mem_map.1 hr'
    by_cases hid : r₀.id = e.id
    · left
      obtain rfl := s.clip.eq_of_key_eq hr₀ he hid
      simp [hd]
    · right
      simp [hid, hr₀]
  refine ⟨⟨fun r hr' => ?_, fun r hr' hrd => ?_, fun r hr' hrd => ?_⟩, fun f hf' => ?_⟩
  · rcases hcases r hr' with rfl | ⟨hr', -⟩
    · exact ⟨fun _ => rfl, fun _ => rfl⟩
    · exact h.stamped r hr'
  · rcases hcases r hr' with rfl | ⟨hr', hne⟩
    · cases hrd
    · rw [hother _ hne]
      exact h.indexed r hr' hrd
  · rcases hcases r hr' with rfl | ⟨hr', hne⟩
    · exact hgone
    · rw [hother _ hne]
      exact h.dropped r hr' hrd
  · rw [hf, List.mem_filter] at hf'
    obtain ⟨r, hr₀, hrf⟩ := hi f hf'.1
    have hne : r.id ≠ e.id := by simpa [hrf] using hf'.2
    refine ⟨r, ?_, hrf⟩
    rw [hr]
    exact List.mem_map.2 ⟨r, hr₀, by simp [hne]⟩

/-- Only rows without a search row are purged. -/
theorem Tidy.of_purge {olderThanMs now : UInt64} (h : Tidy s) (hi : Indexed s) :
    Tidy (s.purgeTombstones olderThanMs now) ∧ Indexed (s.purgeTombstones olderThanMs now) := by
  have hr := rows_purgeTombstones s olderThanMs now
  have hfts : (s.purgeTombstones olderThanMs now).ftsOf = s.ftsOf := by
    funext id
    rw [ftsOf, ftsOf, clipFts_purgeTombstones]
  have hmem : ∀ r ∈ (s.purgeTombstones olderThanMs now).rows, r ∈ s.rows :=
    fun r => rows_purgeTombstones_subset
  refine ⟨⟨fun r hr' => h.stamped r (hmem r hr'), fun r hr' hd => ?_, fun r hr' hd => ?_⟩,
    fun f hf => ?_⟩
  · rw [hfts]
    exact h.indexed r (hmem r hr') hd
  · rw [hfts]
    exact h.dropped r (hmem r hr') hd
  · rw [clipFts_purgeTombstones] at hf
    obtain ⟨r, hr₀, he⟩ := hi f hf
    have hlive : r.deleted = false := by
      by_contra hd
      have hnil := h.dropped r hr₀ (by simpa using hd)
      have hmem' : f ∈ s.ftsOf r.id := List.mem_filter.2 ⟨hf, decide_eq_true he.symm⟩
      rw [hnil] at hmem'
      cases hmem'
    refine ⟨r, ?_, he⟩
    rw [hr, List.mem_filter]
    exact ⟨hr₀, by simp [due, hlive]⟩

/-- A purge of every tombstone takes those whose deletion is not in the future. -/
theorem purge_all_iff {now : UInt64} (h : Tidy s) :
    (∀ r ∈ (s.purgeTombstones 0 now).rows, r.deleted = false) ↔
      ∀ r ∈ s.rows, ∀ at_ ∈ r.deletedAtMs, at_.toInt64 ≤ now.toInt64 := by
  have hdue : ∀ r, due 0 now r =
      (r.deleted && r.deletedAtMs.any fun at_ => at_.toInt64 ≤ now.toInt64) := by
    intro r
    simp [due]
  rw [rows_purgeTombstones]
  constructor
  · intro hp r hr at_ hat
    by_contra hlt
    have hd : r.deleted := (h.stamped r hr).2 (Option.isSome_of_mem hat)
    have hkept : r ∈ s.rows.filter (fun r => !due 0 now r) := by
      rw [Option.mem_def] at hat
      refine List.mem_filter.2 ⟨hr, ?_⟩
      simp [hdue, hat, hlt]
    rw [hp r hkept] at hd
    cases hd
  · intro hp r hr
    obtain ⟨hr, hnot⟩ := List.mem_filter.1 hr
    by_contra hd
    have hd : r.deleted := by simpa using hd
    obtain ⟨at_, hat⟩ := Option.isSome_iff_exists.1 ((h.stamped r hr).1 hd)
    simp [hdue, hd, hat, hp r hr at_ hat] at hnot

/-! ## Runs -/

section
variable [Blake3]

/-- An insert keeps the books exactly if it adds no row for a clip that is deleted already. -/
theorem tidy_insert_iff {c : Clip} (h : Tidy s) (hi : Indexed s) :
    Tidy (s.write (.insert c)) ↔ s.InTime (.write (.insert c)) := by
  constructor
  · intro ht hc hm hlab hid
    rcases write_insert_cases s c with ⟨e, he, -, hh, hlive, -⟩ | ⟨-, -, -, -, hr, -⟩ | ⟨-, hno⟩
    · exact ⟨e, he, hh, hlive⟩
    · -- the row is there, without a deletion time
      have hmem : ClipRow.of c ∈ (s.write (.insert c)).rows := by
        rw [hr]
        exact List.mem_append_right _ (List.mem_singleton_self _)
      exact absurd ((ht.stamped _ hmem).1 hc) Bool.false_ne_true
    · obtain ⟨r, hr, he⟩ := (hno hm).2 hlab
      exact absurd he (hid r hr)
  · intro ht
    rcases write_insert_cases s c with ⟨e, -, -, -, -, hr, hf⟩ | ⟨hm, hlab, hlive, hid, hr, hf⟩ |
        ⟨hs, -⟩
    · refine (h.of_map hi hr hf (fun r => ?_) (fun r => ?_) fun r => ?_).1
      all_goals split <;> rfl
    · have hc : c.deleted = false := by
        by_contra hc
        obtain ⟨r, hr₀, hh, hd⟩ := ht (by simpa using hc) hm hlab hid
        exact absurd (hlive r hr₀ hh) (by rw [hd]; exact Bool.false_ne_true)
      exact (h.of_append hi hc hid hr hf).1
    · rwa [hs]

theorem indexed_insert {c : Clip} (hi : Indexed s) : Indexed (s.write (.insert c)) := by
  intro f hf'
  rcases write_insert_cases s c with ⟨e, -, -, -, -, hr, hf⟩ | ⟨-, -, -, -, hr, hf⟩ | ⟨hs, -⟩
  · rw [hf] at hf'
    obtain ⟨r, hr₀, he⟩ := hi f hf'
    rw [hr]
    refine ⟨_, List.mem_map_of_mem hr₀, ?_⟩
    rw [← he]
    split <;> rfl
  · rw [hf] at hf'
    rw [hr]
    rcases List.mem_append.1 hf' with hf' | hf'
    · obtain ⟨r, hr₀, he⟩ := hi f hf'
      exact ⟨r, List.mem_append_left _ hr₀, he⟩
    · rw [List.mem_singleton.1 hf']
      exact ⟨.of c, List.mem_append_right _ (List.mem_singleton_self _), rfl⟩
  · rw [hs] at hf' ⊢
    exact hi f hf'

/-- One call, in a store whose books are kept. -/
theorem keepsBooks_iff {c : Call} (h : Tidy s) (hi : Indexed s) : s.KeepsBooks c ↔ s.InTime c := by
  cases c with
  | write w =>
    have hp : s.KeepsBooks (.write w) ↔ Tidy (s.write w) :=
      ⟨fun hk => hk.1, fun ht => ⟨ht, fun now he => by cases he⟩⟩
    rw [hp]
    cases w with
    | insert c => exact tidy_insert_iff h hi
    | setPinned id pinned hlc =>
      refine iff_of_true (h.of_map hi (rows_write_setPinned s id pinned hlc)
        (clipFts_write_setPinned s id pinned hlc) (fun r => ?_) (fun r => ?_) fun r => ?_).1 trivial
      all_goals split <;> rfl
    | delete id hlc now =>
      exact iff_of_true (h.of_delete hi (rows_write_delete s id hlc now)
        (clipFts_write_delete s id hlc now)).1 trivial
  | purgeTombstones olderThanMs now =>
    have ht : Tidy (s.purgeTombstones olderThanMs now) := (h.of_purge hi).1
    constructor
    · rintro ⟨-, hp⟩ rfl
      exact (purge_all_iff h).1 (hp now rfl)
    · intro hin
      refine ⟨ht, fun now' he => ?_⟩
      cases he
      exact (purge_all_iff h).2 (hin rfl)

theorem indexed_call {c : Call} (h : Tidy s) (hi : Indexed s) : Indexed (s.call c) := by
  cases c with
  | write w =>
    cases w with
    | insert c => exact indexed_insert hi
    | setPinned id pinned hlc =>
      refine (h.of_map hi (rows_write_setPinned s id pinned hlc)
        (clipFts_write_setPinned s id pinned hlc) (fun r => ?_) (fun r => ?_) fun r => ?_).2
      all_goals split <;> rfl
    | delete id hlc now =>
      exact (h.of_delete hi (rows_write_delete s id hlc now) (clipFts_write_delete s id hlc now)).2
  | purgeTombstones olderThanMs now => exact (h.of_purge hi).2

/-- **Tombstone bookkeeping.** Over any run of calls, every call leaves flags, deletion times and
search rows in step, and every purge of all tombstones leaves none, exactly if no clip that is
deleted already gets a row of its own and no such purge reads a time before the deletions. -/
theorem books_kept_iff (quota : UInt64) (calls : List Call) :
    Stepwise call KeepsBooks (open_ quota) calls ↔ Stepwise call InTime (open_ quota) calls := by
  refine stepwise_congr (I := fun s => Tidy s ∧ Indexed s) (fun s c hs hk => ?_) (fun s c hs => ?_)
    (tidy_open quota)
  · exact ⟨hk.1, indexed_call hs.1 hs.2⟩
  · exact keepsBooks_iff hs.1 hs.2

end

/-! ## A deletion that arrives before its clip -/

section
attribute [local instance] Blake3.examples

/-- The text `hi`, deleted on the other device. -/
def deletedHi : Clip := { Clip.hi 0 (.repeated 1) ⟨7, 0, .repeated 1⟩ with deleted := true }

/-- The tombstone that a peer sends stays in the search index and survives every purge. -/
theorem peer_tombstone_stays :
    let s := (open_ 0).call (.write (.insert deletedHi))
    ¬ Stepwise call KeepsBooks (open_ 0) [.write (.insert deletedHi)] ∧
      (∃ r ∈ s.rows, r.deleted ∧ r.deletedAtMs = none ∧ s.ftsOf r.id = [.of deletedHi]) ∧
      ∀ olderThanMs now, ∃ r ∈ (s.call (.purgeTombstones olderThanMs now)).rows, r.deleted := by
  have hc : deletedHi.Canonical := by
    have hlive := Clip.hi_canonical 0 (.repeated 1) ⟨7, 0, .repeated 1⟩
    exact ⟨hlive.sorted, hlive.hash⟩
  obtain ⟨s', hs, hr⟩ := insert_fresh (s := open_ 0) hc (fun r hr => by cases hr)
    (fun r hr => by cases hr)
  have hf : s'.clipFts = [.of deletedHi] := by
    rw [clipFts_insert hs, if_pos rfl]
    rfl
  have hmem : ClipRow.of deletedHi ∈ s'.rows := by
    rw [hr]
    exact List.mem_append_right _ (List.mem_singleton_self _)
  intro s
  have he : s = s' := write_eq_of_insert hs
  rw [he]
  refine ⟨fun h => ?_, ⟨_, hmem, rfl, rfl, ?_⟩, fun olderThanMs now => ?_⟩
  · have ht : Tidy s' := he ▸ h.1.1
    exact absurd ((ht.stamped _ hmem).1 rfl) Bool.false_ne_true
  · rw [ftsOf, hf]
    rfl
  · refine ⟨_, ?_, show (ClipRow.of deletedHi).deleted = true from rfl⟩
    show _ ∈ (s'.purgeTombstones olderThanMs now).rows
    rw [rows_purgeTombstones]
    exact List.mem_filter.2 ⟨hmem, rfl⟩

end

end Store
end Clipse
