import Clipse.Lib.Foremost
import Clipse.Sync.LoopGuard
import Mathlib.Data.List.Induction

/-!
# What the loop guard remembers

A guard after a run of `record_received` calls (`Recorded`) remembers of each hash its latest record
(`Remembers`). An entry that has not aged out goes only to the cap, and then the half of the cap
that stays was recorded no earlier; as long as the entry would be within the window this half stays
crowded with such entries (`Remembers.prune`).
-/

namespace Clipse.LoopGuard

theorem toNat_saturatingSub (a b : UInt64) : (saturatingSub a b).toNat = a.toNat - b.toNat := by
  rw [saturatingSub]
  split
  · rename_i h
    have hlt := UInt64.lt_iff_toNat_lt.1 h
    rw [UInt64.toNat_zero]
    omega
  · rename_i h
    exact UInt64.toNat_sub_of_le _ _ (UInt64.not_lt.1 h)

theorem saturatingSub_le {now a b : UInt64} (h : a ≤ b) :
    saturatingSub now b ≤ saturatingSub now a := by
  have hle := UInt64.le_iff_toNat_le.1 h
  rw [UInt64.le_iff_toNat_le, toNat_saturatingSub, toNat_saturatingSub]
  omega

theorem saturatingSub_mono {now now' : UInt64} (h : now ≤ now') (a : UInt64) :
    saturatingSub now a ≤ saturatingSub now' a := by
  have hle := UInt64.le_iff_toNat_le.1 h
  rw [UInt64.le_iff_toNat_le, toNat_saturatingSub, toNat_saturatingSub]
  omega

/-- Newer entries first. -/
def Newer (a b : GuardEntry) : Prop := b.atMs ≤ a.atMs

instance : DecidableRel Newer := fun a b => inferInstanceAs (Decidable (b.atMs ≤ a.atMs))

instance : Std.Total Newer := ⟨fun a b => UInt64.le_total b.atMs a.atMs⟩

instance : IsTrans GuardEntry Newer := ⟨fun _ _ _ h h' => UInt64.le_trans h' h⟩

/-- Recorded at `at_` or later. -/
def since (atMs : UInt64) (e : GuardEntry) : Bool := atMs ≤ e.atMs

theorem since_of_newer {atMs : UInt64} (a b : GuardEntry) (h : Newer a b)
    (hb : since atMs b = true) : since atMs a = true :=
  decide_eq_true (UInt64.le_trans (of_decide_eq_true hb) h)

/-- The entries that have not aged out. -/
def young (g : LoopGuard) (now : UInt64) : List GuardEntry :=
  g.seen.rows.filter fun e => !decide (g.windowMs < saturatingSub now e.atMs)

theorem mem_young {g : LoopGuard} {now : UInt64} {e : GuardEntry} :
    e ∈ g.young now ↔ e ∈ g.seen.rows ∧ saturatingSub now e.atMs ≤ g.windowMs := by
  rw [young, List.mem_filter, Bool.not_eq_true', decide_eq_false_iff_not, UInt64.not_lt]

/-- **What `prune` leaves**: what has not aged out, or of that the newest half. -/
theorem prune_cases (g : LoopGuard) (now : UInt64) :
    (g.prune now).windowMs = g.windowMs ∧
      ((g.young now).length < maxEntries ∧ (g.prune now).seen.rows = g.young now ∨
        maxEntries ≤ (g.young now).length ∧
          (g.prune now).seen.rows.Perm (((g.young now).insertionSort Newer).take (maxEntries / 2)))
    := by
  rw [prune]
  split
  · rename_i h
    refine ⟨rfl, .inr ⟨h, ?_⟩⟩
    have hnodup : (g.young now).Nodup := g.seen.nodup.of_map.filter _
    refine (List.perm_ext_iff_of_nodup (hnodup.filter _) (List.nodup_take_sort _ hnodup)).2
      fun e => ?_
    rw [List.mem_filter, Bool.not_eq_true', decide_eq_false_iff_not, not_not, List.mem_map]
    constructor
    · rintro ⟨he, e', he', hhash⟩
      have hrow := List.mem_of_mem_filter (List.mem_of_mem_take_sort _ he')
      rw [← g.seen.eq_of_key_eq hrow (List.mem_of_mem_filter he) hhash]
      exact he'
    · intro he
      exact ⟨List.mem_of_mem_take_sort _ he, e, he, rfl⟩
  · rename_i h
    exact ⟨rfl, .inl ⟨Nat.lt_of_not_le h, rfl⟩⟩

/-- `prune` leaves room for one more entry. -/
theorem length_prune (g : LoopGuard) (now : UInt64) :
    (g.prune now).seen.rows.length < maxEntries := by
  obtain ⟨-, ⟨hlt, hrows⟩ | ⟨-, hperm⟩⟩ := g.prune_cases now
  · rw [hrows]
    exact hlt
  · rw [hperm.length_eq, List.length_take_sort]
    exact (Nat.min_le_left _ _).trans_lt (by decide)

theorem mem_of_mem_prune {g : LoopGuard} {now : UInt64} {e : GuardEntry}
    (h : e ∈ (g.prune now).seen.rows) : e ∈ g.seen.rows := by
  obtain ⟨-, ⟨-, hrows⟩ | ⟨-, hperm⟩⟩ := g.prune_cases now
  · rw [hrows] at h
    exact (mem_young.1 h).1
  · exact (mem_young.1 (List.mem_of_mem_take_sort _ (hperm.mem_iff.1 h))).1

/-- **An entry within the window** is dropped only for half a cap of entries that are no older. -/
theorem crowded_of_pruned {g : LoopGuard} {now : UInt64} {e : GuardEntry} (he : e ∈ g.seen.rows)
    (hyoung : saturatingSub now e.atMs ≤ g.windowMs) (hdrop : e ∉ (g.prune now).seen.rows) :
    maxEntries / 2 ≤ (g.prune now).seen.rows.countP (since e.atMs) := by
  have hmem : e ∈ g.young now := mem_young.2 ⟨he, hyoung⟩
  obtain ⟨-, ⟨-, hrows⟩ | ⟨hcap, hperm⟩⟩ := g.prune_cases now
  · rw [hrows] at hdrop
    exact absurd hmem hdrop
  · have hlast := (List.mem_take_or_drop_sort Newer hmem).resolve_left
      fun h => hdrop (hperm.mem_iff.2 h)
    have hall : ∀ e' ∈ ((g.young now).insertionSort Newer).take (maxEntries / 2),
        since e.atMs e' = true :=
      fun e' he' => decide_eq_true (List.rel_of_take_drop Newer he' hlast)
    rw [hperm.countP_eq, List.countP_eq_length.2 hall, List.length_take_sort]
    exact (Nat.min_eq_left ((Nat.div_le_self _ _).trans hcap)).ge

/-- **A crowd within the window** stays one. -/
theorem crowded_prune {g : LoopGuard} {now atMs : UInt64}
    (hyoung : saturatingSub now atMs ≤ g.windowMs)
    (h : maxEntries / 2 ≤ g.seen.rows.countP (since atMs)) :
    maxEntries / 2 ≤ (g.prune now).seen.rows.countP (since atMs) := by
  have hstay : g.seen.rows.countP (since atMs) = (g.young now).countP (since atMs) := by
    rw [young, List.countP_filter]
    refine List.countP_congr fun e _ => ?_
    rw [Bool.and_eq_true, Bool.not_eq_true', decide_eq_false_iff_not, UInt64.not_lt]
    refine ⟨fun hs => ⟨hs, ?_⟩, And.left⟩
    exact UInt64.le_trans (saturatingSub_le (of_decide_eq_true hs)) hyoung
  rw [hstay] at h
  obtain ⟨-, ⟨-, hrows⟩ | ⟨-, hperm⟩⟩ := g.prune_cases now
  · rw [hrows]
    exact h
  · rw [hperm.countP_eq, List.countP_take_sort Newer since_of_newer h]

/-- The record goes to the end of what `prune` left, in the place of one with its hash. -/
theorem rows_recordReceived (g : LoopGuard) (hash : ContentHash) (origin : DeviceId)
    (now : UInt64) :
    (g.recordReceived hash origin now).seen.rows =
      (g.prune now).seen.rows.filter (fun e => !decide (e.hash = hash)) ++
        [⟨hash, origin, now⟩] := by
  rw [recordReceived]
  cases hi : ((g.prune now).seen.erase (·.hash = hash)).insert? ⟨hash, origin, now⟩ with
  | none =>
    obtain ⟨e, he, hhash⟩ := Table.insert?_eq_none.1 hi
    simp [hhash] at he
  | some t => exact (Table.insert?_eq_some.1 hi).2

/-- A new record takes the place of at most one, so a crowd of records before it stays. -/
theorem countP_recordReceived {g : LoopGuard} {hash : ContentHash} {origin : DeviceId}
    {now atMs : UInt64} (h : atMs ≤ now) :
    (g.prune now).seen.rows.countP (since atMs) ≤
      (g.recordReceived hash origin now).seen.rows.countP (since atMs) := by
  have hone : ((g.prune now).seen.rows.filter (·.hash = hash)).countP (since atMs) ≤ 1 := by
    calc ((g.prune now).seen.rows.filter (·.hash = hash)).countP (since atMs)
        ≤ ((g.prune now).seen.rows.filter (·.hash = hash)).length := List.countP_le_length
      _ = ((g.prune now).seen.rows.map (·.hash)).count hash := by
          rw [← List.countP_eq_length_filter, List.count, List.countP_map]
          exact List.countP_congr fun e _ => by simp
      _ ≤ 1 := List.nodup_iff_count_le_one.1 (g.prune now).seen.nodup hash
  have hnew : [(⟨hash, origin, now⟩ : GuardEntry)].countP (since atMs) = 1 := by
    rw [List.countP_singleton, if_pos (show since atMs _ = true from decide_eq_true h)]
  rw [rows_recordReceived, List.countP_append, hnew,
    List.countP_eq_countP_filter_add _ _ (fun e => decide (e.hash = hash))]
  omega

/-! ## Runs -/

/-- The record of a hash that was made last. -/
def latest (hash : ContentHash) (records : List GuardEntry) : Option GuardEntry :=
  records.reverse.find? (·.hash = hash)

theorem latest_append (hash : ContentHash) (records : List GuardEntry) (e : GuardEntry) :
    latest hash (records ++ [e]) = if e.hash = hash then some e else latest hash records := by
  rw [latest, List.reverse_append, List.reverse_singleton, List.singleton_append, List.find?_cons]
  by_cases h : e.hash = hash
  · rw [if_pos h, decide_eq_true h]
  · rw [if_neg h, decide_eq_false h, latest]

theorem hash_of_latest {hash : ContentHash} {records : List GuardEntry} {e : GuardEntry}
    (h : latest hash records = some e) : e ∈ records ∧ e.hash = hash :=
  ⟨List.mem_reverse.1 (List.mem_of_find?_eq_some h),
    by simpa using List.find?_some h⟩

/-- The same entries in another order of the map. -/
def Reordered (g g' : LoopGuard) : Prop :=
  g'.windowMs = g.windowMs ∧ g'.seen.rows.Perm g.seen.rows

/-- The guards after a run of `record_received` calls, oldest first, by a clock that never goes
back. The map can give its entries to each call in any order. -/
inductive Recorded (windowMs : UInt64) : List GuardEntry → LoopGuard → Prop
  | new : Recorded windowMs [] (.new windowMs)
  | record {records : List GuardEntry} {g g' : LoopGuard} (hash : ContentHash) (origin : DeviceId)
      (now : UInt64) (hrun : Recorded windowMs records g) (hclock : ∀ e ∈ records, e.atMs ≤ now)
      (horder : g.Reordered g') :
      Recorded windowMs (records ++ [⟨hash, origin, now⟩]) (g'.recordReceived hash origin now)

/-- What a guard remembers of a run. -/
structure Remembers (g : LoopGuard) (records : List GuardEntry) : Prop where
  bounded : g.seen.rows.length ≤ maxEntries
  current : ∀ e ∈ g.seen.rows, latest e.hash records = some e
  newest : ∀ e, records.getLast? = some e → e ∈ g.seen.rows
  crowded : ∀ now, (∀ e ∈ records, e.atMs ≤ now) → ∀ e,
    latest e.hash records = some e → saturatingSub now e.atMs ≤ g.windowMs →
      e ∉ g.seen.rows → maxEntries / 2 ≤ g.seen.rows.countP (since e.atMs)

theorem Remembers.new (windowMs : UInt64) : (new windowMs).Remembers [] where
  bounded := Nat.zero_le _
  current e he := absurd he List.not_mem_nil
  newest e he := by cases he
  crowded now _ e he := by cases he

theorem Remembers.reorder {g g' : LoopGuard} {records : List GuardEntry} (h : g.Remembers records)
    (horder : g.Reordered g') : g'.Remembers records := by
  obtain ⟨hwindow, hperm⟩ := horder
  refine ⟨hperm.length_eq ▸ h.bounded, fun e he => h.current e (hperm.mem_iff.1 he),
    fun e he => hperm.mem_iff.2 (h.newest e he), fun now hnow e he hyoung hout => ?_⟩
  rw [hperm.countP_eq]
  exact h.crowded now hnow e he (hwindow ▸ hyoung) fun hin => hout (hperm.mem_iff.2 hin)

/-- **One record.** -/
theorem Remembers.record {g : LoopGuard} {records : List GuardEntry} (h : g.Remembers records)
    {hash : ContentHash} {origin : DeviceId} {now : UInt64} (hclock : ∀ e ∈ records, e.atMs ≤ now) :
    (g.recordReceived hash origin now).Remembers (records ++ [⟨hash, origin, now⟩]) := by
  have hrows := g.rows_recordReceived hash origin now
  have hlength := g.length_prune now
  have hwindow : (g.recordReceived hash origin now).windowMs = g.windowMs := (g.prune_cases now).1
  refine ⟨?_, fun e he => ?_, fun e he => ?_, fun later hlater e he hyoung hout => ?_⟩
  · rw [hrows, List.length_append, List.length_singleton]
    have hle := List.length_filter_le (fun e => !decide (e.hash = hash)) (g.prune now).seen.rows
    omega
  · rw [hrows, List.mem_append, List.mem_singleton, List.mem_filter] at he
    rw [latest_append]
    rcases he with ⟨he, hne⟩ | rfl
    · have hne : e.hash ≠ hash := by simpa using hne
      rw [if_neg hne.symm]
      exact h.current e (mem_of_mem_prune he)
    · exact if_pos rfl
  · rw [List.getLast?_concat] at he
    obtain rfl := Option.some.inj he
    rw [hrows]
    exact List.mem_append_right _ (List.mem_singleton_self _)
  · rw [latest_append] at he
    split at he
    · -- the hash has just been recorded
      obtain rfl := Option.some.inj he
      rw [hrows] at hout
      exact absurd (List.mem_append_right _ (List.mem_singleton_self _)) hout
    · rename_i hne
      have hle : now ≤ later := hlater _ (List.mem_append_right _ (List.mem_singleton_self _))
      have hyoung : saturatingSub now e.atMs ≤ g.windowMs :=
        UInt64.le_trans (saturatingSub_mono hle _) (hwindow ▸ hyoung)
      refine le_trans ?_ (countP_recordReceived (hclock e (hash_of_latest he).1))
      by_cases hin : e ∈ g.seen.rows
      · refine crowded_of_pruned hin hyoung fun hkept => hout ?_
        rw [hrows]
        exact List.mem_append_left _ (List.mem_filter.2 ⟨hkept, by simpa using Ne.symm hne⟩)
      · exact crowded_prune hyoung (h.crowded now hclock e he hyoung hin)

/-- **Every run.** -/
theorem Recorded.remembers {windowMs : UInt64} {records : List GuardEntry} {g : LoopGuard}
    (h : Recorded windowMs records g) : g.windowMs = windowMs ∧ g.Remembers records := by
  induction h with
  | new => exact ⟨rfl, .new windowMs⟩
  | record hash origin now _ hclock horder ih =>
    refine ⟨?_, (ih.2.reorder horder).record hclock⟩
    exact (prune_cases _ now).1.trans (horder.1.trans ih.1)

/-- What is remembered of a hash is its latest record. -/
theorem Remembers.find?_eq_some {g : LoopGuard} {records : List GuardEntry}
    (h : g.Remembers records) {hash : ContentHash} {e : GuardEntry} :
    g.seen.find? hash = some e ↔
      (g.seen.find? hash).isSome ∧ latest hash records = some e := by
  constructor
  · intro he
    obtain ⟨hrow, rfl⟩ := Table.find?_eq_some.1 he
    exact ⟨by rw [he]; rfl, h.current e hrow⟩
  · rintro ⟨hsome, he⟩
    obtain ⟨e', he'⟩ := Option.isSome_iff_exists.1 hsome
    obtain ⟨hrow, rfl⟩ := Table.find?_eq_some.1 he'
    rw [he', ← h.current e' hrow, he]

/-- **The memory of the loop guard**, after any run of records. It is bounded, it has the newest
record, and what it has forgotten within the window it has forgotten for half a cap of records that
are no older. A verdict is about the latest record of the hash, as long as it is remembered. -/
theorem guard_memory (windowMs : UInt64) (records : List GuardEntry) (g : LoopGuard)
    (hrun : Recorded windowMs records g) :
    g.seen.rows.length ≤ 4096 ∧
    (∀ e, records.getLast? = some e → (g.seen.find? e.hash).isSome) ∧
    ∀ now, (∀ e ∈ records, e.atMs ≤ now) → ∀ hash,
      (∀ e, latest hash records = some e → saturatingSub now e.atMs ≤ windowMs →
        g.seen.find? hash = none →
        2048 ≤ g.seen.rows.countP (fun e' => e'.hash ≠ hash ∧ e.atMs ≤ e'.atMs)) ∧
      ∀ peer,
        (g.verdict hash peer now = .send ↔ g.seen.find? hash = none ∨
          ∃ e, latest hash records = some e ∧ windowMs < saturatingSub now e.atMs) ∧
        (g.verdict hash peer now = .suppressOrigin ↔ (g.seen.find? hash).isSome ∧
          ∃ e, latest hash records = some e ∧ saturatingSub now e.atMs ≤ windowMs ∧
            e.origin = peer) ∧
        (g.verdict hash peer now = .suppressEcho ↔ (g.seen.find? hash).isSome ∧
          ∃ e, latest hash records = some e ∧ saturatingSub now e.atMs ≤ windowMs ∧
            e.origin ≠ peer) := by
  obtain ⟨rfl, hmem⟩ := hrun.remembers
  refine ⟨hmem.bounded, fun e he => ?_, fun now hnow hash => ⟨fun e he hyoung hout => ?_,
    fun peer => ?_⟩⟩
  · exact Table.find?_isSome.2 ⟨e, hmem.newest e he, rfl⟩
  · obtain ⟨-, rfl⟩ := hash_of_latest he
    have hne := Table.find?_eq_none.1 hout
    refine (hmem.crowded now hnow e he hyoung fun hin => hne e hin rfl).trans ?_
    refine List.countP_mono_left fun e' he' hs => ?_
    exact decide_eq_true ⟨hne e' he', of_decide_eq_true hs⟩
  · cases hf : g.seen.find? hash with
    | none => simp [verdict, hf]
    | some e =>
      obtain ⟨-, hlatest⟩ := hmem.find?_eq_some.1 hf
      by_cases hold : g.windowMs < saturatingSub now e.atMs
      · simp [verdict, hf, hold, hlatest, UInt64.not_le.2 hold]
      · by_cases ho : e.origin = peer
        · simp [verdict, hf, hold, hlatest, ho, UInt64.not_lt.1 hold]
        · simp [verdict, hf, hold, hlatest, ho, UInt64.not_lt.1 hold]

/-- The guard after these records, with the entries of the map in the order of its table. -/
def after (windowMs : UInt64) (records : List GuardEntry) : LoopGuard :=
  records.foldl (fun g e => g.recordReceived e.hash e.origin e.atMs) (new windowMs)

theorem recorded_after (windowMs : UInt64) {records : List GuardEntry}
    (h : records.Pairwise fun a b => a.atMs ≤ b.atMs) :
    Recorded windowMs records (after windowMs records) := by
  induction records using List.reverseRecOn with
  | nil => exact .new
  | append_singleton records e ih =>
    obtain ⟨hbefore, -, hlast⟩ := List.pairwise_append.1 h
    rw [after, List.foldl_append]
    exact .record _ _ _ (ih hbefore) (fun e' he => hlast e' he e (List.mem_singleton_self e))
      ⟨rfl, .refl _⟩

/-- Three hashes, the first of them received again from another device. The second has aged out when
the third is recorded; the first is guarded to the end of the window after its second record. -/
theorem guard_memory_again :
    ∃ g, Recorded 30000 [⟨hiDigest, .repeated 1, 0⟩, ⟨bigDigest, .repeated 2, 10000⟩,
        ⟨hiDigest, .repeated 2, 20000⟩, ⟨hiHash, .repeated 1, 45000⟩] g ∧
      g.seen.find? bigDigest = none ∧
      g.verdict bigDigest (.repeated 2) 45000 = .send ∧
      g.verdict hiDigest (.repeated 2) 50000 = .suppressOrigin ∧
      g.verdict hiDigest (.repeated 1) 50000 = .suppressEcho ∧
      g.verdict hiDigest (.repeated 2) 50001 = .send ∧
      g.verdict hiHash (.repeated 1) 50001 = .suppressOrigin := by
  let records : List GuardEntry := [⟨hiDigest, .repeated 1, 0⟩, ⟨bigDigest, .repeated 2, 10000⟩,
    ⟨hiDigest, .repeated 2, 20000⟩, ⟨hiHash, .repeated 1, 45000⟩]
  have hrun : Recorded 30000 records (after 30000 records) := recorded_after 30000 (by decide)
  obtain ⟨-, hnewest, hverdict⟩ := guard_memory 30000 records _ hrun
  have hgone : (after 30000 records).seen.find? bigDigest = none := by decide
  have hhi : ((after 30000 records).seen.find? hiDigest).isSome := by decide
  have hlatest : latest hiDigest records = some ⟨hiDigest, .repeated 2, 20000⟩ := by decide
  have hnew : latest hiHash records = some ⟨hiHash, .repeated 1, 45000⟩ := by decide
  have hknown := hnewest ⟨hiHash, .repeated 1, 45000⟩ (by decide)
  have hclock : ∀ now ∈ ([45000, 50000, 50001] : List UInt64), ∀ e ∈ records, e.atMs ≤ now := by
    simp only [records, List.forall_mem_cons, List.not_mem_nil, false_implies, implies_true,
      and_true]
    decide
  refine ⟨_, hrun, hgone, ?_, ?_, ?_, ?_, ?_⟩
  · exact ((hverdict 45000 (hclock _ (by decide)) bigDigest).2 _).1.2 (.inl hgone)
  · exact ((hverdict 50000 (hclock _ (by decide)) hiDigest).2 _).2.1.2
      ⟨hhi, _, hlatest, by decide, rfl⟩
  · exact ((hverdict 50000 (hclock _ (by decide)) hiDigest).2 _).2.2.2
      ⟨hhi, _, hlatest, by decide, by decide⟩
  · exact ((hverdict 50001 (hclock _ (by decide)) hiDigest).2 _).1.2
      (.inr ⟨_, hlatest, by decide⟩)
  · exact ((hverdict 50001 (hclock _ (by decide)) hiHash).2 _).2.1.2
      ⟨hknown, _, hnew, by decide, rfl⟩

end Clipse.LoopGuard
