import Clipse.Net.Proof.Listing
import Mathlib.Data.List.Dedup
import Mathlib.Data.List.Induction

/-!
# What a sweep leaves of one address (`clipse-net/src/candidate.rs`)

`rivals` counts the LAN addresses that a sweep leaves in front of an address: those seen later than
the sweep leaves it seen, and of those seen at the same time the ones that stand before it. The sweep
keeps an address of the LAN as long as there are fewer than six, and every address that it leaves on
the tailnet (`has_refreshLan_iff`).
-/

namespace Clipse

namespace Candidate

/-- What a sweep at `now` makes of an entry that it may report. -/
def reported (discovered : List SocketAddr) (now : UInt64) (e : Candidate) : Candidate :=
  if e.addr ∈ discovered then e.absorb ((Candidate.lan e.addr).seenAt now) else e

@[simp] theorem addr_reported (discovered : List SocketAddr) (now : UInt64) (e : Candidate) :
    (e.reported discovered now).addr = e.addr := by
  rw [reported]
  split <;> rfl

theorem seen_reported (discovered : List SocketAddr) (now : UInt64) (e : Candidate) :
    (e.reported discovered now).seen =
      if e.addr ∈ discovered then max e.seen (now.toNat + 1) else e.seen := by
  rw [reported]
  split
  · rw [seen_absorb]
    rfl
  · rfl

/-- An address is on the LAN if it was, or is reported there. -/
theorem reachability_reported_iff {discovered : List SocketAddr} {now : UInt64} {e : Candidate} :
    (e.reported discovered now).reachability = .lan ↔
      e.reachability = .lan ∨ e.addr ∈ discovered := by
  rw [reported]
  split
  next h => exact iff_of_true (reachability_absorb_iff.2 (.inr rfl)) (.inr h)
  next h => exact (or_iff_left h).symm

theorem absorb_of_seen_le {e c : Candidate} (hseen : c.seen ≤ e.seen)
    (hreach : e.reachability = .lan) : e.absorb c = e := by
  rw [absorb, if_neg (Nat.not_lt.2 hseen), hreach]
  cases e
  cases c.reachability <;> simp_all [Reachability.min, Reachability.rank]

theorem absorb_absorb (e : Candidate) (addr : SocketAddr) (now : UInt64) :
    (e.absorb ((Candidate.lan addr).seenAt now)).absorb ((Candidate.lan addr).seenAt now) =
      e.absorb ((Candidate.lan addr).seenAt now) := by
  refine absorb_of_seen_le ?_ (reachability_absorb_iff.2 (.inr rfl))
  rw [seen_absorb]
  exact Nat.le_max_right _ _

/-- One more address reported. -/
theorem reported_append (discovered : List SocketAddr) (addr : SocketAddr) (now : UInt64)
    (e : Candidate) :
    e.reported (discovered ++ [addr]) now =
      if e.addr = addr then
        (e.reported discovered now).absorb ((Candidate.lan addr).seenAt now)
      else e.reported discovered now := by
  unfold reported
  by_cases ha : e.addr = addr
  · rw [if_pos ha, if_pos (List.mem_append_right _ (List.mem_singleton.2 ha)), ha]
    split
    · exact (absorb_absorb e addr now).symm
    · rfl
  · rw [if_neg ha]
    refine if_congr ?_ rfl rfl
    rw [List.mem_append, List.mem_singleton, or_iff_left ha]

end Candidate

namespace CandidateList

variable {l : CandidateList} {w : Candidate} {discovered : List SocketAddr} {now : UInt64}

/-- **The list of a sweep** before it prunes: what was known, in its place, then what is new. -/
theorem rows_sighted (l : CandidateList) (discovered : List SocketAddr) (now : UInt64) :
    ∃ fresh : List SocketAddr,
      (l.sighted discovered now).candidates.rows =
        l.candidates.rows.map (Candidate.reported discovered now) ++
          fresh.map (fun addr => (Candidate.lan addr).seenAt now) ∧
      ∀ addr, addr ∈ fresh ↔ addr ∈ discovered ∧ ¬ l.Has addr := by
  induction discovered using List.reverseRecOn with
  | nil =>
    refine ⟨[], ?_, fun addr => by simp⟩
    rw [List.map_nil, List.append_nil]
    exact (List.map_id _).symm
  | append_singleton discovered addr ih =>
    obtain ⟨fresh, hrows, hfresh⟩ := ih
    have hstep : l.sighted (discovered ++ [addr]) now =
        (l.sighted discovered now).upsert ((Candidate.lan addr).seenAt now) := by
      rw [sighted, List.foldl_append]
      rfl
    have hhas : ∀ a, (l.sighted discovered now).Has a ↔ l.Has a ∨ a ∈ fresh := by
      intro a
      simp [Has, hrows, or_and_right, exists_or, Candidate.lan, Candidate.seenAt]
    rcases rows_upsert (l.sighted discovered now) ((Candidate.lan addr).seenAt now) with
      ⟨hnew, hr⟩ | ⟨hknown, hr⟩
    · -- a new address
      refine ⟨fresh ++ [addr], ?_, fun a => ?_⟩
      · have hne : ∀ e ∈ l.candidates.rows, e.addr ≠ addr := by
          intro e he ha
          exact hnew ((hhas addr).2 (.inl ⟨e, he, ha⟩))
        rw [hstep, hr, hrows, List.append_assoc, List.map_append, List.map_singleton]
        congr 1
        refine List.map_congr_left fun e he => ?_
        rw [Candidate.reported_append, if_neg (hne e he)]
      · have hout : ¬ l.Has addr := fun h => hnew ((hhas addr).2 (.inl h))
        rw [List.mem_append, List.mem_append, List.mem_singleton, hfresh]
        constructor
        · rintro (⟨h, hn⟩ | rfl)
          · exact ⟨.inl h, hn⟩
          · exact ⟨.inr rfl, hout⟩
        · rintro ⟨h | rfl, hn⟩
          · exact .inl ⟨h, hn⟩
          · exact .inr rfl
    · -- a known one
      refine ⟨fresh, ?_, fun a => ?_⟩
      · rw [hstep, hr, hrows, List.map_append, List.map_map, List.map_map]
        congr 1
        · refine List.map_congr_left fun e _ => ?_
          rw [Function.comp_apply, Candidate.addr_reported, Candidate.reported_append]
          rfl
        · refine List.map_congr_left fun a _ => ?_
          rw [Function.comp_apply]
          split
          · exact Candidate.absorb_of_seen_le (Nat.le_refl _) rfl
          · rfl
      · rw [hfresh, List.mem_append, List.mem_singleton]
        constructor
        · exact fun h => ⟨.inl h.1, h.2⟩
        · rintro ⟨h | rfl, hn⟩
          · exact ⟨h, hn⟩
          · exact (hfresh a).1 (((hhas a).1 hknown).resolve_left hn)

/-- When an address was seen. -/
def seenOf (l : CandidateList) (addr : SocketAddr) : Nat :=
  ((l.candidates.find? addr).map Candidate.seen).getD 0

instance (l : CandidateList) (addr : SocketAddr) : Decidable (l.Has addr) :=
  inferInstanceAs (Decidable (∃ c ∈ l.candidates.rows, c.addr = addr))

/-- When a sweep leaves it seen. -/
def seenAfter (l : CandidateList) (addr : SocketAddr) (discovered : List SocketAddr)
    (now : UInt64) : Nat :=
  if addr ∈ discovered then max (l.seenOf addr) (now.toNat + 1) else l.seenOf addr

/-- The LAN addresses that a sweep leaves in front of `addr`: those in front of it in the list that
are then seen no earlier, and those behind it and the new ones that are then seen later. -/
def rivals (l : CandidateList) (addr : SocketAddr) (discovered : List SocketAddr) (now : UInt64) :
    Nat :=
  (l.candidates.rows.takeWhile (·.addr ≠ addr)).countP (fun e =>
      (e.reported discovered now).reachability = .lan ∧
        l.seenAfter addr discovered now ≤ (e.reported discovered now).seen) +
    (l.candidates.rows.dropWhile (·.addr ≠ addr)).countP (fun e =>
      (e.reported discovered now).reachability = .lan ∧
        l.seenAfter addr discovered now < (e.reported discovered now).seen) +
    (discovered.filter fun a => ¬ l.Has a).dedup.countP
      fun _ => l.seenAfter addr discovered now < now.toNat + 1

/-- The place of an address in the list. -/
theorem split_at (hw : w ∈ l.candidates.rows) :
    ∃ front back, l.candidates.rows = front ++ w :: back ∧
      l.candidates.rows.takeWhile (·.addr ≠ w.addr) = front ∧
      l.candidates.rows.dropWhile (·.addr ≠ w.addr) = w :: back := by
  obtain ⟨front, back, hrows⟩ := List.append_of_mem hw
  have hnodup := l.candidates.nodup
  rw [hrows, List.map_append, List.map_cons, List.nodup_append] at hnodup
  have hfront : ∀ e ∈ front, decide (e.addr ≠ w.addr) = true := fun e he =>
    decide_eq_true (hnodup.2.2 _ (List.mem_map_of_mem he) _ List.mem_cons_self)
  refine ⟨front, back, hrows, ?_, ?_⟩
  · rw [hrows, List.takeWhile_append_of_pos hfront, List.takeWhile_cons_of_neg (by simp),
      List.append_nil]
  · rw [hrows, List.dropWhile_append_of_pos hfront, List.dropWhile_cons_of_neg (by simp)]

theorem seenAfter_of_mem (hw : w ∈ l.candidates.rows) :
    l.seenAfter w.addr discovered now = (w.reported discovered now).seen := by
  have hseen : l.seenOf w.addr = w.seen := by
    rw [seenOf, Table.find?_of_mem hw]
    rfl
  rw [seenAfter, hseen, Candidate.seen_reported]

/-- The new addresses are those that are reported and not known. -/
theorem perm_fresh {fresh : List SocketAddr} (hnodup : fresh.Nodup)
    (h : ∀ addr, addr ∈ fresh ↔ addr ∈ discovered ∧ ¬ l.Has addr) :
    fresh.Perm (discovered.filter fun a => ¬ l.Has a).dedup := by
  refine (List.perm_ext_iff_of_nodup hnodup (List.nodup_dedup _)).2 fun a => ?_
  rw [h, List.mem_dedup, List.mem_filter, decide_eq_true_eq]

/-- **A sweep** keeps an address of the LAN that has fewer than six rivals. -/
theorem mem_refreshLan_iff (hw : w ∈ l.candidates.rows)
    (hlan : (w.reported discovered now).reachability = .lan) :
    w.reported discovered now ∈ (l.refreshLan discovered now).candidates.rows ↔
      l.rivals w.addr discovered now < maxLanCandidates := by
  obtain ⟨fresh, hrows, hfresh⟩ := l.rows_sighted discovered now
  obtain ⟨front, back, hsplit, htake, hdrop⟩ := split_at hw
  set w' := w.reported discovered now with hw'
  have hlist : (l.sighted discovered now).candidates.rows.filter (·.reachability = .lan) =
      (front.map (Candidate.reported discovered now)).filter (·.reachability = .lan) ++ w' ::
        ((back.map (Candidate.reported discovered now)).filter (·.reachability = .lan) ++
          fresh.map (fun addr => (Candidate.lan addr).seenAt now)) := by
    have hall : (fresh.map fun addr => (Candidate.lan addr).seenAt now).filter
        (·.reachability = .lan) = fresh.map fun addr => (Candidate.lan addr).seenAt now := by
      refine List.filter_eq_self.2 fun e he => ?_
      obtain ⟨a, -, rfl⟩ := List.mem_map.1 he
      rfl
    rw [hrows, hsplit, List.map_append, List.map_cons, ← hw', List.filter_append,
      List.filter_append, List.filter_cons_of_pos (by simpa using hlan), hall, List.append_assoc,
      List.cons_append]
  have hnodup : (l.sighted discovered now).candidates.rows.Nodup :=
    (l.sighted discovered now).candidates.nodup.of_map
  have hfreshNodup : fresh.Nodup := by
    rw [hrows] at hnodup
    exact (List.nodup_append.1 hnodup).2.1.of_map
  have hkept : w' ∈ (l.refreshLan discovered now).candidates.rows ↔
      w' ∈ (l.sighted discovered now).byAge.take maxLanCandidates := by
    rw [← mem_pruneLan_lan, and_iff_left hlan]
    rfl
  rw [hkept, byAge, hlist]
  refine (List.mem_take_sort_iff Later (hlist ▸ hnodup.filter _)).trans ?_
  rw [rivals, htake, hdrop, seenAfter_of_mem hw, ← hw', List.countP_cons_of_neg (by simp [← hw']),
    List.countP_append, List.countP_filter, List.countP_map, List.countP_filter, List.countP_map,
    List.countP_map, (perm_fresh hfreshNodup hfresh).countP_eq, Nat.add_assoc]
  refine Eq.to_iff (congrArg (· < maxLanCandidates) (congrArg₂ _ ?_ (congrArg₂ _ ?_ ?_)))
  · refine List.countP_congr fun e _ => ?_
    rw [Function.comp_apply, Bool.and_eq_true, decide_eq_true_iff, decide_eq_true_iff,
      decide_eq_true_iff, and_comm]
    rfl
  · refine List.countP_congr fun e _ => ?_
    rw [Function.comp_apply, Bool.and_eq_true, decide_eq_true_iff, decide_eq_true_iff,
      decide_eq_true_iff, and_comm, Later, Nat.not_le]
  · refine List.countP_congr fun a _ => ?_
    rw [Function.comp_apply, decide_eq_true_iff, decide_eq_true_iff, Later, Nat.not_le]
    rfl

theorem mem_sighted_of_mem (hw : w ∈ l.candidates.rows) :
    w.reported discovered now ∈ (l.sighted discovered now).candidates.rows := by
  obtain ⟨fresh, hrows, -⟩ := l.rows_sighted discovered now
  rw [hrows]
  exact List.mem_append_left _ (List.mem_map_of_mem hw)

/-- **A sweep** loses an address that is then on the LAN exactly to six rivals, and no other. -/
theorem has_refreshLan_iff (hw : w ∈ l.candidates.rows) :
    (l.refreshLan discovered now).Has w.addr ↔
      (w.reachability = .lan ∨ w.addr ∈ discovered →
        l.rivals w.addr discovered now < maxLanCandidates) := by
  have hmem : w.reported discovered now ∈ (l.sighted discovered now).candidates.rows :=
    mem_sighted_of_mem hw
  have hhas : (l.refreshLan discovered now).Has w.addr ↔
      w.reported discovered now ∈ (l.refreshLan discovered now).candidates.rows := by
    constructor
    · rintro ⟨e, he, ha⟩
      rw [← eq_of_addr_eq (mem_pruneLan.1 he).1 hmem (ha.trans (w.addr_reported ..).symm)]
      exact he
    · exact fun h => ⟨_, h, w.addr_reported ..⟩
  rw [hhas, ← Candidate.reachability_reported_iff]
  by_cases hlan : (w.reported discovered now).reachability = .lan
  · rw [mem_refreshLan_iff hw hlan]
    exact ⟨fun h _ => h, fun h => h hlan⟩
  · refine iff_of_true (mem_pruneLan_of_tailnet hmem ?_) fun h => absurd h hlan
    cases hr : (w.reported discovered now).reachability with
    | lan => exact absurd hr hlan
    | tailnet => rfl

theorem not_has_refreshLan {addr : SocketAddr} (hout : addr ∉ discovered) (h : ¬ l.Has addr) :
    ¬ (l.refreshLan discovered now).Has addr := by
  rintro ⟨e, he, rfl⟩
  obtain ⟨fresh, hrows, hfresh⟩ := l.rows_sighted discovered now
  have hmem := (mem_pruneLan.1 he).1
  rw [show (discovered.foldl _ l : CandidateList) = l.sighted discovered now from rfl, hrows,
    List.mem_append] at hmem
  rcases hmem with hmem | hmem
  · obtain ⟨e', he', rfl⟩ := List.mem_map.1 hmem
    exact h ⟨e', he', (Candidate.addr_reported ..).symm⟩
  · obtain ⟨a, ha, rfl⟩ := List.mem_map.1 hmem
    exact hout ((hfresh a).1 ha).1

end CandidateList

end Clipse
