import Clipse.Net.Candidate

/-!
# What stays in a list of candidates (`clipse-net/src/candidate.rs`)

`upsert` loses no address. `prune_lan` can lose what a sweep has just found, but only to six other
LAN addresses that were seen no earlier: `crowd` counts these, and as long as there are fewer, one
of the addresses that the sweep found is left (`exists_fresh_refreshLan`).
-/

namespace Clipse

namespace Candidate

/-- What `upsert` makes of an entry that has the address already. -/
def absorb (e c : Candidate) : Candidate :=
  { e with
    lastSeenMs := if e.seen < c.seen then c.lastSeenMs else e.lastSeenMs
    reachability := e.reachability.min c.reachability }

@[simp] theorem addr_absorb (e c : Candidate) : (e.absorb c).addr = e.addr := rfl

theorem seen_absorb (e c : Candidate) : (e.absorb c).seen = max e.seen c.seen := by
  unfold absorb
  by_cases h : e.seen < c.seen
  · rw [if_pos h, Nat.max_eq_right (Nat.le_of_lt h)]
    rfl
  · rw [if_neg h, Nat.max_eq_left (Nat.le_of_not_lt h)]
    rfl

theorem reachability_absorb_iff {e c : Candidate} :
    (e.absorb c).reachability = .lan ↔ e.reachability = .lan ∨ c.reachability = .lan := by
  change e.reachability.min c.reachability = .lan ↔ _
  cases e.reachability <;> cases c.reachability <;> decide

@[simp] theorem seen_seenAt (c : Candidate) (ms : UInt64) : (c.seenAt ms).seen = ms.toNat + 1 := rfl

/-- An address that a sweep at `now` found, as the sweep leaves it. -/
def Fresh (found : List SocketAddr) (now : UInt64) (c : Candidate) : Prop :=
  c.addr ∈ found ∧ c.reachability = .lan ∧ now.toNat < c.seen

/-- Another LAN address, seen no earlier than `now`. -/
def Crowds (found : List SocketAddr) (now : UInt64) (c : Candidate) : Prop :=
  c.addr ∉ found ∧ c.reachability = .lan ∧ now.toNat < c.seen

instance (found : List SocketAddr) (now : UInt64) (c : Candidate) :
    Decidable (c.Crowds found now) := inferInstanceAs (Decidable (_ ∧ _))

end Candidate

namespace CandidateList

variable {l : CandidateList} {c : Candidate} {found : List SocketAddr} {now : UInt64}

/-- The list has the address. -/
def Has (l : CandidateList) (addr : SocketAddr) : Prop := ∃ c ∈ l.candidates.rows, c.addr = addr

theorem has_upsert {addr : SocketAddr} : (l.upsert c).Has addr ↔ l.Has addr ∨ addr = c.addr := by
  have h := l.candidates.isSome_find?_upsert c (·.addr = c.addr) (·.absorb c) (fun _ => rfl) addr
  rw [Bool.eq_iff_iff, Table.find?_isSome, Bool.or_eq_true, Table.find?_isSome,
    decide_eq_true_eq] at h
  exact h

theorem has_foldl_upsert {addr : SocketAddr} {candidates : List Candidate} (h : l.Has addr) :
    (candidates.foldl upsert l).Has addr := by
  induction candidates generalizing l with
  | nil => exact h
  | cons c candidates ih => exact ih (has_upsert.2 (.inl h))

/-- A new address comes last, a known one is updated in its place. -/
theorem rows_upsert (l : CandidateList) (c : Candidate) :
    ¬ l.Has c.addr ∧ (l.upsert c).candidates.rows = l.candidates.rows ++ [c] ∨
      l.Has c.addr ∧
        (l.upsert c).candidates.rows =
          l.candidates.rows.map (fun e => if e.addr = c.addr then e.absorb c else e) := by
  unfold upsert
  cases h : l.candidates.insert? c with
  | some t =>
    obtain ⟨hne, hrows⟩ := Table.insert?_eq_some.1 h
    exact .inl ⟨fun hhas => (by obtain ⟨e, he, ha⟩ := hhas; exact hne e he ha), hrows⟩
  | none =>
    refine .inr ⟨Table.insert?_eq_none.1 h, ?_⟩
    simp only [Option.getD_none, Table.rows_modify, decide_eq_true_eq]
    rfl

theorem mem_dialOrder : c ∈ l.dialOrder ↔ c ∈ l.candidates.rows := List.mem_insertionSort _

/-- No address is dialled twice. -/
theorem nodup_dialOrder (l : CandidateList) : (l.dialOrder.map Candidate.addr).Nodup :=
  ((List.perm_insertionSort _ _).map _).nodup_iff.2 l.candidates.nodup

/-! ## Sightings -/

/-- How many LAN addresses other than those found were seen no earlier than `now`. -/
def crowd (l : CandidateList) (found : List SocketAddr) (now : UInt64) : Nat :=
  l.candidates.rows.countP (·.Crowds found now)

theorem crowd_upsert (h : c.addr ∈ found) : (l.upsert c).crowd found now = l.crowd found now := by
  unfold crowd
  rcases rows_upsert l c with ⟨-, hr⟩ | ⟨-, hr⟩ <;> rw [hr]
  · have hc : ¬ c.Crowds found now := fun hc => hc.1 h
    rw [List.countP_append, List.countP_singleton, if_neg (by simpa using hc), Nat.add_zero]
  · rw [List.countP_map]
    refine List.countP_congr fun e _ => ?_
    simp only [Function.comp_apply, decide_eq_true_eq]
    split
    next he =>
      have hfound : e.addr ∈ found := he ▸ h
      exact iff_of_false (fun hc => hc.1 hfound) fun hc => hc.1 hfound
    next => exact Iff.rfl

theorem fresh_upsert {addr : SocketAddr} (h : addr ∈ found) :
    ∃ e ∈ (l.upsert ((Candidate.lan addr).seenAt now)).candidates.rows, e.Fresh found now := by
  rcases rows_upsert l ((Candidate.lan addr).seenAt now) with ⟨-, hr⟩ | ⟨⟨e, he, ha⟩, hr⟩ <;> rw [hr]
  · exact ⟨_, List.mem_append_right _ (List.mem_singleton_self _), h, rfl, Nat.lt_succ_self _⟩
  · refine ⟨_, List.mem_map_of_mem he, ?_⟩
    rw [if_pos ha]
    refine ⟨ha ▸ h, Candidate.reachability_absorb_iff.2 (.inr rfl), ?_⟩
    rw [Candidate.seen_absorb, Candidate.seen_seenAt]
    omega

/-! ## Pruning -/

theorem mem_pruneLan : c ∈ l.pruneLan.candidates.rows ↔ c ∈ l.candidates.rows ∧ c ∉ l.doomed := by
  simp [pruneLan]

theorem crowd_pruneLan_le : l.pruneLan.crowd found now ≤ l.crowd found now := by
  unfold crowd pruneLan
  rw [Table.rows_erase]
  exact List.Sublist.countP_le List.filter_sublist

/-- The LAN addresses in the order of `prune_lan`. -/
def byAge (l : CandidateList) : List Candidate :=
  (l.candidates.rows.filter (·.reachability = .lan)).insertionSort (fun a b => b.seen ≤ a.seen)

theorem pairwise_byAge (l : CandidateList) : l.byAge.Pairwise (fun a b => b.seen ≤ a.seen) := by
  have htotal : Std.Total (fun a b : Candidate => b.seen ≤ a.seen) := ⟨fun a b => Nat.le_total _ _⟩
  have htrans : IsTrans Candidate (fun a b => b.seen ≤ a.seen) := ⟨fun a b c h h' => h'.trans h⟩
  exact List.pairwise_insertionSort _ _

theorem mem_byAge : c ∈ l.byAge ↔ c ∈ l.candidates.rows ∧ c.reachability = .lan := by
  simp [byAge, List.mem_insertionSort]

theorem nodup_byAge (l : CandidateList) : l.byAge.Nodup :=
  (List.perm_insertionSort _ _).nodup_iff.2 (l.candidates.nodup.of_map.filter _)

/-- Of the addresses found, the six seen last include one, if fewer than six others come before. -/
theorem fresh_pruneLan (hcrowd : l.crowd found now < maxLanCandidates)
    (h : ∃ e ∈ l.candidates.rows, e.Fresh found now) :
    ∃ e ∈ l.pruneLan.candidates.rows, e.Fresh found now := by
  by_contra hnone
  have hdoomed : ∀ e ∈ l.candidates.rows, e.Fresh found now → e ∈ l.doomed := by
    intro e he hf
    by_contra hd
    exact hnone ⟨e, mem_pruneLan.2 ⟨he, hd⟩, hf⟩
  obtain ⟨e, he, hfresh⟩ := h
  have hsplit : l.byAge.take maxLanCandidates ++ l.doomed = l.byAge := List.take_append_drop _ _
  have hsorted := l.pairwise_byAge
  have hnodup := l.nodup_byAge
  rw [← hsplit, List.pairwise_append] at hsorted
  rw [← hsplit, List.nodup_append] at hnodup
  -- the six that are kept were all seen after `e`, and none of them is one that was found
  have hcrowds : ∀ t ∈ l.byAge.take maxLanCandidates, t.Crowds found now := by
    intro t ht
    have hseen : e.seen ≤ t.seen := hsorted.2.2 t ht e (hdoomed e he hfresh)
    obtain ⟨hrow, hlan⟩ := mem_byAge.1 (List.mem_of_mem_take ht)
    have hlate : now.toNat < t.seen := hfresh.2.2.trans_le hseen
    refine ⟨fun hfound => ?_, hlan, hlate⟩
    exact hnodup.2.2 t ht t (hdoomed t hrow ⟨hfound, hlan, hlate⟩) rfl
  have hlength : (l.byAge.take maxLanCandidates).length = maxLanCandidates := by
    have hpos : 0 < l.doomed.length := List.length_pos_of_mem (hdoomed e he hfresh)
    rw [show l.doomed = l.byAge.drop maxLanCandidates from rfl, List.length_drop] at hpos
    rw [List.length_take]
    omega
  have hle : maxLanCandidates ≤ l.crowd found now := by
    calc maxLanCandidates
        = (l.byAge.take maxLanCandidates).countP (·.Crowds found now) := by
          rw [List.countP_eq_length.2 (by simpa using hcrowds), hlength]
      _ ≤ l.byAge.countP (·.Crowds found now) := (List.take_sublist _ _).countP_le
      _ = (l.candidates.rows.filter (·.reachability = .lan)).countP (·.Crowds found now) :=
          (List.perm_insertionSort _ _).countP_eq _
      _ ≤ l.crowd found now := List.filter_sublist.countP_le
  omega

/-- What a sweep does before it prunes. -/
def sighted (l : CandidateList) (discovered : List SocketAddr) (now : UInt64) : CandidateList :=
  discovered.foldl (fun l addr => l.upsert ((Candidate.lan addr).seenAt now)) l

theorem sighted_spec {discovered : List SocketAddr} (hsub : discovered ⊆ found)
    (h : discovered ≠ [] ∨ ∃ e ∈ l.candidates.rows, e.Fresh found now) :
    (l.sighted discovered now).crowd found now = l.crowd found now ∧
      ∃ e ∈ (l.sighted discovered now).candidates.rows, e.Fresh found now := by
  induction discovered generalizing l with
  | nil => exact ⟨rfl, h.resolve_left (· rfl)⟩
  | cons addr discovered ih =>
    obtain ⟨haddr, hsub⟩ := List.cons_subset.1 hsub
    obtain ⟨hc, hf⟩ := @ih (l.upsert ((Candidate.lan addr).seenAt now)) hsub
      (.inr (fresh_upsert haddr))
    exact ⟨hc.trans (crowd_upsert haddr), hf⟩

/-- Something of what a sweep finds is left. -/
theorem exists_fresh_refreshLan {discovered : List SocketAddr} (hsub : discovered ⊆ found)
    (hcrowd : l.crowd found now < maxLanCandidates)
    (h : discovered ≠ [] ∨ ∃ e ∈ l.candidates.rows, e.Fresh found now) :
    (l.refreshLan discovered now).crowd found now < maxLanCandidates ∧
      ∃ e ∈ (l.refreshLan discovered now).candidates.rows, e.Fresh found now := by
  obtain ⟨hc, hf⟩ := sighted_spec hsub h
  have hlt : (l.sighted discovered now).crowd found now < maxLanCandidates := hc ▸ hcrowd
  exact ⟨crowd_pruneLan_le.trans_lt hlt, fresh_pruneLan hlt hf⟩

end CandidateList

/-- A machine of the LAN that the worked runs take place in. -/
def SocketAddr.onHomeLan (b : UInt8) (port : UInt16) : SocketAddr := .v4 #v[192, 168, 1, b] port

end Clipse
