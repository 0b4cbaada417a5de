import Clipse.Daemon.Peers
import Clipse.Lib.Stepwise
import Clipse.Net.Proof.Sweep
import Mathlib.Data.Finset.Card

/-!
# The routes to a peer (`clipsed/src/peers.rs`)

Sessions, sweeps and pairing rewrite one list of candidates. All of them add to its LAN group
(`lan_foldl_upsert`); only a sweep drops an address, one that has six others of the LAN in front
of it (`has_refreshLan_iff`).

* `routes_survive_iff`: the runs in which a tailnet address stays what it is, and the LAN group
  within its limit.
-/

namespace Clipse

/-- The addresses in the LAN group. -/
def lanAddrs (candidates : List Candidate) : Finset SocketAddr :=
  ((candidates.filter (·.reachability = .lan)).map Candidate.addr).toFinset

theorem mem_lanAddrs {candidates : List Candidate} {addr : SocketAddr} :
    addr ∈ lanAddrs candidates ↔ ∃ c ∈ candidates, c.reachability = .lan ∧ c.addr = addr := by
  simp [lanAddrs, and_assoc]

namespace CandidateList

variable {l : CandidateList} {c : Candidate} {addr : SocketAddr}

def lan (l : CandidateList) : Finset SocketAddr := lanAddrs l.candidates.rows

/-- How many entries the LAN group has. -/
def lanCount (l : CandidateList) : Nat := l.candidates.rows.countP (·.reachability = .lan)

theorem card_lan (l : CandidateList) : l.lan.card = l.lanCount := by
  have hnodup : ((l.candidates.rows.filter (·.reachability = .lan)).map Candidate.addr).Nodup :=
    l.candidates.nodup.sublist (List.filter_sublist.map _)
  rw [lan, lanAddrs, List.toFinset_card_of_nodup hnodup, List.length_map, lanCount,
    List.countP_eq_length_filter]

/-- **What `upsert` does to the LAN group.** -/
theorem lan_upsert (l : CandidateList) (c : Candidate) :
    (l.upsert c).lan = l.lan ∪ lanAddrs [c] := by
  ext addr
  simp only [lan, Finset.mem_union, mem_lanAddrs, List.mem_singleton, exists_eq_left]
  rcases rows_upsert l c with ⟨-, hr⟩ | ⟨⟨e₀, he₀, ha₀⟩, hr⟩ <;> rw [hr]
  · simp [or_and_right, exists_or]
  · constructor
    · rintro ⟨e', he', hlan, rfl⟩
      obtain ⟨e, he, rfl⟩ := List.mem_map.1 he'
      split at hlan
      · next hea =>
        rw [if_pos hea]
        rcases Candidate.reachability_absorb_iff.1 hlan with hlan | hlan
        · exact .inl ⟨e, he, hlan, rfl⟩
        · exact .inr ⟨hlan, hea.symm⟩
      · next hea =>
        rw [if_neg hea]
        exact .inl ⟨e, he, hlan, rfl⟩
    · rintro (⟨e, he, hlan, rfl⟩ | ⟨hc, rfl⟩)
      · refine ⟨_, List.mem_map_of_mem he, ?_, ?_⟩
        · split
          · exact Candidate.reachability_absorb_iff.2 (.inl hlan)
          · exact hlan
        · split <;> rfl
      · refine ⟨_, List.mem_map_of_mem he₀, ?_, ?_⟩
        · rw [if_pos ha₀]
          exact Candidate.reachability_absorb_iff.2 (.inr hc)
        · rw [if_pos ha₀]
          exact ha₀

theorem lanAddrs_cons (c : Candidate) (cs : List Candidate) :
    lanAddrs (c :: cs) = lanAddrs [c] ∪ lanAddrs cs := by
  ext addr
  simp [mem_lanAddrs]

theorem lan_foldl_upsert (l : CandidateList) (cs : List Candidate) :
    (cs.foldl upsert l).lan = l.lan ∪ lanAddrs cs := by
  induction cs generalizing l with
  | nil =>
    rw [List.foldl_nil]
    exact (Finset.union_empty _).symm
  | cons c cs ih => rw [List.foldl_cons, ih, lan_upsert, lanAddrs_cons c cs, Finset.union_assoc]

/-! ## Sweeps -/

theorem sighted_eq (l : CandidateList) (found : List SocketAddr) (now : UInt64) :
    l.sighted found now =
      (found.map fun addr => (Candidate.lan addr).seenAt now).foldl upsert l := by
  rw [sighted, List.foldl_map]

theorem lan_sighted (l : CandidateList) (found : List SocketAddr) (now : UInt64) :
    (l.sighted found now).lan = l.lan ∪ found.toFinset := by
  have hfound : lanAddrs (found.map fun addr => (Candidate.lan addr).seenAt now) =
      found.toFinset := by
    ext addr
    simp [mem_lanAddrs, Candidate.lan, Candidate.seenAt]
  rw [sighted_eq, lan_foldl_upsert, hfound]

/-- The group of a known address. -/
theorem mem_lan_iff (hc : c ∈ l.candidates.rows) : c.addr ∈ l.lan ↔ c.reachability = .lan := by
  rw [lan, mem_lanAddrs]
  constructor
  · rintro ⟨c', hc', hlan, ha⟩
    rwa [← eq_of_addr_eq hc' hc ha]
  · exact fun hlan => ⟨c, hc, hlan, rfl⟩

theorem lan_pruneLan_subset (l : CandidateList) : l.pruneLan.lan ⊆ l.lan := by
  intro addr h
  obtain ⟨c, hc, hlan, ha⟩ := mem_lanAddrs.1 h
  exact mem_lanAddrs.2 ⟨c, (mem_pruneLan.1 hc).1, hlan, ha⟩

end CandidateList

/-! ## Operations -/

/-- What rewrites the list of one peer. -/
inductive RouteOp where
  /-- `note_success`. -/
  | noteSuccess (addr : SocketAddr) (reachability : Reachability) (now now' : UInt64)
  /-- The peer is found in `refresh_from_discovery`. -/
  | refresh (found : List SocketAddr) (now : UInt64)
  /-- `reload_from_trust`, with what pairing recorded. -/
  | reload (addresses : List CandidateAddress)

/-- A peer, and what discovery has reported of it. -/
structure Sighted where
  peer : PeerState
  reported : List SocketAddr

namespace Sighted

def list (s : Sighted) : CandidateList := s.peer.candidates

def step (s : Sighted) : RouteOp → Sighted
  | .noteSuccess addr reachability now now' =>
    { s with peer := s.peer.noteSuccess addr reachability now now' }
  | .refresh found now => { peer := s.peer.refresh found now, reported := s.reported ++ found }
  | .reload addresses => { s with peer := s.peer.reload (candidatesOf addresses) }

/-- The route is known: in the tailnet group, unless discovery has reported it. The LAN group is
within its limit. -/
structure Knows (s : Sighted) (route : SocketAddr) : Prop where
  known : ∃ c ∈ s.list.candidates.rows,
    c.addr = route ∧ (c.reachability = .tailnet ∨ route ∈ s.reported)
  limit : s.list.lanCount ≤ maxLanCandidates

/-- The LAN addresses that pairing recorded. -/
def recordedLan (addresses : List CandidateAddress) : Finset SocketAddr :=
  (addresses.filterMap fun
    | .lan addr => some addr
    | .tailnet _ => none).toFinset

/-- What an operation may do.

* A session or a record does not put the route in the LAN group, unless discovery has.
* The LAN addresses of the list, with the one of the session or those of the record, are within the
  limit.
* A sweep leaves fewer than six LAN addresses in front of the route, if it is or becomes one. -/
def Harmless (route : SocketAddr) (s : Sighted) : RouteOp → Prop
  | .noteSuccess addr _ _ _ =>
    (addr = route → route ∈ s.reported) ∧ (insert addr s.list.lan).card ≤ maxLanCandidates
  | .refresh found now =>
    route ∈ s.list.lan ∨ route ∈ found → s.list.rivals route found now < maxLanCandidates
  | .reload addresses =>
    (route ∈ recordedLan addresses → route ∈ s.reported) ∧
      (s.list.lan ∪ recordedLan addresses).card ≤ maxLanCandidates

instance (route : SocketAddr) (s : Sighted) : (op : RouteOp) → Decidable (s.Harmless route op)
  | .noteSuccess addr _ _ _ =>
    inferInstanceAs (Decidable ((addr = route → _) ∧ (insert addr s.list.lan).card ≤ _))
  | .refresh found now =>
    inferInstanceAs (Decidable (route ∈ s.list.lan ∨ route ∈ found →
      s.list.rivals route found now < maxLanCandidates))
  | .reload addresses =>
    inferInstanceAs (Decidable ((route ∈ recordedLan addresses → _) ∧
      (s.list.lan ∪ recordedLan addresses).card ≤ _))

variable {s : Sighted} {route : SocketAddr}

/-- What is left to see of an operation, in terms of the two groups. -/
theorem knows_iff : s.Knows route ↔ (s.list.Has route ∧ (route ∈ s.list.lan → route ∈ s.reported)) ∧
    s.list.lan.card ≤ maxLanCandidates := by
  rw [CandidateList.card_lan]
  constructor
  · rintro ⟨⟨c, hc, rfl, hgroup⟩, hlimit⟩
    refine ⟨⟨⟨c, hc, rfl⟩, fun hlan => ?_⟩, hlimit⟩
    rw [(CandidateList.mem_lan_iff hc).1 hlan] at hgroup
    exact hgroup.resolve_left nofun
  · rintro ⟨⟨⟨c, hc, rfl⟩, hlan⟩, hlimit⟩
    refine ⟨⟨c, hc, rfl, ?_⟩, hlimit⟩
    cases hreach : c.reachability with
    | tailnet => exact .inl rfl
    | lan => exact .inr (hlan ((CandidateList.mem_lan_iff hc).2 hreach))

theorem lan_candidatesOf (addresses : List CandidateAddress) :
    (candidatesOf addresses).lan = recordedLan addresses := by
  have hempty : CandidateList.default_.lan = ∅ := rfl
  rw [candidatesOf, CandidateList.new, CandidateList.lan_foldl_upsert, hempty, Finset.empty_union]
  ext addr
  simp only [mem_lanAddrs, recordedLan, List.mem_toFinset, List.mem_filterMap, List.mem_map]
  constructor
  · rintro ⟨_, ⟨a, ha, rfl⟩, hlan, rfl⟩
    cases a with
    | lan addr => exact ⟨_, ha, rfl⟩
    | tailnet addr => cases hlan
  · rintro ⟨a, ha, he⟩
    cases a with
    | lan addr =>
      cases he
      exact ⟨_, ⟨_, ha, rfl⟩, rfl, rfl⟩
    | tailnet addr => cases he

/-- **One operation**: it leaves the route known and the limit kept exactly if it is harmless. -/
theorem knows_step_iff (hhas : s.list.Has route) (hlan : route ∈ s.list.lan → route ∈ s.reported)
    (op : RouteOp) : (s.step op).Knows route ↔ s.Harmless route op := by
  rw [knows_iff]
  cases op with
  | noteSuccess addr reachability now now' =>
    have hgroup : (s.step (.noteSuccess addr reachability now now')).list.lan =
        insert addr s.list.lan := by
      refine (CandidateList.lan_upsert _ _).trans ?_
      rw [Finset.union_comm, ← Finset.singleton_union]
      rfl
    have hkept : (s.step (.noteSuccess addr reachability now now')).list.Has route :=
      CandidateList.has_upsert.2 (.inl hhas)
    rw [hgroup]
    refine and_congr_left' ⟨fun h he => h.2 (he ▸ Finset.mem_insert_self _ _), fun h => ⟨hkept, ?_⟩⟩
    intro hm
    rcases Finset.mem_insert.1 hm with he | hm
    · exact h he.symm
    · exact hlan hm
  | refresh found now =>
    have hlist : (s.step (.refresh found now)).list = (s.list.sighted found now).pruneLan := rfl
    have hlimit : (s.list.sighted found now).pruneLan.lanCount ≤ maxLanCandidates :=
      CandidateList.countP_pruneLan _
    have hkept : (s.step (.refresh found now)).list.Has route ↔
        s.Harmless route (.refresh found now) := by
      obtain ⟨w, hw, rfl⟩ := hhas
      rw [Harmless, CandidateList.mem_lan_iff hw]
      exact CandidateList.has_refreshLan_iff hw
    have hreported : route ∈ (s.step (.refresh found now)).list.lan →
        route ∈ (s.step (.refresh found now)).reported := by
      rw [hlist]
      intro hm
      have hm := CandidateList.lan_pruneLan_subset _ hm
      rw [CandidateList.lan_sighted, Finset.mem_union, List.mem_toFinset] at hm
      exact List.mem_append.2 (hm.imp_left hlan)
    rw [and_iff_left hreported, hkept, hlist, CandidateList.card_lan, and_iff_left hlimit]
  | reload addresses =>
    have hgroup : (s.step (.reload addresses)).list.lan = s.list.lan ∪ recordedLan addresses := by
      rw [← lan_candidatesOf]
      exact CandidateList.lan_foldl_upsert _ _
    have hkept : (s.step (.reload addresses)).list.Has route :=
      CandidateList.has_foldl_upsert hhas
    rw [hgroup]
    refine and_congr_left' ⟨fun h he => h.2 (Finset.mem_union_right _ he), fun h => ⟨hkept, ?_⟩⟩
    intro hm
    exact (Finset.mem_union.1 hm).elim hlan h

/-- **The routes survive** every operation of a run exactly if every operation is harmless. -/
theorem routes_survive_iff {peer : PeerState} {ops : List RouteOp}
    (h : ∃ c ∈ peer.candidates.candidates.rows, c.addr = route ∧ c.reachability = .tailnet) :
    Stepwise step (fun s op => (s.step op).Knows route) { peer, reported := [] } ops ↔
      Stepwise step (Harmless route) { peer, reported := [] } ops := by
  refine stepwise_congr
    (I := fun s => s.list.Has route ∧ (route ∈ s.list.lan → route ∈ s.reported))
    (fun s op _ hk => (knows_iff.1 hk).1) (fun s op hs => knows_step_iff hs.1 hs.2 op) ?_
  obtain ⟨c, hc, rfl, hreach⟩ := h
  refine ⟨⟨c, hc, rfl⟩, fun hlan => ?_⟩
  rw [(CandidateList.mem_lan_iff hc).1 hlan] at hreach
  cases hreach

/-! ## Worked runs -/

/-- The peer's address on the tailnet. -/
def wayHome : SocketAddr := .v4 #v[100, 64, 0, 7] 7420

/-- An address on the LAN. -/
def atHome (n : UInt8) : SocketAddr := .onHomeLan n 7420

/-- A peer that was paired with an address of each kind. -/
def paired : PeerState := .new (candidatesOf [.lan (atHome 1), .tailnet wayHome])

theorem wayHome_paired : ∃ c ∈ paired.candidates.candidates.rows,
    c.addr = wayHome ∧ c.reachability = .tailnet := by decide

/-- A session over the tailnet, and then a sweep at home that finds six addresses: the way home is
lost. -/
theorem not_routes_survive :
    ¬ ∀ (peer : PeerState) (ops : List RouteOp) (route : SocketAddr),
      (∃ c ∈ peer.candidates.candidates.rows, c.addr = route ∧ c.reachability = .tailnet) →
      Stepwise step (fun s op => (s.step op).Knows route) { peer, reported := [] } ops := by
  intro h
  obtain ⟨-, ⟨⟨c, hc, ha, -⟩, -⟩, -⟩ := h paired [.noteSuccess wayHome .tailnet 1 1,
    .refresh [atHome 1, atHome 2, atHome 3, atHome 4, atHome 5, atHome 6] 2] wayHome wayHome_paired
  revert c
  decide +kernel

/-- A session at home, a sweep that finds the peer there under six addresses, a sweep that reports
the way home as well, and what pairing recorded once more. -/
theorem routes_survive_at_home :
    Stepwise step (fun s op => (s.step op).Knows wayHome) { peer := paired, reported := [] }
      [.noteSuccess (atHome 1) .lan 1 1,
        .refresh [atHome 1, atHome 2, atHome 3, atHome 4, atHome 5, atHome 6] 2,
        .refresh [wayHome, atHome 7] 3, .reload [.lan (atHome 1), .tailnet wayHome]] :=
  (routes_survive_iff wayHome_paired).2
    ⟨by decide +kernel, by decide +kernel, by decide +kernel, by decide +kernel, trivial⟩

end Sighted
end Clipse
