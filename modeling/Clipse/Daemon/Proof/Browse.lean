import Clipse.Daemon.Peers
import Clipse.Net.Proof.Dial
import Clipse.Net.Proof.Sweep

/-!
# The working address under discovery

A session notes its address as seen on the LAN; discovery then reports others. A sweep keeps the
address as long as it leaves fewer than six in front of it (`CandidateList.rivals`), and an address
that is lost does not come back.
-/

namespace Clipse

namespace PeerState

/-- The sweeps that find the peer, each with its addresses and its time. -/
def browse (s : PeerState) (sweeps : List (List SocketAddr × UInt64)) : PeerState :=
  sweeps.foldl (fun s sweep => s.refresh sweep.1 sweep.2) s

/-- At no sweep does the address have six rivals. -/
def Uncrowded (s : PeerState) (addr : SocketAddr) : List (List SocketAddr × UInt64) → Prop
  | [] => True
  | sweep :: sweeps =>
    s.candidates.rivals addr sweep.1 sweep.2 < maxLanCandidates ∧
      (s.refresh sweep.1 sweep.2).Uncrowded addr sweeps

/-- An address that is lost stays lost. -/
theorem not_has_browse {s : PeerState} {addr : SocketAddr}
    {sweeps : List (List SocketAddr × UInt64)} (hout : ∀ sweep ∈ sweeps, addr ∉ sweep.1)
    (h : ¬ s.candidates.Has addr) : ¬ (s.browse sweeps).candidates.Has addr := by
  induction sweeps generalizing s with
  | nil => exact h
  | cons sweep sweeps ih =>
    obtain ⟨hout, hrest⟩ := List.forall_mem_cons.1 hout
    exact ih hrest (CandidateList.not_has_refreshLan hout h)

/-- **Every run** of sweeps that do not report a LAN address of the list. -/
theorem has_browse_iff {s : PeerState} {w : Candidate} {sweeps : List (List SocketAddr × UInt64)}
    (hw : w ∈ s.candidates.candidates.rows) (hlan : w.reachability = .lan)
    (hout : ∀ sweep ∈ sweeps, w.addr ∉ sweep.1) :
    (s.browse sweeps).candidates.Has w.addr ↔ s.Uncrowded w.addr sweeps := by
  induction sweeps generalizing s with
  | nil => exact iff_of_true ⟨w, hw, rfl⟩ trivial
  | cons sweep sweeps ih =>
    obtain ⟨hout, hrest⟩ := List.forall_mem_cons.1 hout
    rw [Uncrowded]
    by_cases hr : s.candidates.rivals w.addr sweep.1 sweep.2 < maxLanCandidates
    · have hstay : w.reported sweep.1 sweep.2 = w := if_neg hout
      have hkept : w ∈ (s.refresh sweep.1 sweep.2).candidates.candidates.rows := by
        have hmem := (CandidateList.mem_refreshLan_iff hw (hstay.symm ▸ hlan)).2 hr
        rwa [hstay] at hmem
      rw [and_iff_right hr]
      exact ih hkept hrest
    · rw [iff_false_intro (not_and_of_not_left _ hr)]
      have hlost := mt (CandidateList.has_refreshLan_iff hw).1 fun h => hr (h (.inl hlan))
      exact iff_false_intro (@not_has_browse (s.refresh sweep.1 sweep.2) _ _ hrest hlost)

/-- The address of a session is in the list, on the LAN. -/
theorem mem_noteSuccess (s : PeerState) (addr : SocketAddr) (reachability : Reachability)
    (now now' : UInt64) :
    ∃ w ∈ (s.noteSuccess addr reachability now now').candidates.candidates.rows,
      w.addr = addr ∧ w.reachability = .lan := by
  obtain ⟨w, hw, hfound, hlan, -⟩ :=
    @CandidateList.fresh_upsert s.candidates [addr] now' addr (List.mem_singleton_self addr)
  exact ⟨w, hw, List.mem_singleton.1 hfound, hlan⟩

/-- **The working address** survives sweeps that do not report it exactly as long as none of them
leaves six other LAN addresses in front of it. -/
theorem working_address_kept_iff (s : PeerState) (addr : SocketAddr) (reachability : Reachability)
    (now now' : UInt64) (sweeps : List (List SocketAddr × UInt64))
    (hout : ∀ sweep ∈ sweeps, addr ∉ sweep.1) :
    ((s.noteSuccess addr reachability now now').browse sweeps).candidates.Has addr ↔
      (s.noteSuccess addr reachability now now').Uncrowded addr sweeps := by
  obtain ⟨w, hw, rfl, hlan⟩ := s.mem_noteSuccess addr reachability now now'
  exact has_browse_iff hw hlan hout

/-- Four addresses of another interface do no harm. -/
theorem working_address_kept_four :
    (((new .default_).noteSuccess (onLan 9) .lan 1000 1000).browse
      [([onLan 200, onLan 201, onLan 202, onLan 203], 2000)]).candidates.Has (onLan 9) :=
  (working_address_kept_iff (new .default_) (onLan 9) .lan 1000 1000 _ (by decide)).2
    ⟨by decide, trivial⟩

/-- Six are enough to lose the address that works. -/
theorem working_address_not_kept :
    ¬ ∀ (s : PeerState) (addr : SocketAddr) (reachability : Reachability) (now now' : UInt64)
      (sweeps : List (List SocketAddr × UInt64)), (∀ sweep ∈ sweeps, addr ∉ sweep.1) →
        ((s.noteSuccess addr reachability now now').browse sweeps).candidates.Has addr := by
  intro h
  obtain ⟨c, hc, ha⟩ := h (new .default_) (onLan 9) .lan 1000 1000
    [([onLan 200, onLan 201, onLan 202, onLan 203, onLan 204, onLan 205], 2000)] (by decide)
  have hlost : ∀ c ∈ (((new .default_).noteSuccess (onLan 9) .lan 1000 1000).browse
      [([onLan 200, onLan 201, onLan 202, onLan 203, onLan 204, onLan 205],
        2000)]).candidates.candidates.rows, c.addr ≠ onLan 9 := by decide
  exact hlost c hc ha

end PeerState
end Clipse
