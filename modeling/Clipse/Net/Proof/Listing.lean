import Clipse.Lib.Foremost
import Clipse.Net.Proof.Candidate

/-!
# The candidate list over a whole history

`Keeps l l'`: `l'` has every address of `l`, seen no earlier and no farther away. `upsert` keeps a
list so (`keeps_upsert`); `refresh_lan` does up to its pruning (`keeps_sighted`), and pruning drops
from the LAN group what was seen first (`seen_le_of_pruned`).
-/

namespace Clipse.CandidateList

variable {l l' l'' : CandidateList} {c : Candidate}

/-- The entry of an address is the only one. -/
theorem eq_of_addr_eq {e e' : Candidate} (he : e ∈ l.candidates.rows)
    (he' : e' ∈ l.candidates.rows) (h : e.addr = e'.addr) : e = e' :=
  l.candidates.eq_of_key_eq he he' h

/-! ## What stays known of an address -/

/-- Every address of `l` is in `l'`, seen no earlier, and on the LAN if it was. -/
def Keeps (l l' : CandidateList) : Prop :=
  ∀ e ∈ l.candidates.rows, ∃ e' ∈ l'.candidates.rows, e'.addr = e.addr ∧ e.seen ≤ e'.seen ∧
    (e.reachability = .lan → e'.reachability = .lan)

theorem Keeps.refl (l : CandidateList) : l.Keeps l :=
  fun e he => ⟨e, he, rfl, Nat.le_refl _, id⟩

theorem Keeps.trans (h : l.Keeps l') (h' : l'.Keeps l'') : l.Keeps l'' := by
  intro e he
  obtain ⟨e', he', haddr, hseen, hlan⟩ := h e he
  obtain ⟨e'', he'', haddr', hseen', hlan'⟩ := h' e' he'
  exact ⟨e'', he'', haddr'.trans haddr, hseen.trans hseen', fun h => hlan' (hlan h)⟩

theorem keeps_upsert (l : CandidateList) (c : Candidate) : l.Keeps (l.upsert c) := by
  intro e he
  rcases rows_upsert l c with ⟨-, hr⟩ | ⟨-, hr⟩ <;> rw [hr]
  · exact ⟨e, List.mem_append_left _ he, rfl, Nat.le_refl _, id⟩
  · refine ⟨_, List.mem_map_of_mem he, ?_⟩
    split
    · refine ⟨rfl, ?_, fun h => Candidate.reachability_absorb_iff.2 (.inl h)⟩
      rw [Candidate.seen_absorb]
      exact Nat.le_max_left _ _
    · exact ⟨rfl, Nat.le_refl _, id⟩

theorem keeps_sighted (l : CandidateList) (discovered : List SocketAddr) (now : UInt64) :
    l.Keeps (l.sighted discovered now) := by
  induction discovered generalizing l with
  | nil => exact .refl l
  | cons addr discovered ih => exact (keeps_upsert l _).trans (ih _)

/-- What is known of an address that both lists have. -/
theorem Keeps.of_mem (h : l.Keeps l') {e e' : Candidate} (he : e ∈ l.candidates.rows)
    (he' : e' ∈ l'.candidates.rows) (haddr : e'.addr = e.addr) :
    e.seen ≤ e'.seen ∧ (e.reachability = .lan → e'.reachability = .lan) := by
  obtain ⟨e'', he'', haddr', hkept⟩ := h e he
  rw [eq_of_addr_eq he' he'' (haddr.trans haddr'.symm)]
  exact hkept

theorem Keeps.of_refreshLan {discovered : List SocketAddr} {now : UInt64} {e e' : Candidate}
    (he : e ∈ l.candidates.rows) (he' : e' ∈ (l.refreshLan discovered now).candidates.rows)
    (haddr : e'.addr = e.addr) :
    e.seen ≤ e'.seen ∧ (e.reachability = .lan → e'.reachability = .lan) :=
  (keeps_sighted l discovered now).of_mem he (mem_pruneLan.1 he').1 haddr

/-- `set_tailnet` leaves the addresses of the LAN. -/
theorem lan_setTailnet {addr : Option SocketAddr} {now : UInt64} {e e' : Candidate}
    (he : e ∈ l.candidates.rows) (hlan : e.reachability = .lan)
    (he' : e' ∈ (l.setTailnet addr now).candidates.rows) (haddr : e'.addr = e.addr) :
    e'.reachability = .lan := by
  have hmem : e ∈ (l.candidates.erase (·.reachability = .tailnet)).rows := by
    simp [he, hlan]
  cases addr with
  | none =>
    have heq := l.eq_of_addr_eq (List.mem_of_mem_filter he') he haddr
    rw [heq, hlan]
  | some addr =>
    exact ((keeps_upsert ⟨l.candidates.erase (·.reachability = .tailnet)⟩ _).of_mem hmem he'
      haddr).2 hlan

/-- An address that is not reported stays as it is, up to pruning. -/
theorem mem_sighted {discovered : List SocketAddr} {now : UInt64} {e : Candidate}
    (he : e ∈ l.candidates.rows) (hout : e.addr ∉ discovered) :
    e ∈ (l.sighted discovered now).candidates.rows := by
  induction discovered generalizing l with
  | nil => exact he
  | cons addr discovered ih =>
    rw [List.mem_cons, not_or] at hout
    refine ih ?_ hout.2
    rcases rows_upsert l ((Candidate.lan addr).seenAt now) with ⟨-, hr⟩ | ⟨-, hr⟩ <;> rw [hr]
    · exact List.mem_append_left _ he
    · exact List.mem_map.2 ⟨e, he, if_neg hout.1⟩

/-! ## Pruning -/

/-- What was seen later comes first. -/
def Later (a b : Candidate) : Prop := b.seen ≤ a.seen

instance : DecidableRel Later := fun a b => inferInstanceAs (Decidable (b.seen ≤ a.seen))

instance : Std.Total Later := ⟨fun a b => Nat.le_total b.seen a.seen⟩

instance : IsTrans Candidate Later := ⟨fun _ _ _ h h' => Nat.le_trans h' h⟩

/-- Of the LAN, the six that come first are left. -/
theorem mem_pruneLan_lan : c ∈ l.pruneLan.candidates.rows ∧ c.reachability = .lan ↔
    c ∈ l.byAge.take maxLanCandidates := by
  rw [mem_pruneLan]
  constructor
  · rintro ⟨⟨hrow, hkeep⟩, hlan⟩
    have hmem : c ∈ l.candidates.rows.filter (·.reachability = .lan) :=
      List.mem_filter.2 ⟨hrow, decide_eq_true hlan⟩
    exact (List.mem_take_or_drop_sort Later hmem).resolve_right hkeep
  · intro hc
    obtain ⟨hrow, hlan⟩ := mem_byAge.1 (List.mem_of_mem_take hc)
    refine ⟨⟨hrow, fun hd => ?_⟩, hlan⟩
    have hnodup := l.nodup_byAge
    rw [← List.take_append_drop maxLanCandidates l.byAge, List.nodup_append] at hnodup
    exact hnodup.2.2 c hc c hd rfl

theorem countP_pruneLan (l : CandidateList) :
    l.pruneLan.candidates.rows.countP (·.reachability = .lan) ≤ maxLanCandidates := by
  have hnodup : (l.pruneLan.candidates.rows.filter (·.reachability = .lan)).Nodup :=
    l.pruneLan.candidates.nodup.of_map.filter _
  have hsub : l.pruneLan.candidates.rows.filter (·.reachability = .lan) ⊆
      l.byAge.take maxLanCandidates := by
    intro e he
    obtain ⟨hrow, hlan⟩ := List.mem_filter.1 he
    exact mem_pruneLan_lan.1 ⟨hrow, of_decide_eq_true hlan⟩
  rw [List.countP_eq_length_filter]
  exact (List.subperm_of_subset hnodup hsub).length_le.trans (List.length_take_le _ _)

/-- **What is dropped was seen no later** than what is kept. -/
theorem seen_le_of_pruned {e k : Candidate} (he : e ∈ l.candidates.rows)
    (hlan : e.reachability = .lan) (hdrop : e ∉ l.pruneLan.candidates.rows)
    (hk : k ∈ l.pruneLan.candidates.rows) (hklan : k.reachability = .lan) : e.seen ≤ k.seen := by
  have hmem : e ∈ l.candidates.rows.filter (·.reachability = .lan) :=
    List.mem_filter.2 ⟨he, decide_eq_true hlan⟩
  have hlast : e ∈ l.byAge.drop maxLanCandidates :=
    (List.mem_take_or_drop_sort Later hmem).resolve_left
      fun ht => hdrop (mem_pruneLan_lan.2 ht).1
  exact List.rel_of_take_drop Later (mem_pruneLan_lan.1 ⟨hk, hklan⟩) hlast

theorem mem_pruneLan_of_tailnet {e : Candidate} (he : e ∈ l.candidates.rows)
    (htail : e.reachability = .tailnet) : e ∈ l.pruneLan.candidates.rows := by
  refine mem_pruneLan.2 ⟨he, fun hd => ?_⟩
  have hlan := (mem_byAge.1 (List.mem_of_mem_drop hd)).2
  rw [htail] at hlan
  cases hlan

/-! ## The dialling order -/

instance : Std.Total Candidate.before := ⟨fun a b => by
  unfold Candidate.before
  omega⟩

instance : IsTrans Candidate Candidate.before := ⟨fun a b c h h' => by
  unfold Candidate.before at *
  omega⟩

theorem pairwise_dialOrder (l : CandidateList) : l.dialOrder.Pairwise Candidate.before :=
  List.pairwise_insertionSort _ _

/-- The LAN comes first, then the tailnet, and each as it was seen last. -/
theorem dialOrder_groups (l : CandidateList) :
    ∃ near far, l.dialOrder = near ++ far ∧ (∀ c ∈ near, c.reachability = .lan) ∧
      (∀ c ∈ far, c.reachability = .tailnet) ∧ near.Pairwise Later ∧ far.Pairwise Later := by
  have hgroups : ∀ cs : List Candidate, cs.Pairwise Candidate.before →
      ∃ near far, cs = near ++ far ∧ (∀ c ∈ near, c.reachability = .lan) ∧
        (∀ c ∈ far, c.reachability = .tailnet) ∧ near.Pairwise Later ∧ far.Pairwise Later := by
    intro cs
    induction cs with
    | nil => exact fun _ => ⟨[], [], rfl, by simp, by simp, .nil, .nil⟩
    | cons c cs ih =>
      intro h
      obtain ⟨hc, hcs⟩ := List.pairwise_cons.1 h
      obtain ⟨near, far, rfl, hnear, hfar, hn, hf⟩ := ih hcs
      cases hr : c.reachability with
      | lan =>
        refine ⟨c :: near, far, rfl, List.forall_mem_cons.2 ⟨hr, hnear⟩, hfar, ?_, hf⟩
        refine List.pairwise_cons.2 ⟨fun d hd => ?_, hn⟩
        have hbefore := hc d (List.mem_append_left _ hd)
        rw [Candidate.before, hr, hnear d hd] at hbefore
        exact (hbefore.resolve_left (Nat.lt_irrefl _)).2
      | tailnet =>
        -- nothing of the LAN comes after an address of the tailnet
        have hnone : near = [] := by
          cases near with
          | nil => rfl
          | cons d near =>
            have hbefore := hc d List.mem_cons_self
            rw [Candidate.before, hr, hnear d List.mem_cons_self] at hbefore
            revert hbefore
            simp [Reachability.rank]
        subst hnone
        refine ⟨[], c :: far, rfl, by simp, List.forall_mem_cons.2 ⟨hr, hfar⟩, .nil, ?_⟩
        refine List.pairwise_cons.2 ⟨fun d hd => ?_, hf⟩
        have hbefore := hc d hd
        rw [Candidate.before, hr, hfar d hd] at hbefore
        exact (hbefore.resolve_left (Nat.lt_irrefl _)).2
  exact hgroups _ l.pairwise_dialOrder

/-! ## Histories -/

/-- An operation on the list. -/
inductive Op where
  | upsert (c : Candidate)
  | refreshLan (discovered : List SocketAddr) (nowMs : UInt64)
  | setTailnet (addr : Option SocketAddr) (nowMs : UInt64)

def apply (l : CandidateList) : Op → CandidateList
  | .upsert c => l.upsert c
  | .refreshLan discovered nowMs => l.refreshLan discovered nowMs
  | .setTailnet addr nowMs => l.setTailnet addr nowMs

/-- What holds of a list, and of what the next operation makes of it. `sighted` is the list of a
sweep before it prunes. -/
structure Listed (l : CandidateList) : Prop where
  /-- Each address is there once. -/
  once : (l.candidates.rows.map Candidate.addr).Nodup
  /-- No sighting is forgotten. -/
  upsert_seen : ∀ c, ∀ e ∈ l.candidates.rows, ∀ e' ∈ (l.upsert c).candidates.rows,
    e'.addr = e.addr → e.seen ≤ e'.seen
  refresh_seen : ∀ discovered now, ∀ e ∈ l.candidates.rows,
    ∀ e' ∈ (l.refreshLan discovered now).candidates.rows, e'.addr = e.addr → e.seen ≤ e'.seen
  /-- Nothing moves from the LAN to the tailnet. -/
  lan : ∀ op, ∀ e ∈ l.candidates.rows, e.reachability = .lan →
    ∀ e' ∈ (l.apply op).candidates.rows, e'.addr = e.addr → e'.reachability = .lan
  /-- A sweep leaves six addresses of the LAN at most, those seen last. -/
  bounded : ∀ discovered now,
    (l.refreshLan discovered now).candidates.rows.countP (·.reachability = .lan) ≤ 6
  newest : ∀ discovered now, ∀ e ∈ (l.sighted discovered now).candidates.rows,
    e.reachability = .lan → e ∉ (l.refreshLan discovered now).candidates.rows →
      ∀ k ∈ (l.refreshLan discovered now).candidates.rows, k.reachability = .lan →
        e.seen ≤ k.seen
  /-- It leaves whatever of the tailnet it did not report. -/
  tailnet : ∀ discovered now, ∀ e ∈ l.candidates.rows, e.reachability = .tailnet →
    e.addr ∉ discovered → e ∈ (l.refreshLan discovered now).candidates.rows
  /-- Dialling goes through the whole list, the LAN first, and of each group what was seen last. -/
  dial_perm : l.dialOrder.Perm l.candidates.rows
  dial_order : ∃ near far, l.dialOrder = near ++ far ∧ (∀ c ∈ near, c.reachability = .lan) ∧
    (∀ c ∈ far, c.reachability = .tailnet) ∧
    near.Pairwise (fun a b => b.seen ≤ a.seen) ∧ far.Pairwise (fun a b => b.seen ≤ a.seen)

/-- **The candidate list**, after any history. -/
theorem listed_of_history (candidates : List Candidate) (ops : List Op) :
    (ops.foldl apply (.new candidates)).Listed where
  once := Table.nodup _
  upsert_seen c e he e' he' haddr := ((keeps_upsert _ c).of_mem he he' haddr).1
  refresh_seen discovered now e he e' he' haddr := (Keeps.of_refreshLan he he' haddr).1
  lan op e he hlan e' he' haddr := by
    cases op with
    | upsert c => exact ((keeps_upsert _ c).of_mem he he' haddr).2 hlan
    | refreshLan discovered now => exact (Keeps.of_refreshLan he he' haddr).2 hlan
    | setTailnet addr now => exact lan_setTailnet he hlan he' haddr
  bounded discovered now := countP_pruneLan _
  newest discovered now e he hlan hdrop k hk hklan := seen_le_of_pruned he hlan hdrop hk hklan
  tailnet discovered now e he htail hout := mem_pruneLan_of_tailnet (mem_sighted he hout) htail
  dial_perm := List.perm_insertionSort _ _
  dial_order := dialOrder_groups _

end Clipse.CandidateList
