import Clipse.Core.Hlc
import Clipse.Lib.Stepwise

/-!
# The run of one clock

Any sequence of calls on one clock, with any readings of the physical clock and any timestamps from
peers.

* `stamp_lt_observe_iff`, `lt_observe_iff`: when an observation moves past the clock's last stamp,
  and when past the timestamp that it observes.
* `causal_iff`: a run does both at every call exactly if the counter never runs out.
* `within_drift`: no peer pushes the clock further ahead than the drift limit.
-/

namespace Clipse

/-- A call on the clock, with the reading of the physical clock that it takes. -/
inductive ClockCall where
  | now (physical : UInt64)
  | observe (physical : UInt64) (remote : Hlc)

def ClockCall.physical : ClockCall → UInt64
  | now physical | observe physical _ => physical

/-- The largest reading of the physical clock in a run. -/
def latest (calls : List ClockCall) : Nat :=
  (calls.map (·.physical.toNat)).foldr max 0

/-- The wall clock that a peer's timestamp counts with: one that is too far ahead does not count. -/
def clampedWall (physical : UInt64) (remote : Hlc) : UInt64 :=
  if saturatingAdd physical maxClockDriftMs < remote.wallMs then physical else remote.wallMs

/-- The peer's clock is not further ahead than we follow. -/
def InDrift (physical : UInt64) (remote : Hlc) : Prop :=
  remote.wallMs.toNat ≤ physical.toNat + maxClockDriftMs.toNat

/-! ## Saturation -/

theorem toNat_saturatingSucc (n : UInt32) :
    (saturatingSucc n).toNat = min (n.toNat + 1) 4294967295 := by
  have hn := n.toNat_lt
  unfold saturatingSucc
  split
  · next h => simp [h]
  · next h =>
    have hne : n.toNat ≠ 4294967295 := fun he => h (UInt32.toNat_inj.1 he)
    rw [UInt32.toNat_add]
    simp only [UInt32.reduceToNat]
    omega

theorem toNat_saturatingAdd (a b : UInt64) :
    (saturatingAdd a b).toNat = min (a.toNat + b.toNat) (2 ^ 64 - 1) := by
  have ha := a.toNat_lt
  have hb := b.toNat_lt
  unfold saturatingAdd
  split
  · next h =>
    rw [UInt64.lt_iff_toNat_lt, UInt64.toNat_add] at h
    simp only [UInt64.reduceToNat]
    omega
  · next h =>
    rw [UInt64.lt_iff_toNat_lt, UInt64.toNat_add] at h
    rw [UInt64.toNat_add]
    omega

theorem inDrift_iff {physical : UInt64} {remote : Hlc} :
    InDrift physical remote ↔ ¬ saturatingAdd physical maxClockDriftMs < remote.wallMs := by
  have hr := remote.wallMs.toNat_lt
  rw [InDrift, UInt64.lt_iff_toNat_lt, toNat_saturatingAdd]
  omega

theorem clampedWall_of_inDrift {physical : UInt64} {remote : Hlc} (h : InDrift physical remote) :
    clampedWall physical remote = remote.wallMs := by
  rw [clampedWall, if_neg (inDrift_iff.1 h)]

theorem toNat_clampedWall_le (physical : UInt64) (remote : Hlc) :
    (clampedWall physical remote).toNat ≤ physical.toNat + maxClockDriftMs.toNat := by
  by_cases h : InDrift physical remote
  · rw [clampedWall_of_inDrift h]
    exact h
  · rw [clampedWall, if_pos (not_not.1 (mt inDrift_iff.2 h))]
    omega

theorem toNat_max (a b : UInt64) :
    (max a b).toNat = if a.toNat ≤ b.toNat then b.toNat else a.toNat := by
  change (if a ≤ b then b else a).toNat = _
  simp only [UInt64.le_iff_toNat_le]
  split <;> rfl

theorem toNat_max32 (a b : UInt32) :
    (max a b).toNat = if a.toNat ≤ b.toNat then b.toNat else a.toNat := by
  change (if a ≤ b then b else a).toNat = _
  simp only [UInt32.le_iff_toNat_le]
  split <;> rfl

namespace HlcClock

variable {c : HlcClock} {p : UInt64} {r : Hlc}

/-- What a call returns, and the clock after it. -/
def call (c : HlcClock) : ClockCall → Hlc × HlcClock
  | .now physical => c.now physical
  | .observe physical remote => c.observe physical remote

/-- The clock after a call. -/
def advance (c : HlcClock) (a : ClockCall) : HlcClock := (c.call a).2

/-- The timestamps that a run returns. -/
def stamps : HlcClock → List ClockCall → List Hlc
  | _, [] => []
  | c, a :: calls => (c.call a).1 :: (c.advance a).stamps calls

/-! ## One call -/

theorem call_fst (c : HlcClock) (a : ClockCall) : (c.call a).1 = (c.advance a).stamp := by
  cases a <;> rfl

/-- The wall clock after an observation is the latest of the three. -/
theorem wallMs_observe (c : HlcClock) (p : UInt64) (r : Hlc) :
    c.wallMs.toNat ≤ (c.observe p r).2.wallMs.toNat ∧
      (clampedWall p r).toNat ≤ (c.observe p r).2.wallMs.toNat ∧
      p.toNat ≤ (c.observe p r).2.wallMs.toNat ∧
      ((c.observe p r).2.wallMs.toNat = c.wallMs.toNat ∨
        (c.observe p r).2.wallMs.toNat = (clampedWall p r).toNat ∨
        (c.observe p r).2.wallMs.toNat = p.toNat) := by
  have hwall : (c.observe p r).2.wallMs = max (max c.wallMs (clampedWall p r)) p := rfl
  rw [hwall, toNat_max, toNat_max]
  split_ifs <;> omega

/-- The counter after an observation, by whose wall clock is the latest. -/
theorem toNat_counter_observe (c : HlcClock) (p : UInt64) (r : Hlc) :
    (c.observe p r).2.counter.toNat =
      if (c.observe p r).2.wallMs.toNat = c.wallMs.toNat then
        if (c.observe p r).2.wallMs.toNat = (clampedWall p r).toNat then
          min ((max c.counter r.counter).toNat + 1) 4294967295
        else min (c.counter.toNat + 1) 4294967295
      else if (c.observe p r).2.wallMs.toNat = (clampedWall p r).toNat then
        min (r.counter.toNat + 1) 4294967295
      else 0 := by
  simp only [UInt64.toNat_inj, ← toNat_saturatingSucc]
  have hwall : (c.observe p r).2.wallMs = max (max c.wallMs (clampedWall p r)) p := rfl
  rw [hwall]
  unfold observe
  rw [← clampedWall]
  dsimp only
  split_ifs with h h' h'
  · rw [decide_eq_true h, decide_eq_true h']
  · rw [decide_eq_true h, decide_eq_false h']
  · rw [decide_eq_false h, decide_eq_true h']
  · rw [decide_eq_false h, decide_eq_false h']
    rfl

theorem lt_stamp_iff {h : Hlc} : h < c.stamp ↔
    h.wallMs.toNat < c.wallMs.toNat ∨ h.wallMs.toNat = c.wallMs.toNat ∧
      (h.counter.toNat < c.counter.toNat ∨
        h.counter.toNat = c.counter.toNat ∧ h.device < c.device) := by
  rw [Hlc.lt_iff, UInt64.lt_iff_toNat_lt, UInt32.lt_iff_toNat_lt, ← UInt64.toNat_inj,
    ← UInt32.toNat_inj]
  rfl

theorem ne_max_iff {n : UInt32} : n ≠ 0xFFFFFFFF ↔ n.toNat < 4294967295 := by
  have hn := n.toNat_lt
  rw [Ne, ← UInt32.toNat_inj]
  simp only [UInt32.reduceToNat]
  omega

/-- **Past the clock's last stamp**: unless the wall clock stands still and the counter has run
out. -/
theorem stamp_lt_observe_iff :
    c.stamp < (c.observe p r).2.stamp ↔
      c.wallMs < clampedWall p r ∨ c.wallMs < p ∨ c.counter ≠ 0xFFFFFFFF := by
  have hwall := wallMs_observe c p r
  have hcounter := toNat_counter_observe c p r
  have hmax := toNat_max32 c.counter r.counter
  have hn := c.counter.toNat_lt
  have hn' := r.counter.toNat_lt
  rw [lt_stamp_iff, UInt64.lt_iff_toNat_lt, UInt64.lt_iff_toNat_lt, ne_max_iff]
  change c.wallMs.toNat < _ ∨ c.wallMs.toNat = _ ∧
    (c.counter.toNat < _ ∨ c.counter.toNat = _ ∧ c.device < c.device) ↔ _
  simp only [lt_self_iff_false, and_false, or_false]
  split_ifs at hcounter hmax <;> omega

/-- **Past the timestamp that is observed**: unless no wall clock is ahead of it, its counter has run
out and its device comes last. -/
theorem lt_observe_iff (h : InDrift p r) :
    r < (c.observe p r).2.stamp ↔
      r.wallMs < c.wallMs ∨ r.wallMs < p ∨ r.counter ≠ 0xFFFFFFFF ∨ r.device < c.device := by
  have hwall := wallMs_observe c p r
  have hcounter := toNat_counter_observe c p r
  have hmax := toNat_max32 c.counter r.counter
  have hn := c.counter.toNat_lt
  have hn' := r.counter.toNat_lt
  rw [clampedWall_of_inDrift h] at hwall hcounter
  rw [lt_stamp_iff, UInt64.lt_iff_toNat_lt, UInt64.lt_iff_toNat_lt, ne_max_iff]
  change _ < _ ∨ _ = _ ∧ (_ < _ ∨ _ = _ ∧ r.device < c.device) ↔ _
  by_cases hd : r.device < c.device
  · simp only [hd, and_true, or_true, iff_true]
    split_ifs at hcounter hmax <;> omega
  · simp only [hd, and_false, or_false]
    split_ifs at hcounter hmax <;> omega

/-! ## A run -/

/-- A call that does not run out of counter: at the clock's own wall time its counter is not at its
end, and an observed counter at its end is behind us or loses the tie. -/
def Room (c : HlcClock) : ClockCall → Prop
  | .now p => c.wallMs < p ∨ c.counter ≠ 0xFFFFFFFF
  | .observe p r =>
    (c.wallMs < clampedWall p r ∨ c.wallMs < p ∨ c.counter ≠ 0xFFFFFFFF) ∧
      (InDrift p r →
        r.wallMs < c.wallMs ∨ r.wallMs < p ∨ r.counter ≠ 0xFFFFFFFF ∨ r.device < c.device)

/-- The stamps of a run are strictly increasing, and from the observation of a timestamp on they are
newer than it, if it was in drift. -/
structure Causal (c : HlcClock) (calls : List ClockCall) : Prop where
  increasing : (c.stamps calls).Pairwise (· < ·)
  after : ∀ before p r later, calls = before ++ .observe p r :: later → InDrift p r →
    ∀ h ∈ (before.foldl advance c).stamps (.observe p r :: later), r < h

theorem stamp_le_observe : c.stamp ≤ (c.observe p r).2.stamp := by
  have hwall := wallMs_observe c p r
  have hcounter := toNat_counter_observe c p r
  have hmax := toNat_max32 c.counter r.counter
  have hn := c.counter.toNat_lt
  rw [← not_lt, lt_stamp_iff]
  change ¬ ((c.observe p r).2.wallMs.toNat < _ ∨ (c.observe p r).2.wallMs.toNat = _ ∧
    ((c.observe p r).2.counter.toNat < _ ∨ (c.observe p r).2.counter.toNat = _ ∧
      c.device < c.device))
  simp only [lt_self_iff_false, and_false, or_false]
  split_ifs at hcounter hmax <;> omega

theorem stamp_le_advance (c : HlcClock) (a : ClockCall) : c.stamp ≤ (c.advance a).stamp := by
  cases a with
  | now p => exact stamp_le_now c p
  | observe p r => exact stamp_le_observe

theorem stamp_le_of_mem {calls : List ClockCall} {h : Hlc} (hm : h ∈ c.stamps calls) :
    c.stamp ≤ h := by
  induction calls generalizing c with
  | nil => cases hm
  | cons a calls ih =>
    rcases List.mem_cons.1 hm with rfl | hm
    · rw [call_fst]
      exact stamp_le_advance c a
    · exact (stamp_le_advance c a).trans (ih hm)

/-- Every call moves past the stamp before it exactly if the stamps increase from the clock's own
on. -/
theorem increasing_iff {calls : List ClockCall} :
    (c.stamp :: c.stamps calls).Pairwise (· < ·) ↔
      Stepwise advance (fun c a => c.stamp < (c.advance a).stamp) c calls := by
  induction calls generalizing c with
  | nil => exact iff_of_true (List.pairwise_singleton _ _) trivial
  | cons a calls ih =>
    rw [stamps, call_fst, Stepwise, ← ih, ← List.isChain_iff_pairwise, List.isChain_cons_cons,
      List.isChain_iff_pairwise]

/-- A fresh clock moves past its own stamp, which it never returned. -/
theorem increasing_new_iff {d : DeviceId} {calls : List ClockCall} :
    ((new d).stamps calls).Pairwise (· < ·) ↔
      Stepwise advance (fun c a => c.stamp < (c.advance a).stamp) (new d) calls := by
  have hzero : (new d).counter ≠ 0xFFFFFFFF := by
    change (0 : UInt32) ≠ 0xFFFFFFFF
    decide
  rw [← increasing_iff, List.pairwise_cons]
  refine ⟨fun h => ⟨fun x hm => ?_, h⟩, And.right⟩
  cases calls with
  | nil => cases hm
  | cons a calls =>
    have hfirst : (new d).stamp < ((new d).advance a).stamp := by
      cases a with
      | now p => exact (stamp_lt_now_iff _ p).2 (.inr hzero)
      | observe p r => exact stamp_lt_observe_iff.2 (.inr (.inr hzero))
    rcases List.mem_cons.1 hm with rfl | hm
    · rw [call_fst]
      exact hfirst
    · exact hfirst.trans_le (stamp_le_of_mem hm)

/-- What was observed stays behind exactly if the call that observes it moves past it. -/
theorem after_iff {calls : List ClockCall} :
    (∀ before p r later, calls = before ++ .observe p r :: later → InDrift p r →
      ∀ h ∈ (before.foldl advance c).stamps (.observe p r :: later), r < h) ↔
      Stepwise advance
        (fun c a => ∀ p r, a = .observe p r → InDrift p r → r < (c.observe p r).2.stamp) c calls := by
  rw [stepwise_iff_forall]
  constructor
  · rintro h before a later he p r rfl hr
    exact h before p r later he hr _ List.mem_cons_self
  · intro h before p r later he hr x hx
    have hlt := h before _ later he p r rfl hr
    rcases List.mem_cons.1 hx with rfl | hx
    · exact hlt
    · exact hlt.trans_le (stamp_le_of_mem hx)

/-- **Monotonicity and causality**: every stamp of a run is newer than those before it, and than
every timestamp observed in drift before it, exactly if no call runs out of counter. -/
theorem causal_iff (d : DeviceId) (calls : List ClockCall) :
    (new d).Causal calls ↔ Stepwise advance Room (new d) calls := by
  have hroom : ∀ c a, Room c a ↔ c.stamp < (c.advance a).stamp ∧
      ∀ p r, a = .observe p r → InDrift p r → r < (c.observe p r).2.stamp := by
    intro c a
    cases a with
    | now p =>
      change _ ↔ c.stamp < (c.now p).2.stamp ∧ _
      rw [stamp_lt_now_iff]
      exact ⟨fun h => ⟨h, nofun⟩, And.left⟩
    | observe p r =>
      change _ ↔ c.stamp < (c.observe p r).2.stamp ∧ _
      rw [stamp_lt_observe_iff]
      refine and_congr_right' ⟨?_, fun h hr => (lt_observe_iff hr).1 (h p r rfl hr)⟩
      rintro h _ _ he hr
      cases he
      exact (lt_observe_iff hr).2 (h hr)
  have hcausal : (new d).Causal calls ↔ _ ∧ _ :=
    ⟨fun h => ⟨h.increasing, h.after⟩, fun h => ⟨h.1, h.2⟩⟩
  rw [hcausal, increasing_new_iff, after_iff, ← stepwise_and]
  exact stepwise_congr (I := fun _ => True) (fun _ _ _ _ => trivial)
    (fun c a _ => (hroom c a).symm) trivial

/-- A peer's timestamp has the last counter there is: the next stamp is the same again. -/
theorem not_causal : ¬ ∀ (d : DeviceId) (calls : List ClockCall), (new d).Causal calls := by
  intro h
  let calls : List ClockCall := [.observe 1000 ⟨1000, 0xFFFFFFFF, .repeated 2⟩, .now 1000]
  have hstamps : (new (.repeated 1)).stamps calls =
      [⟨1000, 0xFFFFFFFF, .repeated 1⟩, ⟨1000, 0xFFFFFFFF, .repeated 1⟩] := by decide
  have hlt := (h (.repeated 1) calls).increasing
  rw [hstamps] at hlt
  exact lt_irrefl _ (List.rel_of_pairwise_cons hlt (List.mem_singleton_self _))

/-! ## Drift -/

theorem wallMs_advance_le (c : HlcClock) (a : ClockCall) :
    (c.advance a).wallMs.toNat ≤
      max c.wallMs.toNat (a.physical.toNat + maxClockDriftMs.toNat) := by
  cases a with
  | now p =>
    change (c.now p).2.wallMs.toNat ≤ max _ (p.toNat + _)
    by_cases h : c.wallMs < p
    · rw [now_of_lt h]
      exact (Nat.le_add_right _ _).trans (le_max_right _ _)
    · rw [now_of_le h]
      exact le_max_left _ _
  | observe p r =>
    have hwall := wallMs_observe c p r
    have hclamp := toNat_clampedWall_le p r
    change (c.observe p r).2.wallMs.toNat ≤ max _ (p.toNat + _)
    omega

/-- The clock is at most the drift limit ahead of the largest reading. -/
theorem wallMs_foldl_le {calls : List ClockCall} {n : Nat}
    (h : c.wallMs.toNat ≤ n + maxClockDriftMs.toNat) :
    (calls.foldl advance c).wallMs.toNat ≤ max n (latest calls) + maxClockDriftMs.toNat := by
  induction calls generalizing c n with
  | nil => exact h.trans (Nat.add_le_add_right (le_max_left _ _) _)
  | cons a calls ih =>
    have hle := wallMs_advance_le c a
    have hrun := @ih (c.advance a) (max n a.physical.toNat) (by omega)
    have hmax : latest (a :: calls) = max a.physical.toNat (latest calls) := rfl
    rw [hmax, List.foldl_cons, ← max_assoc]
    exact hrun

/-- **No peer pushes the clock ahead**: what a run returns is at most the drift limit ahead of the
largest reading of the physical clock so far. -/
theorem within_drift (d : DeviceId) (before : List ClockCall) (a : ClockCall) :
    ((before.foldl advance (new d)).call a).1.wallMs.toNat ≤
      latest (before ++ [a]) + maxClockDriftMs.toNat := by
  have hrun := @wallMs_foldl_le (new d) (before ++ [a]) 0 (Nat.zero_le _)
  rw [List.foldl_append, Nat.zero_max] at hrun
  rw [call_fst]
  exact hrun

end HlcClock
end Clipse
