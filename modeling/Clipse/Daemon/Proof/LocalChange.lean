import Clipse.Daemon.LocalChange
import Clipse.Lib.Stepwise

/-!
# Which local changes are newer (`clipsed/src/daemon.rs`)

The clock of a daemon never repeats a stamp of its own (unless its counter runs out), but it knows
nothing of the rows: those that come from a peer, from a run before a restart or from a request that
was stamped later may be ahead of it. `local_change_newer_iff` says which are.
-/

namespace Clipse

/-! ## The clock -/

namespace HlcClock

/-- The timestamp is behind what the clock stamps next, at this reading of the wall clock. -/
def Passes (c : HlcClock) (physical : UInt64) (h : Hlc) : Prop :=
  if c.wallMs < physical then
    h.wallMs < physical ∨ h.wallMs = physical ∧ h.counter = 0 ∧ h.device < c.device
  else
    h.wallMs < c.wallMs ∨ h.wallMs = c.wallMs ∧
      (h.counter < saturatingSucc c.counter ∨
        h.counter = saturatingSucc c.counter ∧ h.device < c.device)

theorem lt_now_iff {c : HlcClock} {physical : UInt64} {h : Hlc} :
    h < (c.now physical).1 ↔ c.Passes physical h := by
  unfold Passes
  split
  · next hp =>
    have hzero : ¬ h.counter < 0 := by simp [UInt32.lt_iff_toNat_lt]
    rw [now_fst, now_of_lt hp, Hlc.lt_iff]
    simp [stamp, hzero]
  · next hp =>
    rw [now_fst, now_of_le hp, Hlc.lt_iff]
    rfl

/-- The wall clock stands still and the 32-bit counter has run out. -/
def Exhausted (c : HlcClock) (physical : UInt64) : Prop :=
  ¬ c.wallMs < physical ∧ c.counter = 0xFFFFFFFF

theorem lt_now_iff_of_le {c : HlcClock} {physical : UInt64} {h : Hlc} (hle : h ≤ c.stamp) :
    h < (c.now physical).1 ↔ (h = c.stamp → ¬ c.Exhausted physical) := by
  have hnext : c.stamp < (c.now physical).1 ↔ ¬ c.Exhausted physical := by
    rw [now_fst, stamp_lt_now_iff]
    unfold Exhausted
    rw [not_and_or, not_not]
  rcases hle.lt_or_eq with hlt | heq
  · refine iff_of_true ?_ fun he => absurd he hlt.ne
    exact lt_of_lt_of_le hlt (stamp_le_now c physical)
  · rw [heq, hnext]
    exact ⟨fun h _ => h, fun h => h rfl⟩

end HlcClock

namespace ClockedStore

variable {s : ClockedStore} {op : ClockedOp}

/-- **A local change is newer than what it changes.** -/
def Newer (s : ClockedStore) : ClockedOp → Prop
  | .serve task _ => ∀ q, s.requests task = some q →
      ∀ r ∈ s.store.rows, q.change.Hits r → r.hlc < q.hlc
  | _ => True

/-- The clock was past the row when the request was stamped: always, if the row has a stamp that this
daemon had made before, unless the counter has run out. -/
def Past (s : ClockedStore) : ClockedOp → Prop
  | .serve task _ => ∀ q, s.requests task = some q →
      ∀ r ∈ s.store.rows, q.change.Hits r →
        if r.hlc ∈ q.stamped then r.hlc = q.clock.stamp → ¬ q.clock.Exhausted q.physical
        else q.clock.Passes q.physical r.hlc
  | _ => True

/-- No stamp is ahead of the clock that made it. -/
structure Ordered (s : ClockedStore) : Prop where
  stamped : ∀ h ∈ s.stamped, h ≤ s.clock.stamp
  hlc : ∀ task q, s.requests task = some q → q.hlc = (q.clock.now q.physical).1
  before : ∀ task q, s.requests task = some q → ∀ h ∈ q.stamped, h ≤ q.clock.stamp

theorem ordered_started (store : Store) (device : DeviceId) : (started store device).Ordered where
  stamped := nofun
  hlc := nofun
  before := nofun

theorem Ordered.stamped_tick (h : s.Ordered) (physical : UInt64) :
    ∀ hlc ∈ (s.tick physical).stamped, hlc ≤ (s.tick physical).clock.stamp := by
  intro hlc hmem
  rcases List.mem_cons.1 hmem with rfl | hmem
  · exact le_refl _
  · exact (h.stamped hlc hmem).trans (s.clock.stamp_le_now physical)

theorem Ordered.step [Blake3] (h : s.Ordered) (op : ClockedOp) : (s.step op).Ordered := by
  cases op with
  | restart => exact ordered_started s.store s.clock.device
  | stamp task change physical =>
    refine ⟨h.stamped_tick physical, ?_, ?_⟩
    · intro task' q hq
      simp only [ClockedStore.step, Function.update_apply] at hq
      split at hq
      · cases hq
        rfl
      · exact h.hlc task' q hq
    · intro task' q hq
      simp only [ClockedStore.step, Function.update_apply] at hq
      split at hq
      · cases hq
        exact h.stamped
      · exact h.before task' q hq
  | serve task now =>
    simp only [ClockedStore.step]
    split
    · exact h
    · refine ⟨h.stamped, ?_, ?_⟩
      · intro task' q hq
        simp only [Function.update_apply] at hq
        split at hq
        · cases hq
        · exact h.hlc task' q hq
      · intro task' q hq
        simp only [Function.update_apply] at hq
        split at hq
        · cases hq
        · exact h.before task' q hq
  | now physical => exact ⟨h.stamped_tick physical, h.hlc, h.before⟩
  | call c => exact ⟨h.stamped, h.hlc, h.before⟩

theorem Ordered.newer_iff (h : s.Ordered) : s.Newer op ↔ s.Past op := by
  cases op with
  | serve task now =>
    refine forall₂_congr fun q hq => forall₃_congr fun r _ _ => ?_
    rw [h.hlc task q hq]
    split
    · next hmem => exact HlcClock.lt_now_iff_of_le (h.before task q hq r.hlc hmem)
    · exact HlcClock.lt_now_iff
  | restart | stamp | now | call => exact Iff.rfl

/-- In every run of the daemon, over restarts, every pin and deletion that the user asks for is newer
than the row that it changes if and only if the clock was past that row when it was asked for. -/
theorem local_change_newer_iff [Blake3] (store : Store) (device : DeviceId) (ops : List ClockedOp) :
    Stepwise step Newer (started store device) ops ↔
      Stepwise step Past (started store device) ops :=
  stepwise_congr (fun _ op (h : Ordered _) _ => h.step op) (fun _ _ h => Ordered.newer_iff h)
    (ordered_started store device)

/-! ## A phone that is ahead -/

attribute [local instance] Blake3.examples

/-- Copied on a phone whose clock is five seconds ahead. -/
def aheadClip : Clip :=
  .new ⟨1⟩ [.new .text (utf8 "hi")] { device := .repeated 2, deviceLabel := "phone", app := none }
    ⟨10000, 0, .repeated 2⟩

/-- The clip arrives, and the user deletes it. -/
def aheadRun : List ClockedOp :=
  [.call (.write (.insert aheadClip)), .stamp 0 (.delete ⟨1⟩) 5000, .serve 0 5000]

theorem not_local_change_newer :
    ¬ ∀ store device ops, Stepwise step Newer (started store device) ops := by
  intro h
  obtain ⟨-, -, hserve, -⟩ := h (.open_ 0) (.repeated 1) aheadRun
  have hnewer := hserve _ rfl (.of aheadClip) (List.mem_singleton_self _) ⟨rfl, rfl⟩
  revert hnewer
  decide +kernel

end ClockedStore
end Clipse
