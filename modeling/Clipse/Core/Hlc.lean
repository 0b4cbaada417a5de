import Clipse.Core.Id
import Mathlib.Data.Prod.Lex

/-!
# Hybrid logical clocks (`clipse-core/src/hlc.rs`)

An `Hlc` orders events by `(wall_ms, counter, device)`; the device only breaks ties, which makes
the order total. `HlcClock` is the state behind the clock's mutex. The reading of the physical
clock is an argument of `now` and `observe`.
-/

namespace Clipse

/-- A point in the hybrid logical time of one device. -/
structure Hlc where
  wallMs : UInt64
  counter : UInt32
  device : DeviceId
deriving DecidableEq

namespace Hlc

/-- `Ord for Hlc`: the wall clock first, then the counter, then the device. -/
def key (h : Hlc) : Nat ×ₗ Nat ×ₗ DeviceId :=
  toLex (h.wallMs.toNat, toLex (h.counter.toNat, h.device))

theorem key_injective : Function.Injective key := by
  rintro ⟨w, c, d⟩ ⟨w', c', d'⟩ h
  simp only [key, EmbeddingLike.apply_eq_iff_eq, Prod.mk.injEq, UInt64.toNat_inj,
    UInt32.toNat_inj] at h
  obtain ⟨rfl, rfl, rfl⟩ := h
  rfl

instance : LinearOrder Hlc := LinearOrder.lift' key key_injective

theorem lt_iff {a b : Hlc} :
    a < b ↔ a.wallMs < b.wallMs ∨ a.wallMs = b.wallMs ∧
      (a.counter < b.counter ∨ a.counter = b.counter ∧ a.device < b.device) := by
  change key a < key b ↔ _
  simp only [key, Prod.Lex.toLex_lt_toLex, UInt64.lt_iff_toNat_lt, UInt32.lt_iff_toNat_lt,
    UInt64.toNat_inj, UInt32.toNat_inj]

end Hlc

/-- A remote timestamp further ahead than this does not move our own clock. -/
def maxClockDriftMs : UInt64 := 60000

/-- `u32::saturating_add(1)`. -/
def saturatingSucc (n : UInt32) : UInt32 := if n = 0xFFFFFFFF then n else n + 1

/-- `u64::saturating_add`. -/
def saturatingAdd (a b : UInt64) : UInt64 := if a + b < a then 0xFFFFFFFFFFFFFFFF else a + b

/-- `HlcClock`: the device and the state behind the mutex. -/
structure HlcClock where
  device : DeviceId
  wallMs : UInt64 := 0
  counter : UInt32 := 0
deriving DecidableEq

namespace HlcClock

/-- `HlcClock::new`: every start of the daemon begins with the default state. -/
def new (device : DeviceId) : HlcClock := { device }

/-- The timestamp of the clock's present state. -/
def stamp (c : HlcClock) : Hlc := ⟨c.wallMs, c.counter, c.device⟩

/-- `HlcClock::now`. -/
def now (c : HlcClock) (physical : UInt64) : Hlc × HlcClock :=
  let c' : HlcClock :=
    if c.wallMs < physical then { c with wallMs := physical, counter := 0 }
    -- the wall clock did not advance: the counter carries the order
    else { c with counter := saturatingSucc c.counter }
  (c'.stamp, c')

/-- `HlcClock::observe`. -/
def observe (c : HlcClock) (physical : UInt64) (remote : Hlc) : Hlc × HlcClock :=
  let remoteWall :=
    if saturatingAdd physical maxClockDriftMs < remote.wallMs then physical else remote.wallMs
  let maxWall := max (max c.wallMs remoteWall) physical
  let counter :=
    match decide (maxWall = c.wallMs), decide (maxWall = remoteWall) with
    | true, true => saturatingSucc (max c.counter remote.counter)
    | true, false => saturatingSucc c.counter
    | false, true => saturatingSucc remote.counter
    | false, false => 0
  let c' : HlcClock := { c with wallMs := maxWall, counter }
  (c'.stamp, c')

@[simp] theorem now_fst (c : HlcClock) (p : UInt64) : (c.now p).1 = (c.now p).2.stamp := rfl

@[simp] theorem now_device (c : HlcClock) (p : UInt64) : (c.now p).2.device = c.device := by
  unfold now
  split <;> rfl

theorem now_of_lt {c : HlcClock} {p : UInt64} (h : c.wallMs < p) :
    (c.now p).2 = { c with wallMs := p, counter := 0 } := by simp [now, h]

theorem now_of_le {c : HlcClock} {p : UInt64} (h : ¬ c.wallMs < p) :
    (c.now p).2 = { c with counter := saturatingSucc c.counter } := by simp [now, h]

theorem lt_saturatingSucc {n : UInt32} (h : n ≠ 0xFFFFFFFF) : n < saturatingSucc n := by
  have hn : n.toNat ≠ 4294967295 := fun he => h (UInt32.toNat_inj.1 he)
  have := n.toNat_lt
  rw [saturatingSucc, if_neg h, UInt32.lt_iff_toNat_lt, UInt32.toNat_add]
  simp only [UInt32.reduceToNat]
  omega

/-- **Strictly increasing**: a stamp is newer than the clock's last one, unless the wall clock
stands still and the 32-bit counter has run out. -/
theorem stamp_lt_now_iff (c : HlcClock) (p : UInt64) :
    c.stamp < (c.now p).2.stamp ↔ c.wallMs < p ∨ c.counter ≠ 0xFFFFFFFF := by
  by_cases h : c.wallMs < p
  · rw [now_of_lt h]
    simp [stamp, Hlc.lt_iff, h]
  · rw [now_of_le h]
    by_cases hc : c.counter = 0xFFFFFFFF
    · simp [stamp, saturatingSucc, hc, h]
    · simp [stamp, Hlc.lt_iff, lt_saturatingSucc hc, hc]

/-- The clock's state never moves back. -/
theorem stamp_le_now (c : HlcClock) (p : UInt64) : c.stamp ≤ (c.now p).2.stamp := by
  by_cases h : c.stamp < (c.now p).2.stamp
  · exact le_of_lt h
  · rw [stamp_lt_now_iff, not_or, not_not] at h
    rw [now_of_le h.1, saturatingSucc, if_pos h.2]

end HlcClock
end Clipse
