import Clipse.Daemon.Pairing
import Mathlib.Data.List.Induction

/-!
# What an offer can lead to

Any connection may call any operation of the pairing state at any time, with any clock reading.
`Since i s events` is the invariant of the calls since the offer of `i` was put up: it relates the
state to the calls answered so far (`since_call`, `since_run`).

* `pairing_state_safe`: between two successful `begin`s at most one device is returned, the one
  whose accept was answered and whose proof is the responder's MAC; the offer is handed out in time
  and before too many wrong tags only; without a `begin` nothing is returned.
* `trust_after_expiry_iff`: B never obtains a device late; A does exactly when the proof it waits
  for is delivered late, for `finish` does not look at the clock.
-/

namespace Clipse

/-! ## Calls -/

/-- A call of an operation. `finish` reads no clock; `now` is when it is called. -/
inductive PairingOp where
  | begin (identity : DeviceIdentity) (label : String) (platform : Platform)
      (addresses : List CandidateAddress) (now : UInt64) (nonceA : Nonce) (code : PairingCode)
  | beginAnswering
  | lookup (tag : Tag) (now : UInt64)
  | answerAccept (accept : PairingAccept) (now now' : UInt64)
  | finish (finish : PairingFinish) (now : UInt64)
  | cancel
  | expireIfStale (now : UInt64)

inductive PairingResult where
  | began (r : Except PairingError (PairingCode × UInt64))
  | claimed (r : Except PairingError Unit)
  | looked (r : LookupOutcome)
  | answered (r : Except PairingError PairingConfirm)
  | finished (r : Except PairingError PairedDevice)
  | cancelled
  | expired (b : Bool)

/-- A call and what it returned. -/
structure PairingEvent where
  op : PairingOp
  result : PairingResult

namespace PairingEvent

/-- The code and the expiry of a `begin` that succeeded. -/
def began? : PairingEvent → Option (PairingCode × UInt64)
  | ⟨_, .began (.ok r)⟩ => some r
  | _ => none

/-- The accept that was answered, and when. -/
def answer? : PairingEvent → Option (PairingAccept × UInt64)
  | ⟨.answerAccept accept _ now, .answered (.ok _)⟩ => some (accept, now)
  | _ => none

/-- The device that was returned. -/
def device? : PairingEvent → Option PairedDevice
  | ⟨_, .finished (.ok d)⟩ => some d
  | _ => none

/-- Is this a lookup with a tag that is not the initiator's? -/
def isWrong [Blake3] (i : PairingInitiator) : PairingEvent → Bool
  | ⟨.lookup tag _, _⟩ => !i.answers tag
  | _ => false

end PairingEvent

section
variable [Blake3]

namespace PairingState

/-- Run a call. -/
def call (s : PairingState) : PairingOp → PairingResult × PairingState
  | .begin identity label platform addresses now nonceA code =>
    let r := s.begin identity label platform addresses now nonceA code
    (.began r.1, r.2)
  | .beginAnswering => (.claimed s.beginAnswering.1, s.beginAnswering.2)
  | .lookup tag now => (.looked (s.lookup tag now).1, (s.lookup tag now).2)
  | .answerAccept accept now now' =>
    (.answered (s.answerAccept accept now now').1, (s.answerAccept accept now now').2)
  | .finish f _ => (.finished (s.finish f).1, (s.finish f).2)
  | .cancel => (.cancelled, s.cancel)
  | .expireIfStale now => (.expired (s.expireIfStale now).1, (s.expireIfStale now).2)

/-- The state after some calls. -/
def after (s : PairingState) (ops : List PairingOp) : PairingState :=
  ops.foldl (fun s op => (s.call op).2) s

/-- The calls with their results. -/
def trace (s : PairingState) : List PairingOp → List PairingEvent
  | [] => []
  | op :: ops => ⟨op, (s.call op).1⟩ :: (s.call op).2.trace ops

theorem after_concat (s : PairingState) (ops : List PairingOp) (op : PairingOp) :
    s.after (ops ++ [op]) = ((s.after ops).call op).2 := by
  unfold after
  rw [List.foldl_append]
  rfl

theorem trace_append (s : PairingState) (ops ops' : List PairingOp) :
    s.trace (ops ++ ops') = s.trace ops ++ (s.after ops).trace ops' := by
  induction ops generalizing s with
  | nil => rfl
  | cons op ops ih =>
    show _ :: (s.call op).2.trace (ops ++ ops') = _ :: (_ ++ ((s.call op).2.after ops).trace ops')
    rw [ih]

/-! ## The invariant of an offer -/

/-- What is true of the calls since `i` began to offer, in the state `s` they led to. -/
structure Since (i : PairingInitiator) (s : PairingState) (events : List PairingEvent) : Prop where
  /-- While it is offered, nobody was answered, and the wrong tags are counted. -/
  offering : ∀ j e w, s = offering j e w → j = i ∧ e = i.offer.expiresAtMs ∧
    w = events.countP (·.isWrong i) ∧ w < maxLookupAttempts ∧
    events.filterMap (·.answer?) = [] ∧ events.filterMap (·.device?) = []
  /-- While a proof is awaited, it is the one for the only accept that was answered. -/
  proving : ∀ awaiting, s = proving awaiting → ∃ accept now,
    events.filterMap (·.answer?) = [(accept, now)] ∧ now ≤ i.offer.expiresAtMs ∧
    awaiting = ⟨(i.transcript accept).mac macBLabel, accept.peer now⟩ ∧
    events.filterMap (·.device?) = []
  /-- After that, there is at most one of each. -/
  answers : (events.filterMap (·.answer?)).length ≤ 1
  devices : (events.filterMap (·.device?)).length ≤ 1

theorem since_begin (i : PairingInitiator) :
    Since i (.offering i i.offer.expiresAtMs 0) [] where
  offering j e w h := by
    cases h
    exact ⟨rfl, rfl, rfl, by decide, rfl, rfl⟩
  proving _ h := by cases h
  answers := Nat.zero_le _
  devices := Nat.zero_le _

omit [Blake3] in
theorem filterMap_concat_none {α : Type} {view : PairingEvent → Option α} {ev : PairingEvent}
    (h : view ev = none) (events : List PairingEvent) :
    (events ++ [ev]).filterMap view = events.filterMap view := by
  rw [List.filterMap_append, List.filterMap_cons_none h, List.filterMap_nil, List.append_nil]

omit [Blake3] in
theorem filterMap_concat_some {α : Type} {view : PairingEvent → Option α} {ev : PairingEvent}
    {a : α} (h : view ev = some a) (events : List PairingEvent) :
    (events ++ [ev]).filterMap view = events.filterMap view ++ [a] := by
  rw [List.filterMap_append, List.filterMap_cons_some h, List.filterMap_nil]

/-- A call that ends the ceremony, or finds it ended, keeps the invariant. -/
theorem Since.over {i : PairingInitiator} {s s' : PairingState} {events : List PairingEvent}
    (h : Since i s events) {ev : PairingEvent} (ha : ev.answer? = none) (hd : ev.device? = none)
    (ho : ∀ j e w, s' ≠ .offering j e w) (hp : ∀ awaiting, s' ≠ .proving awaiting) :
    Since i s' (events ++ [ev]) where
  offering j e w he := absurd he (ho j e w)
  proving awaiting he := absurd he (hp awaiting)
  answers := by rw [filterMap_concat_none ha]; exact h.answers
  devices := by rw [filterMap_concat_none hd]; exact h.devices

/-- A call that returns nothing may leave the state as it is. -/
theorem Since.quiet {i : PairingInitiator} {s : PairingState} {events : List PairingEvent}
    (h : Since i s events) {ev : PairingEvent} (ha : ev.answer? = none) (hd : ev.device? = none)
    (hw : (∃ j e w, s = .offering j e w) → ev.isWrong i = false) : Since i s (events ++ [ev]) where
  offering j e w he := by
    obtain ⟨hj, hexp, hc, hlt, hans, hdev⟩ := h.offering j e w he
    refine ⟨hj, hexp, ?_, hlt, ?_, ?_⟩
    · rw [List.countP_append, List.countP_singleton, hw ⟨j, e, w, he⟩]
      simpa using hc
    · rw [filterMap_concat_none ha, hans]
    · rw [filterMap_concat_none hd, hdev]
  proving awaiting he := by
    obtain ⟨accept, now, hans, hnow, hexp, hdev⟩ := h.proving awaiting he
    refine ⟨accept, now, ?_, hnow, hexp, ?_⟩
    · rw [filterMap_concat_none ha, hans]
    · rw [filterMap_concat_none hd, hdev]
  answers := by rw [filterMap_concat_none ha]; exact h.answers
  devices := by rw [filterMap_concat_none hd]; exact h.devices

theorem since_lookup {i : PairingInitiator} {s : PairingState} {events : List PairingEvent}
    (h : Since i s events) (tag : Tag) (now : UInt64) :
    Since i (s.lookup tag now).2 (events ++ [⟨.lookup tag now, .looked (s.lookup tag now).1⟩]) := by
  rcases lookup_cases s tag now with ⟨j, e, w, rfl, -, ht, hl⟩ | ⟨j, e, w, rfl, -, ht, hw, hl⟩ |
    ⟨j, e, w, -, -, -, -, hl⟩ | ⟨j, e, w, -, -, hl⟩ | ⟨hno, hl⟩
  · obtain ⟨rfl, -⟩ := h.offering j e w rfl
    rw [hl]
    exact h.quiet rfl rfl fun _ => by simp [PairingEvent.isWrong, ht]
  · obtain ⟨rfl, rfl, hc, -, hans, hdev⟩ := h.offering j e w rfl
    rw [hl]
    -- the tag is wrong: one more is counted, in the state and in the trace
    have hwrong : PairingEvent.isWrong j ⟨.lookup tag now, .looked .refuse⟩ = true := by
      simp [PairingEvent.isWrong, ht]
    constructor
    · intro j' e' w' he
      cases he
      refine ⟨rfl, rfl, ?_, hw, ?_, ?_⟩
      · rw [List.countP_append, List.countP_singleton, if_pos hwrong, ← hc]
      · rw [filterMap_concat_none rfl, hans]
      · rw [filterMap_concat_none rfl, hdev]
    · intro awaiting he
      cases he
    · rw [filterMap_concat_none rfl]; exact h.answers
    · rw [filterMap_concat_none rfl]; exact h.devices
  · rw [hl]
    exact h.over rfl rfl (by simp) (by simp)
  · rw [hl]
    exact h.over rfl rfl (by simp) (by simp)
  · rw [hl]
    refine h.quiet rfl rfl fun hs => ?_
    obtain ⟨j, e, w, hs⟩ := hs
    exact absurd hs (hno j e w)

theorem since_answerAccept {i : PairingInitiator} {s : PairingState} {events : List PairingEvent}
    (h : Since i s events) (accept : PairingAccept) (now now' : UInt64) :
    Since i (s.answerAccept accept now now').2
      (events ++
        [⟨.answerAccept accept now now', .answered (s.answerAccept accept now now').1⟩]) := by
  rcases answerAccept_cases s accept now now' with
    ⟨j, e, w, confirm, awaiting, rfl, -, ha, hr⟩ | ⟨j, e, w, err, -, hr⟩ | ⟨-, hr⟩
  · obtain ⟨rfl, -, -, -, hans, hdev⟩ := h.offering j e w rfl
    obtain ⟨hnow, -, hexp⟩ := PairingInitiator.accept_eq_ok.1 ha
    have hev : PairingEvent.answer? ⟨.answerAccept accept now now', .answered (.ok confirm)⟩ =
        some (accept, now') := rfl
    rw [hr]
    constructor
    · intro j' e' w' he
      cases he
    · intro awaiting' he
      cases he
      refine ⟨accept, now', ?_, hnow, hexp, ?_⟩
      · rw [filterMap_concat_some hev, hans, List.nil_append]
      · rw [filterMap_concat_none rfl, hdev]
    · rw [filterMap_concat_some hev, hans]
      exact Nat.le_refl 1
    · rw [filterMap_concat_none rfl]; exact h.devices
  · rw [hr]
    exact h.over rfl rfl (by simp) (by simp)
  · rw [hr]
    exact h.over rfl rfl (by simp) (by simp)

theorem since_finish {i : PairingInitiator} {s : PairingState} {events : List PairingEvent}
    (h : Since i s events) (f : PairingFinish) (now : UInt64) :
    Since i (s.finish f).2 (events ++ [⟨.finish f now, .finished (s.finish f).1⟩]) := by
  rcases finish_cases s f with ⟨awaiting, hs, -, hr⟩ | ⟨awaiting, -, -, hr⟩ | ⟨-, hr⟩
  · obtain ⟨accept, t, -, -, -, hdev⟩ := h.proving awaiting hs
    have hev : PairingEvent.device? ⟨.finish f now, .finished (.ok awaiting.peer)⟩ =
        some awaiting.peer := rfl
    rw [hr]
    constructor
    · intro j e w he
      cases he
    · intro awaiting' he
      cases he
    · rw [filterMap_concat_none rfl]; exact h.answers
    · rw [filterMap_concat_some hev, hdev]
      exact Nat.le_refl 1
  · rw [hr]
    exact h.over rfl rfl (by simp) (by simp)
  · rw [hr]
    exact h.over rfl rfl (by simp) (by simp)

/-- **One call keeps the invariant**, unless it begins anew. -/
theorem since_call {i : PairingInitiator} {s : PairingState} {events : List PairingEvent}
    (h : Since i s events) {op : PairingOp}
    (hn : PairingEvent.began? ⟨op, (s.call op).1⟩ = none) :
    Since i (s.call op).2 (events ++ [⟨op, (s.call op).1⟩]) := by
  cases op with
  | lookup tag now => exact since_lookup h tag now
  | answerAccept accept now now' => exact since_answerAccept h accept now now'
  | finish f now => exact since_finish h f now
  | cancel => exact h.over rfl rfl (by simp [call, cancel]) (by simp [call, cancel])
  | begin identity label platform addresses now nonceA code =>
    cases hb : s.begin identity label platform addresses now nonceA code with
    | mk r s' =>
      cases r with
      | ok r => simp [call, hb, PairingEvent.began?] at hn
      | error e =>
        obtain ⟨-, -, rfl⟩ := begin_eq_error hb
        simp only [call, hb]
        exact h.quiet rfl rfl fun _ => rfl
  | beginAnswering =>
    rcases beginAnswering_cases s with ⟨-, hr⟩ | ⟨-, hr⟩
    · simp only [call, hr]
      exact h.over rfl rfl (by simp) (by simp)
    · simp only [call, hr]
      exact h.quiet rfl rfl fun _ => rfl
  | expireIfStale now =>
    rcases expireIfStale_cases s now with ⟨j, e, w, -, -, hr⟩ | ⟨-, hr⟩
    · simp only [call, hr]
      exact h.over rfl rfl (by simp) (by simp)
    · simp only [call, hr]
      exact h.quiet rfl rfl fun _ => rfl

/-- **Every run keeps it**, until the next `begin` that succeeds. -/
theorem since_run {i : PairingInitiator} {s : PairingState} {events : List PairingEvent}
    (h : Since i s events) {ops : List PairingOp} (hn : ∀ ev ∈ s.trace ops, ev.began? = none) :
    Since i (s.after ops) (events ++ s.trace ops) := by
  induction ops generalizing s events with
  | nil => simpa [after, trace] using h
  | cons op ops ih =>
    rw [trace, List.forall_mem_cons] at hn
    have hs := ih (since_call h hn.1) hn.2
    rwa [List.append_assoc] at hs

/-- Without a `begin` the state is never one that returns a device. -/
theorem idle_run {s : PairingState} (h : s = idle ∨ s = .answering) {ops : List PairingOp}
    (hn : ∀ ev ∈ s.trace ops, ev.began? = none) :
    (s.after ops = idle ∨ s.after ops = .answering) ∧
      (s.trace ops).filterMap (·.device?) = [] := by
  induction ops generalizing s with
  | nil => exact ⟨h, rfl⟩
  | cons op ops ih =>
    rw [trace, List.forall_mem_cons] at hn
    have hstep : ((s.call op).2 = idle ∨ (s.call op).2 = .answering) ∧
        PairingEvent.device? ⟨op, (s.call op).1⟩ = none := by
      rcases h with rfl | rfl
      · cases op with
        | begin => simp [call, begin, isBusy, PairingEvent.began?] at hn
        | beginAnswering | lookup | answerAccept | finish | cancel | expireIfStale =>
          exact ⟨by simp [call, beginAnswering, isBusy, lookup, answerAccept, finish, cancel,
            expireIfStale], rfl⟩
      · cases op <;>
          exact ⟨by simp [call, begin, beginAnswering, isBusy, lookup, answerAccept, finish, cancel,
            expireIfStale], rfl⟩
    obtain ⟨ha, hd⟩ := ih hstep.1 hn.2
    exact ⟨ha, by rw [trace, List.filterMap_cons_none hstep.2, hd]⟩

/-- A `begin` that succeeds puts up an offer, of the code and until the time it returns. -/
theorem call_began {s : PairingState} {b : PairingOp} {r : PairingCode × UInt64}
    (h : PairingEvent.began? ⟨b, (s.call b).1⟩ = some r) :
    ∃ i, (s.call b).2 = .offering i r.2 0 ∧ i.code = r.1 ∧ i.offer.expiresAtMs = r.2 := by
  cases b with
  | begin identity label platform addresses now nonceA code =>
    cases hb : s.begin identity label platform addresses now nonceA code with
    | mk r' s' =>
      cases r' with
      | error e => simp [call, hb, PairingEvent.began?] at h
      | ok r' =>
        obtain rfl : r' = r := by simpa [call, hb, PairingEvent.began?] using h
        obtain ⟨-, rfl, rfl⟩ := begin_eq_ok hb
        exact ⟨_, by simp only [call, hb], rfl, rfl⟩
  | beginAnswering | lookup | answerAccept | finish | cancel | expireIfStale =>
    simp [call, PairingEvent.began?] at h

end PairingState

/-- **The pairing state is safe.** Between two successful `begin`s, whatever is called by whomever:
`finish` returns at most one device; it is the device of the only accept that was answered, and its
proof is the responder's MAC over that accept's transcript; the offer is handed out only in time
and before `MAX_LOOKUP_ATTEMPTS` wrong tags. Without a `begin` no device is returned. -/
theorem pairing_state_safe :
    (∀ ops, (∀ ev ∈ PairingState.idle.trace ops, ev.began? = none) →
      (PairingState.idle.trace ops).filterMap (·.device?) = []) ∧
    ∀ (s : PairingState) (b : PairingOp) (r : PairingCode × UInt64),
      PairingEvent.began? ⟨b, (s.call b).1⟩ = some r →
      ∃ i, (s.call b).2 = .offering i r.2 0 ∧ i.code = r.1 ∧ i.offer.expiresAtMs = r.2 ∧
        ∀ ops, (∀ ev ∈ (s.call b).2.trace ops, ev.began? = none) →
          (((s.call b).2.trace ops).filterMap (·.device?)).length ≤ 1 ∧
          (∀ f d s', ((s.call b).2.after ops).finish f = (.ok d, s') →
            ∃ accept now, ((s.call b).2.trace ops).filterMap (·.answer?) = [(accept, now)] ∧
              d.deviceId = accept.deviceId ∧ d.staticPublic = accept.staticPublic ∧
              f.mac = (i.transcript accept).mac macBLabel) ∧
          ∀ tag now o s', ((s.call b).2.after ops).lookup tag now = (.offer o, s') →
            o = i.offer ∧ now ≤ r.2 ∧
              ((s.call b).2.trace ops).countP (·.isWrong i) < maxLookupAttempts := by
  refine ⟨fun ops hn => (PairingState.idle_run (.inl rfl) hn).2, fun s b r hb => ?_⟩
  obtain ⟨i, hi, hcode, hexp⟩ := PairingState.call_began hb
  refine ⟨i, hi, hcode, hexp, fun ops hn => ?_⟩
  rw [hi] at hn ⊢
  have h0 : PairingState.Since i (.offering i r.2 0) [] := hexp ▸ PairingState.since_begin i
  have h := PairingState.since_run h0 hn
  rw [List.nil_append] at h
  refine ⟨h.devices, fun f d s' hf => ?_, fun tag now o s' hl => ?_⟩
  · rcases PairingState.finish_cases ((PairingState.offering i r.2 0).after ops) f with
      ⟨awaiting, hs, hm, hr⟩ | ⟨awaiting, -, -, hr⟩ | ⟨-, hr⟩
    · obtain ⟨accept, now, hans, -, rfl, -⟩ := h.proving awaiting hs
      rw [hf] at hr
      cases hr
      exact ⟨accept, now, hans, rfl, rfl, hm⟩
    · rw [hf] at hr
      cases hr
    · rw [hf] at hr
      cases hr
  · rcases PairingState.lookup_cases ((PairingState.offering i r.2 0).after ops) tag now with
      ⟨j, e, w, hs, hnow, -, hr⟩ | ⟨j, e, w, -, -, -, -, hr⟩ | ⟨j, e, w, -, -, -, -, hr⟩ |
      ⟨j, e, w, -, -, hr⟩ | ⟨-, hr⟩
    · obtain ⟨rfl, rfl, rfl, hw, -, -⟩ := h.offering j e w hs
      rw [hl] at hr
      cases hr
      exact ⟨rfl, hexp ▸ hnow, hw⟩
    all_goals
      rw [hl] at hr
      cases hr

/-! ## Expiry -/

/-- The code and the expiry of the offer that was put up last. -/
def lastBegan (events : List PairingEvent) : Option (PairingCode × UInt64) :=
  (events.filterMap (·.began?)).getLast?

/-- The clock readings of a call, in order; for `finish`, the time of the call. -/
def PairingOp.readings : PairingOp → List UInt64
  | begin _ _ _ _ now _ _ => [now]
  | lookup _ now => [now]
  | answerAccept _ now now' => [now, now']
  | finish _ now => [now]
  | expireIfStale now => [now]
  | beginAnswering | cancel => []

/-- The clock does not run backwards during the calls. -/
def ClockForward (ops : List PairingOp) : Prop :=
  (ops.flatMap (·.readings)).Pairwise (· ≤ ·)

/-- A obtains every device before its offer expires. -/
def DevicesInTime (ops : List PairingOp) : Prop :=
  ∀ pre f now post, ops = pre ++ .finish f now :: post →
    ∀ d s', (PairingState.idle.after pre).finish f = (.ok d, s') →
      ∃ r, lastBegan (PairingState.idle.trace pre) = some r ∧ now ≤ r.2

/-- Every proof that A waits for is delivered before the offer expires. -/
def ProofsInTime (ops : List PairingOp) : Prop :=
  ∀ pre f now post, ops = pre ++ .finish f now :: post →
    ∀ awaiting, PairingState.idle.after pre = .proving awaiting → f.mac = awaiting.expected →
      ∀ r, lastBegan (PairingState.idle.trace pre) = some r → now ≤ r.2

namespace PairingState

/-- A call enters an offer by a `begin` that succeeds, and a wait for a proof from an offer. -/
theorem call_source {s : PairingState} {op : PairingOp}
    (hn : PairingEvent.began? ⟨op, (s.call op).1⟩ = none)
    (h : (∃ i e w, (s.call op).2 = .offering i e w) ∨ ∃ a, (s.call op).2 = .proving a) :
    (∃ i e w, s = .offering i e w) ∨ ∃ a, s = .proving a := by
  by_contra hs
  have hover : s = idle ∨ s = .answering := by
    cases s with
    | idle => exact .inl rfl
    | answering => exact .inr rfl
    | offering i e w => exact absurd (.inl ⟨i, e, w, rfl⟩) hs
    | proving a => exact absurd (.inr ⟨a, rfl⟩) hs
  have hone := (@idle_run _ s hover [op] (by simpa [trace] using hn)).1
  rcases h with ⟨i, e, w, h⟩ | ⟨a, h⟩ <;> simp [after, h] at hone

/-- While an offer is up or a proof is awaited, there was a `begin` that succeeded. -/
theorem exists_began {ops : List PairingOp}
    (h : (∃ i e w, idle.after ops = .offering i e w) ∨ ∃ a, idle.after ops = .proving a) :
    ∃ r, lastBegan (idle.trace ops) = some r := by
  induction ops using List.reverseRecOn with
  | nil => simp [after] at h
  | append_singleton ops op ih =>
    have ht : idle.trace (ops ++ [op]) =
        idle.trace ops ++ [⟨op, ((idle.after ops).call op).1⟩] := trace_append idle ops [op]
    rw [after_concat] at h
    cases hb : PairingEvent.began? ⟨op, ((idle.after ops).call op).1⟩ with
    | some r => exact ⟨r, by rw [lastBegan, ht, filterMap_concat_some hb]; simp⟩
    | none =>
      obtain ⟨r, hr⟩ := ih (call_source hb h)
      exact ⟨r, by rw [lastBegan, ht, filterMap_concat_none hb]; exact hr⟩

end PairingState

/-- **No trust after expiry, on B's side; on A's exactly while its last message is not late.** B
never obtains a device after the offer expired. A does in a run exactly when a proof it waits for is
delivered after that. -/
theorem trust_after_expiry_iff :
    (∀ (r : PairingResponder) confirm now finish device,
      r.verify confirm now = .ok (finish, device) → now ≤ r.offer.expiresAtMs) ∧
    ∀ ops, DevicesInTime ops ↔ ProofsInTime ops := by
  refine ⟨fun r confirm now finish device h => (PairingResponder.verify_eq_ok.1 h).1,
    fun ops => ⟨fun h pre f now post hops awaiting hs hm r hr => ?_,
      fun h pre f now post hops d s' hf => ?_⟩⟩
  · have hf : (PairingState.idle.after pre).finish f = (.ok awaiting.peer, .idle) := by
      rw [hs]
      simp [PairingState.finish, PairingAwaitingProof.verify, hm, Except.mapError]
    obtain ⟨r', hr', hle⟩ := h pre f now post hops _ _ hf
    rw [hr] at hr'
    cases hr'
    exact hle
  · rcases PairingState.finish_cases (PairingState.idle.after pre) f with
      ⟨awaiting, hs, hm, -⟩ | ⟨awaiting, -, -, hr⟩ | ⟨-, hr⟩
    · obtain ⟨r, hr⟩ := PairingState.exists_began (.inr ⟨awaiting, hs⟩)
      exact ⟨r, hr, h pre f now post hops awaiting hs hm r hr⟩
    · rw [hf] at hr
      cases hr
    · rw [hf] at hr
      cases hr

/-! ## A proof that comes late -/

namespace PairingState

/-- The laptop shows its code at 0; a few seconds before the code expires it is asked for it and
answers the phone. -/
def untilProof : List PairingOp :=
  [.begin .laptop "laptop" .linux [] 0 .ofLaptop .onScreen,
    .lookup PairingCode.onScreen.tag 179990, .answerAccept .ofPhone 179995 179995]

theorem after_untilProof : idle.after untilProof =
    .proving ⟨Transcript.undisturbed.mac macBLabel, PairingAccept.ofPhone.peer 179995⟩ := by
  have hb : (idle.call (.begin .laptop "laptop" .linux [] 0 .ofLaptop .onScreen)).2 =
      .offering .onLaptop 180000 0 := rfl
  have hl : ((offering .onLaptop 180000 0).call (.lookup PairingCode.onScreen.tag 179990)).2 =
      .offering .onLaptop 180000 0 := by
    have ht : PairingInitiator.onLaptop.answers PairingCode.onScreen.tag = true :=
      PairingInitiator.answers_tag .onLaptop
    simp [call, lookup, expireIfStale, ht]
  have ha : ((offering .onLaptop 180000 0).call (.answerAccept .ofPhone 179995 179995)).2 =
      .proving ⟨Transcript.undisturbed.mac macBLabel, PairingAccept.ofPhone.peer 179995⟩ := rfl
  show (((idle.call _).2.call _).2.call _).2 = _
  rw [hb, hl, ha]

theorem finish_untilProof :
    (idle.after untilProof).finish ⟨Transcript.undisturbed.mac macBLabel⟩ =
      (.ok (PairingAccept.ofPhone.peer 179995), .idle) := by
  rw [after_untilProof]
  simp [finish, PairingAwaitingProof.verify, Except.mapError]

theorem began_untilProof :
    lastBegan (idle.trace untilProof) = some (.onScreen, 180000) := rfl

end PairingState

end

section
attribute [local instance] Blake3.ceremony

/-- The phone is the device that the laptop's offer leads to. -/
theorem pairing_state_safe_untilProof :
    ∃ accept now,
      ((PairingState.offering .onLaptop 180000 0).trace
        [.lookup PairingCode.onScreen.tag 179990,
          .answerAccept .ofPhone 179995 179995]).filterMap (·.answer?) = [(accept, now)] ∧
      (PairingAccept.ofPhone.peer 179995).deviceId = accept.deviceId := by
  obtain ⟨i, hi, -, -, h⟩ := pairing_state_safe.2 .idle
    (.begin .laptop "laptop" .linux [] 0 .ofLaptop .onScreen) (.onScreen, 180000) rfl
  obtain ⟨accept, now, ha, hd, -⟩ := (h [.lookup PairingCode.onScreen.tag 179990,
    .answerAccept .ofPhone 179995 179995] (by simp [PairingState.trace, PairingState.call,
      PairingEvent.began?])).2.1 _ _ _ PairingState.finish_untilProof
  exact ⟨accept, now, ha, hd⟩

/-- The phone's proof reaches the laptop a millisecond late, and the laptop trusts the phone. -/
theorem not_devicesInTime : ¬ ∀ ops, ClockForward ops → DevicesInTime ops := by
  intro h
  have hc : ClockForward (PairingState.untilProof ++
      [.finish ⟨Transcript.undisturbed.mac macBLabel⟩ 180001]) := by
    simp [ClockForward, PairingState.untilProof, PairingOp.readings]
  obtain ⟨r, hr, hle⟩ := h _ hc _ _ _ _ rfl _ _ PairingState.finish_untilProof
  rw [PairingState.began_untilProof] at hr
  cases hr
  exact absurd hle (by decide)

/-- A proof that comes at 179999 is in time. -/
theorem devicesInTime_soon : DevicesInTime (PairingState.untilProof ++
    [.finish ⟨Transcript.undisturbed.mac macBLabel⟩ 179999]) := by
  refine (trust_after_expiry_iff.2 _).2 fun pre f now post hops awaiting hs hm r hr => ?_
  have hpre : pre = PairingState.untilProof ∧ now = 179999 := by
    rcases pre with _ | ⟨a, _ | ⟨b, _ | ⟨c, _ | ⟨d, pre⟩⟩⟩⟩ <;>
      simp_all [PairingState.untilProof]
  obtain ⟨rfl, rfl⟩ := hpre
  rw [PairingState.began_untilProof] at hr
  cases hr
  decide

end

end Clipse
