import Clipse.Crypto.Pairing

/-!
# The pairing state of a daemon (`clipsed/src/pairing.rs`)

`PairingState` is what the daemon is doing about pairing; every inbound connection and every
request of the user goes through it, under one lock. A method that takes `&mut self` returns the
state it leaves beside its result, also when it fails. Clock readings and the values drawn at
random are arguments.
-/

namespace Clipse

inductive PairingError where
  | notInProgress
  | alreadyInProgress
  | expired
  | notFound
  | failed
deriving DecidableEq

/-- The `Display` texts. -/
def PairingError.text : PairingError → String
  | notInProgress => "no pairing is in progress"
  | alreadyInProgress => "a pairing is already in progress"
  | expired => "that pairing code has expired"
  | notFound => "no device on this network is showing that code"
  | failed => "pairing failed"

inductive PairingState where
  | idle
  /-- Showing six digits; the wrong tags since then are counted. -/
  | offering (initiator : PairingInitiator) (expiresAtMs : UInt64) (wrongLookups : Nat)
  /-- Answered; the far side still has to prove itself. -/
  | proving (awaiting : PairingAwaitingProof)
  /-- This device does the typing. -/
  | answering
deriving DecidableEq

/-- What an inbound lookup is answered with. -/
inductive LookupOutcome where
  | offer (offer : PairingOffer)
  | refuse
deriving DecidableEq

/-- `failed`: every failure of the ceremony looks alike. -/
def failed (_ : CryptoError) : PairingError := .failed

namespace PairingState

def isBusy (s : PairingState) : Bool := s ≠ idle

/-- `PairingState::begin`. -/
def begin [Blake3] (s : PairingState) (identity : DeviceIdentity) (label : String)
    (platform : Platform) (addresses : List CandidateAddress) (now : UInt64) (nonceA : Nonce)
    (code : PairingCode) : Except PairingError (PairingCode × UInt64) × PairingState :=
  if s.isBusy then (.error .alreadyInProgress, s)
  else
    let initiator := .create identity label platform addresses now nonceA code
    (.ok (initiator.code, initiator.offer.expiresAtMs),
      offering initiator initiator.offer.expiresAtMs 0)

/-- `PairingState::begin_answering`. -/
def beginAnswering (s : PairingState) : Except PairingError Unit × PairingState :=
  if s.isBusy then (.error .alreadyInProgress, s) else (.ok (), answering)

/-- `PairingState::expire_if_stale`. -/
def expireIfStale (s : PairingState) (now : UInt64) : Bool × PairingState :=
  match s with
  | offering i expiresAtMs wrong =>
    if now > expiresAtMs then (true, idle) else (false, offering i expiresAtMs wrong)
  | s => (false, s)

/-- `PairingState::lookup`. -/
def lookup [Blake3] (s : PairingState) (tag : Tag) (now : UInt64) : LookupOutcome × PairingState :=
  match (s.expireIfStale now).2 with
  | offering i expiresAtMs wrong =>
    if i.answers tag then (.offer i.offer, offering i expiresAtMs wrong)
    else if wrong + 1 ≥ maxLookupAttempts then (.refuse, idle)
    else (.refuse, offering i expiresAtMs (wrong + 1))
  | s => (.refuse, s)

/-- `PairingState::answer_accept`: the state is taken out before its variant is known, so every
failure leaves `idle`. The clock is read twice. -/
def answerAccept [Blake3] (s : PairingState) (accept : PairingAccept) (now now' : UInt64) :
    Except PairingError PairingConfirm × PairingState :=
  match s with
  | offering i expiresAtMs _ =>
    if now > expiresAtMs then (.error .expired, idle)
    else
      match i.accept accept now' with
      | .ok (confirm, awaiting) => (.ok confirm, proving awaiting)
      | .error _ => (.error .failed, idle)
  | _ => (.error .notInProgress, idle)

/-- `PairingState::finish`: here too the state is taken out first. -/
def finish (s : PairingState) (finish : PairingFinish) :
    Except PairingError PairedDevice × PairingState :=
  match s with
  | proving awaiting => ((awaiting.verify finish).mapError failed, idle)
  | _ => (.error .notInProgress, idle)

/-- `PairingState::cancel`. -/
def cancel (_ : PairingState) : PairingState := idle

/-! ## What each operation can do -/

section
variable [Blake3]

theorem begin_eq_ok {s s' : PairingState} {identity : DeviceIdentity} {label : String}
    {platform : Platform} {addresses : List CandidateAddress} {now : UInt64} {nonceA : Nonce}
    {code : PairingCode} {r : PairingCode × UInt64}
    (h : s.begin identity label platform addresses now nonceA code = (.ok r, s')) :
    s = idle ∧
      r = (code, (PairingInitiator.create identity label platform addresses now nonceA
        code).offer.expiresAtMs) ∧
      s' = offering (.create identity label platform addresses now nonceA code) r.2 0 := by
  unfold begin at h
  split at h
  next => cases h
  next hb =>
    cases h
    exact ⟨by simpa [isBusy] using hb, rfl, rfl⟩

theorem begin_eq_error {s s' : PairingState} {identity : DeviceIdentity} {label : String}
    {platform : Platform} {addresses : List CandidateAddress} {now : UInt64} {nonceA : Nonce}
    {code : PairingCode} {e : PairingError}
    (h : s.begin identity label platform addresses now nonceA code = (.error e, s')) :
    s ≠ idle ∧ e = .alreadyInProgress ∧ s' = s := by
  unfold begin at h
  split at h
  next hb =>
    cases h
    exact ⟨by simpa [isBusy] using hb, rfl, rfl⟩
  next => cases h

omit [Blake3] in
theorem beginAnswering_cases (s : PairingState) :
    s = idle ∧ s.beginAnswering = (.ok (), answering) ∨
      s ≠ idle ∧ s.beginAnswering = (.error .alreadyInProgress, s) := by
  by_cases h : s = idle <;> simp [beginAnswering, isBusy, h]

omit [Blake3] in
/-- Only an offer past its time is dropped. -/
theorem expireIfStale_cases (s : PairingState) (now : UInt64) :
    (∃ i e w, s = offering i e w ∧ now > e ∧ s.expireIfStale now = (true, idle)) ∨
      (∀ i e w, s = offering i e w → now ≤ e) ∧ s.expireIfStale now = (false, s) := by
  cases s with
  | offering i e w =>
    by_cases h : now > e
    · exact .inl ⟨i, e, w, rfl, h, by simp [expireIfStale, h]⟩
    · refine .inr ⟨fun i' e' w' he => ?_, by simp [expireIfStale, h]⟩
      cases he
      exact UInt64.not_lt.1 h
  | idle | proving | answering => exact .inr ⟨by simp, rfl⟩

/-- A lookup hands out the offer in time and for the right tag only; a wrong tag is counted. -/
theorem lookup_cases (s : PairingState) (tag : Tag) (now : UInt64) :
    (∃ i e w, s = offering i e w ∧ now ≤ e ∧ i.answers tag = true ∧
        s.lookup tag now = (.offer i.offer, s)) ∨
      (∃ i e w, s = offering i e w ∧ now ≤ e ∧ i.answers tag = false ∧
        w + 1 < maxLookupAttempts ∧ s.lookup tag now = (.refuse, offering i e (w + 1))) ∨
      (∃ i e w, s = offering i e w ∧ now ≤ e ∧ i.answers tag = false ∧
        maxLookupAttempts ≤ w + 1 ∧ s.lookup tag now = (.refuse, idle)) ∨
      (∃ i e w, s = offering i e w ∧ now > e ∧ s.lookup tag now = (.refuse, idle)) ∨
      (∀ i e w, s ≠ offering i e w) ∧ s.lookup tag now = (.refuse, s) := by
  cases s with
  | offering i e w =>
    by_cases hn : now > e
    · refine .inr (.inr (.inr (.inl ⟨i, e, w, rfl, hn, ?_⟩)))
      simp [lookup, expireIfStale, hn]
    · have hle := UInt64.not_lt.1 hn
      cases ht : i.answers tag with
      | true => exact .inl ⟨i, e, w, rfl, hle, ht, by simp [lookup, expireIfStale, hn, ht]⟩
      | false =>
        by_cases hw : w + 1 ≥ maxLookupAttempts
        · refine .inr (.inr (.inl ⟨i, e, w, rfl, hle, ht, hw, ?_⟩))
          simp [lookup, expireIfStale, hn, ht, hw]
        · refine .inr (.inl ⟨i, e, w, rfl, hle, ht, by omega, ?_⟩)
          simp [lookup, expireIfStale, hn, ht, hw]
  | idle | proving | answering => exact .inr (.inr (.inr (.inr ⟨by simp, rfl⟩)))

/-- An accept is answered by an offer in time only, and every other call leaves `idle`. -/
theorem answerAccept_cases (s : PairingState) (accept : PairingAccept) (now now' : UInt64) :
    (∃ i e w confirm awaiting, s = offering i e w ∧ now ≤ e ∧
        i.accept accept now' = .ok (confirm, awaiting) ∧
        s.answerAccept accept now now' = (.ok confirm, proving awaiting)) ∨
      (∃ i e w err, s = offering i e w ∧ s.answerAccept accept now now' = (.error err, idle)) ∨
      (∀ i e w, s ≠ offering i e w) ∧
        s.answerAccept accept now now' = (.error .notInProgress, idle) := by
  cases s with
  | offering i e w =>
    by_cases hn : now > e
    · exact .inr (.inl ⟨i, e, w, .expired, rfl, by simp [answerAccept, hn]⟩)
    · cases ha : i.accept accept now' with
      | error err => exact .inr (.inl ⟨i, e, w, .failed, rfl, by simp [answerAccept, hn, ha]⟩)
      | ok r =>
        exact .inl ⟨i, e, w, r.1, r.2, rfl, UInt64.not_lt.1 hn, ha,
          by simp [answerAccept, hn, ha]⟩
  | idle | proving | answering => exact .inr (.inr ⟨by simp, rfl⟩)

omit [Blake3] in
/-- A proof is looked at in `proving` only, and every call leaves `idle`. -/
theorem finish_cases (s : PairingState) (f : PairingFinish) :
    (∃ awaiting, s = proving awaiting ∧ f.mac = awaiting.expected ∧
        s.finish f = (.ok awaiting.peer, idle)) ∨
      (∃ awaiting, s = proving awaiting ∧ f.mac ≠ awaiting.expected ∧
        s.finish f = (.error .failed, idle)) ∨
      (∀ awaiting, s ≠ proving awaiting) ∧ s.finish f = (.error .notInProgress, idle) := by
  cases s with
  | proving awaiting =>
    by_cases h : f.mac = awaiting.expected
    · exact .inl ⟨awaiting, rfl, h,
        by simp [finish, PairingAwaitingProof.verify, h, Except.mapError]⟩
    · exact .inr (.inl ⟨awaiting, rfl, h,
        by simp [finish, PairingAwaitingProof.verify, h, Except.mapError, failed]⟩)
  | idle | offering | answering => exact .inr (.inr ⟨by simp, rfl⟩)

/-- A lookup leaves a state that holds no offer as it is. -/
theorem lookup_eq_of_not_offering {s s' : PairingState} {tag : Tag} {now : UInt64}
    {r : LookupOutcome} (h : s.lookup tag now = (r, s')) (hs : ∀ i e w, s' ≠ offering i e w)
    (hi : s' ≠ idle) : s' = s := by
  rcases lookup_cases s tag now with ⟨i, e, w, rfl, -, -, hl⟩ | ⟨i, e, w, -, -, -, -, hl⟩ |
    ⟨i, e, w, -, -, -, -, hl⟩ | ⟨i, e, w, -, -, hl⟩ | ⟨-, hl⟩
  all_goals
    rw [h] at hl
    cases hl
  · rfl
  · exact absurd rfl (hs _ _ _)
  · exact absurd rfl hi
  · exact absurd rfl hi
  · rfl

theorem answerAccept_eq_ok {s s' : PairingState} {accept : PairingAccept} {now now' : UInt64}
    {confirm : PairingConfirm} (h : s.answerAccept accept now now' = (.ok confirm, s')) :
    (∃ i e w, s = offering i e w) ∧ ∃ awaiting, s' = proving awaiting := by
  rcases answerAccept_cases s accept now now' with
    ⟨i, e, w, confirm', awaiting, hs, -, -, hr⟩ | ⟨i, e, w, err, -, hr⟩ | ⟨-, hr⟩
  all_goals
    rw [h] at hr
    cases hr
  exact ⟨⟨i, e, w, hs⟩, awaiting, rfl⟩

theorem answerAccept_eq_error {s s' : PairingState} {accept : PairingAccept} {now now' : UInt64}
    {err : PairingError} (h : s.answerAccept accept now now' = (.error err, s')) : s' = idle := by
  rcases answerAccept_cases s accept now now' with
    ⟨i, e, w, confirm', awaiting, hs, -, -, hr⟩ | ⟨i, e, w, err', -, hr⟩ | ⟨-, hr⟩
  all_goals
    rw [h] at hr
    cases hr
  · rfl
  · rfl

omit [Blake3] in
theorem finish_snd (s : PairingState) (f : PairingFinish) : (s.finish f).2 = idle := by
  cases s <;> rfl

omit [Blake3] in
theorem finish_eq {s s' : PairingState} {f : PairingFinish} {r : Except PairingError PairedDevice}
    (h : s.finish f = (r, s')) : s' = idle := by
  rw [← finish_snd s f, h]

omit [Blake3] in
theorem finish_eq_ok {s s' : PairingState} {f : PairingFinish} {peer : PairedDevice}
    (h : s.finish f = (.ok peer, s')) : ∃ awaiting, s = proving awaiting := by
  rcases finish_cases s f with ⟨awaiting, hs, -, hr⟩ | ⟨awaiting, -, -, hr⟩ | ⟨-, hr⟩
  all_goals
    rw [h] at hr
    cases hr
  exact ⟨awaiting, hs⟩

omit [Blake3] in
theorem expireIfStale_snd (s : PairingState) (now : UInt64) :
    (s.expireIfStale now).2 = s ∨ (s.expireIfStale now).2 = idle := by
  rcases expireIfStale_cases s now with ⟨i, e, w, -, -, hr⟩ | ⟨-, hr⟩ <;> simp [hr]

end

end PairingState
end Clipse
