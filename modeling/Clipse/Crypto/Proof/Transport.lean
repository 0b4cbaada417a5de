import Clipse.Crypto.Session
import Mathlib.Algebra.Order.BigOperators.Group.List
import Mathlib.Algebra.GroupWithZero.Nat

/-!
# How much a session carries

Both directions of a session count towards its thresholds, and nothing is sealed or opened once
one of them is reached. `Fits`: that these frames, in this order, are carried without a rekey.

`Noise` says what is relied on of the Noise library. `SecureSession.Tracks` relates a session to the
frames that it has carried; sealing and opening keep it as long as the frames fit
(`Tracks.writeAll`, `Tracks.readMessage`), and are refused otherwise.
-/

namespace Clipse

/-! ## The thresholds -/

/-- Another frame is carried after frames of these sizes. -/
def Room (sizes : List Nat) : Prop :=
  sizes.length < rekeyAfterMessages ∧ sizes.sum < rekeyAfterBytes

/-- Frames of these sizes are carried: each found the thresholds not yet reached. -/
def Fits (sizes : List Nat) : Prop :=
  sizes.length ≤ rekeyAfterMessages ∧ sizes.dropLast.sum < rekeyAfterBytes

theorem fits_nil : Fits [] := ⟨Nat.zero_le _, by decide⟩

theorem fits_snoc {sizes : List Nat} {n : Nat} : Fits (sizes ++ [n]) ↔ Room sizes := by
  unfold Fits Room
  rw [List.length_append, List.length_singleton, List.dropLast_concat]
  exact Iff.rfl

/-- What fits fits as far as it goes. -/
theorem Fits.of_append {sizes sizes' : List Nat} (h : Fits (sizes ++ sizes')) : Fits sizes := by
  induction sizes' using List.reverseRecOn with
  | nil => rwa [List.append_nil] at h
  | append_singleton sizes' n ih =>
    rw [← List.append_assoc, fits_snoc] at h
    refine ih ⟨Nat.le_of_lt h.1, ?_⟩
    calc (sizes ++ sizes').dropLast.sum
        ≤ (sizes ++ sizes').sum := (List.dropLast_sublist _).sum_le_sum fun _ _ => Nat.zero_le _
      _ < rekeyAfterBytes := h.2

theorem Fits.room {sizes sizes' : List Nat} {n : Nat} (h : Fits (sizes ++ n :: sizes')) :
    Room sizes := by
  rw [List.append_cons] at h
  exact fits_snoc.1 h.of_append

section
variable [Snow]

/-! ## What Noise guarantees -/

/-- `MAX_NOISE_MESSAGE`. -/
def maxNoiseMessage : Nat := 65535

/-- Noise transport states: each direction has a key and counts its messages, and what was sealed
opens under the same key and count. The count may not reach `2 ^ 64 - 1`. The two ends of a
completed handshake have the same keys. -/
structure Noise where
  Key : Type
  encrypt : Key → Nat → Bytes → Bytes
  outgoing : Snow.TransportState → Key × Nat
  incoming : Snow.TransportState → Key × Nat
  length_encrypt : ∀ key n p, (encrypt key n p).length = p.length + tagLen
  write : ∀ {s key n p}, outgoing s = (key, n) → n < 2 ^ 64 - 1 →
    p.length + tagLen ≤ maxNoiseMessage → ∃ s', Snow.write s p = some (encrypt key n p, s') ∧
      outgoing s' = (key, n + 1) ∧ incoming s' = incoming s
  read : ∀ {s key n p}, incoming s = (key, n) → n < 2 ^ 64 - 1 →
    p.length + tagLen ≤ maxNoiseMessage → ∃ s', Snow.read s (encrypt key n p) = some (p, s') ∧
      incoming s' = (key, n + 1) ∧ outgoing s' = outgoing s
  handshake : ∀ {secret secret' remote ephemeral ephemeral' i₀ i₁ i₂ r₀ r₁ r₂ m₁ m₂ s s'},
    Snow.buildInitiator secret remote ephemeral = some i₀ →
    Snow.writeHandshake i₀ = some (m₁, i₁) →
    Snow.buildResponder secret' ephemeral' = some r₀ → Snow.readHandshake r₀ m₁ = some r₁ →
    Snow.writeHandshake r₁ = some (m₂, r₂) → Snow.intoTransport r₂ = some s' →
    Snow.readHandshake i₁ m₂ = some i₂ → Snow.intoTransport i₂ = some s →
    outgoing s = incoming s' ∧ outgoing s' = incoming s ∧ (outgoing s).2 = 0 ∧ (outgoing s').2 = 0

variable {N : Noise}

/-- Seal segments under the counts from `n` on. -/
def Noise.encryptFrom (N : Noise) (key : N.Key) : Nat → List Bytes → List Bytes
  | _, [] => []
  | n, p :: ps => N.encrypt key n p :: N.encryptFrom key (n + 1) ps

/-- The size of the frame of a segment. -/
def frameSize (segment : Bytes) : Nat := segment.length + tagLen

/-! ## One session -/

namespace SecureSession

/-- A session that has carried frames of these sizes: so many sealed under one key, so many opened
under the other. -/
structure Tracks (N : Noise) (out inn : N.Key) (sealed opened : Nat) (sizes : List Nat)
    (s : SecureSession) : Prop where
  messages : s.messagesSinceRekey = sizes.length
  bytes : s.bytesSinceRekey = sizes.sum
  outgoing : N.outgoing s.transport = (out, sealed)
  incoming : N.incoming s.transport = (inn, opened)
  count : sealed + opened = sizes.length
  fits : Fits sizes

variable {out inn : N.Key} {sealed opened : Nat} {sizes : List Nat} {s : SecureSession}

theorem Tracks.needsRekey (h : s.Tracks N out inn sealed opened sizes) :
    s.needsRekey = false ↔ Room sizes := by
  unfold SecureSession.needsRekey Room
  rw [h.messages, h.bytes, Bool.or_eq_false_iff, decide_eq_false_iff_not, decide_eq_false_iff_not,
    not_le, not_le]

/-- No direction is ever exhausted. -/
theorem Tracks.lt_exhausted (h : s.Tracks N out inn sealed opened sizes) :
    sealed < 2 ^ 64 - 1 ∧ opened < 2 ^ 64 - 1 := by
  have hc := h.count
  have hf : sizes.length ≤ 10000 := h.fits.1
  omega

/-- Sealing a segment. -/
theorem Tracks.writeMessage {p : Bytes} (h : s.Tracks N out inn sealed opened sizes)
    (hr : Room sizes) (hp : frameSize p ≤ maxNoiseMessage) :
    ∃ s', s.writeMessage p = .ok (N.encrypt out sealed p, s') ∧
      s'.Tracks N out inn (sealed + 1) opened (sizes ++ [frameSize p]) := by
  obtain ⟨t, hw, ho, hi⟩ := N.write h.outgoing h.lt_exhausted.1 hp
  refine ⟨{ s with
      transport := t
      messagesSinceRekey := s.messagesSinceRekey + 1
      bytesSinceRekey := s.bytesSinceRekey + (N.encrypt out sealed p).length }, ?_, ?_⟩
  · unfold SecureSession.writeMessage
    rw [h.needsRekey.2 hr, hw]
    rfl
  · refine ⟨?_, ?_, ho, hi.trans h.incoming, ?_, fits_snoc.2 hr⟩
    · rw [List.length_append, h.messages]
      rfl
    · rw [List.sum_append, List.sum_singleton, h.bytes, N.length_encrypt]
      rfl
    · rw [List.length_append, ← h.count, List.length_singleton]
      omega

theorem Tracks.writeMessage_error {p : Bytes} (h : s.Tracks N out inn sealed opened sizes)
    (hr : ¬ Room sizes) : s.writeMessage p = .error .rekeyRequired := by
  have hn : s.needsRekey = true := by
    rw [← Bool.not_eq_false, h.needsRekey]
    exact hr
  unfold SecureSession.writeMessage
  rw [hn]
  rfl

/-- Opening the frame that is next. -/
theorem Tracks.readMessage {p : Bytes} (h : s.Tracks N out inn sealed opened sizes)
    (hr : Room sizes) (hp : frameSize p ≤ maxNoiseMessage) :
    ∃ s', s.readMessage (N.encrypt inn opened p) = .ok (p, s') ∧
      s'.Tracks N out inn sealed (opened + 1) (sizes ++ [frameSize p]) := by
  obtain ⟨t, hw, hi, ho⟩ := N.read h.incoming h.lt_exhausted.2 hp
  refine ⟨{ s with
      transport := t
      messagesSinceRekey := s.messagesSinceRekey + 1
      bytesSinceRekey := s.bytesSinceRekey + (N.encrypt inn opened p).length }, ?_, ?_⟩
  · unfold SecureSession.readMessage
    rw [h.needsRekey.2 hr, hw]
    rfl
  · refine ⟨?_, ?_, ho.trans h.outgoing, hi, ?_, fits_snoc.2 hr⟩
    · rw [List.length_append, h.messages]
      rfl
    · rw [List.sum_append, List.sum_singleton, h.bytes, N.length_encrypt]
      rfl
    · rw [List.length_append, ← h.count, List.length_singleton]
      omega

theorem Tracks.readMessage_error {frame : Bytes} (h : s.Tracks N out inn sealed opened sizes)
    (hr : ¬ Room sizes) : s.readMessage frame = .error .rekeyRequired := by
  have hn : s.needsRekey = true := by
    rw [← Bool.not_eq_false, h.needsRekey]
    exact hr
  unfold SecureSession.readMessage
  rw [hn]
  rfl

end SecureSession

end

end Clipse
