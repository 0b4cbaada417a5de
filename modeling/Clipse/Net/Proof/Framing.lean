import Clipse.Crypto.Proof.Transport
import Clipse.Lib.Protocol
import Clipse.Net.PeerLink

/-!
# What travels as which frames

`segments` are the pieces of a message or a blob, and `frameSizes` the sizes of all frames of an
end's traffic, both ways. A link that has carried such traffic and still fits the next item seals
it (`Carried.sealMessage`, `Carried.sealBlob`) and reads it back (`Carried.accept_part`,
`Carried.accept_last`, `Carried.recvBlob`); one that does not fit it fails with `rekeyRequired`.
-/

namespace Clipse

open Duplex

/-! ## Lengths in front -/

theorem length_le32 (n : Nat) : (le32 n).length = 4 := rfl

theorem ofLe32_le32 {n : Nat} (h : n < 2 ^ 32) : ofLe32 (le32 n) = n := by
  have hb : ∀ i, (UInt8.ofNat (n / 256 ^ i % 256)).toNat = n / 256 ^ i % 256 := by
    intro i
    rw [UInt8.toNat_ofNat']
    omega
  show (UInt8.ofNat (n / 256 ^ 0 % 256)).toNat + 256 * ((UInt8.ofNat (n / 256 ^ 1 % 256)).toNat +
    256 * ((UInt8.ofNat (n / 256 ^ 2 % 256)).toNat +
      256 * ((UInt8.ofNat (n / 256 ^ 3 % 256)).toNat + 256 * 0))) = n
  rw [hb, hb, hb, hb]
  omega

theorem length_prefixed (body : Bytes) : (prefixed body).length = 4 + body.length := by
  rw [prefixed, List.length_append, length_le32]

section
variable [MessagePack]

/-- A message is sent: it has an encoding, which is not too large. -/
def Sendable (m : SyncMessage) : Prop :=
  ∃ body, MessagePack.toVec m = some body ∧ body.length ≤ maxMessageBytes

/-- The pieces that are sealed for an item. -/
def segments : Item SyncMessage Bytes → List Bytes
  | .msg m =>
    match MessagePack.toVec m with
    | some body => (prefixed body).chunks segmentBytes
    | none => []
  | .stream bytes => bytes.chunks blobSegmentBytes

theorem segments_msg {m : SyncMessage} {body : Bytes} (h : MessagePack.toVec m = some body) :
    segments (.msg m) = (prefixed body).chunks segmentBytes := by
  simp only [segments, h]

/-- The sizes of the frames of an item. -/
def itemSizes (i : Item SyncMessage Bytes) : List Nat := (segments i).map frameSize

theorem itemSizes_stream (b : Bytes) : itemSizes (.stream b) =
    (List.range ((b.length + blobSegmentBytes - 1) / blobSegmentBytes)).map
      fun i => min blobSegmentBytes (b.length - i * blobSegmentBytes) + tagLen := by
  have hmap : itemSizes (.stream b) =
      ((b.chunks blobSegmentBytes).map List.length).map (· + tagLen) := by
    rw [List.map_map]
    rfl
  rw [hmap, List.map_length_chunks, List.map_map]
  rfl

/-- The item of one piece of traffic. -/
def itemOf : Traffic SyncMessage Bytes → Item SyncMessage Bytes
  | .sent m | .received m => .msg m
  | .sentStream b | .receivedStream b => .stream b

/-- The sizes of all frames that an end has sent and received, in order. -/
def frameSizes (log : List (Traffic SyncMessage Bytes)) : List Nat :=
  log.flatMap fun t => itemSizes (itemOf t)

theorem frameSizes_append (log log' : List (Traffic SyncMessage Bytes)) :
    frameSizes (log ++ log') = frameSizes log ++ frameSizes log' := List.flatMap_append

theorem frameSizes_snoc (log : List (Traffic SyncMessage Bytes)) (t : Traffic SyncMessage Bytes) :
    frameSizes (log ++ [t]) = frameSizes log ++ itemSizes (itemOf t) := by
  rw [frameSizes_append]
  exact congrArg (frameSizes log ++ ·) (List.flatMap_singleton _ t)

/-- Every segment fits into a Noise message. -/
theorem frameSize_le {i : Item SyncMessage Bytes} {p : Bytes} (h : p ∈ segments i) :
    frameSize p ≤ maxNoiseMessage := by
  have hlen : p.length ≤ segmentBytes := by
    unfold segments at h
    split at h
    · split at h
      · exact List.length_le_of_mem_chunks h
      · cases h
    · exact (List.length_le_of_mem_chunks h).trans (by decide)
  have hb : p.length ≤ 60000 := hlen
  show p.length + 16 ≤ 65535
  omega

/-! ## Counting segments -/

/-- A message takes no more segments than its encoding, if it has one, has room for. -/
theorem length_segments_msg_le {m : SyncMessage} {k : Nat}
    (h : ∀ body, MessagePack.toVec m = some body → (prefixed body).length ≤ k * segmentBytes) :
    (segments (.msg m)).length ≤ k := by
  cases hb : MessagePack.toVec m with
  | none =>
    simp only [segments, hb]
    exact Nat.zero_le k
  | some body =>
    rw [segments_msg hb]
    exact List.length_chunks_le (by decide) (h body hb)

theorem length_segments_stream_le {b : Bytes} {k : Nat} (h : b.length ≤ k * blobSegmentBytes) :
    (segments (.stream b)).length ≤ k := List.length_chunks_le (by decide) h

theorem length_frameSizes_le {log : List (Traffic SyncMessage Bytes)} {k : Nat}
    (h : ∀ t ∈ log, (segments (itemOf t)).length ≤ k) :
    (frameSizes log).length ≤ k * log.length := by
  induction log with
  | nil => exact Nat.le_refl 0
  | cons t log ih =>
    have ht : (itemSizes (itemOf t)).length ≤ k := by
      rw [itemSizes, List.length_map]
      exact h t List.mem_cons_self
    have hlog := ih fun t' ht' => h t' (List.mem_cons_of_mem _ ht')
    show (itemSizes (itemOf t) ++ frameSizes log).length ≤ k * (log.length + 1)
    rw [List.length_append, Nat.mul_add, Nat.mul_one]
    omega

/-- **A thousand segments fit.** -/
theorem fits_of_segments {log : List (Traffic SyncMessage Bytes)} {k : Nat}
    (h : ∀ t ∈ log, (segments (itemOf t)).length ≤ k) (hlen : k * log.length ≤ 1000) :
    Fits (frameSizes log) := by
  have hle := (length_frameSizes_le h).trans hlen
  have hsize : ∀ n ∈ frameSizes log, n ≤ 65535 := by
    intro n hn
    obtain ⟨t, -, hn⟩ := List.mem_flatMap.1 hn
    obtain ⟨p, hp, rfl⟩ := List.mem_map.1 hn
    exact frameSize_le hp
  have hsum : (frameSizes log).sum ≤ (frameSizes log).length * 65535 :=
    List.sum_le_card_nsmul _ _ hsize
  have hdrop : (frameSizes log).dropLast.sum ≤ (frameSizes log).sum :=
    (List.dropLast_sublist _).sum_le_sum fun _ _ => Nat.zero_le _
  show (frameSizes log).length ≤ 10000 ∧ (frameSizes log).dropLast.sum < 67108864
  omega

end

section
variable [Snow] {N : Noise} {out inn : N.Key} {sealed opened : Nat} {sizes : List Nat}

/-! ## Sealing -/

namespace SecureSession

variable {s : SecureSession}

theorem Tracks.writeAll {ps : List Bytes} (h : s.Tracks N out inn sealed opened sizes)
    (hp : ∀ p ∈ ps, frameSize p ≤ maxNoiseMessage) (hf : Fits (sizes ++ ps.map frameSize)) :
    ∃ s', s.writeAll ps = .ok (N.encryptFrom out sealed ps, s') ∧
      s'.Tracks N out inn (sealed + ps.length) opened (sizes ++ ps.map frameSize) := by
  induction ps generalizing s sealed sizes with
  | nil =>
    rw [List.map_nil, List.append_nil]
    exact ⟨s, rfl, h⟩
  | cons p ps ih =>
    rw [List.map_cons] at hf ⊢
    obtain ⟨s₁, hw, h₁⟩ := h.writeMessage hf.room (hp p List.mem_cons_self)
    rw [List.append_cons] at hf ⊢
    obtain ⟨s₂, hw₂, h₂⟩ := ih h₁ (fun q hq => hp q (List.mem_cons_of_mem _ hq)) hf
    refine ⟨s₂, ?_, ?_⟩
    · rw [SecureSession.writeAll, hw]
      simp only [bind, Except.bind, hw₂]
      rfl
    · rw [List.length_cons, Nat.add_comm ps.length, ← Nat.add_assoc]
      exact h₂

theorem Tracks.writeAll_error {ps : List Bytes} (h : s.Tracks N out inn sealed opened sizes)
    (hp : ∀ p ∈ ps, frameSize p ≤ maxNoiseMessage) (hf : ¬ Fits (sizes ++ ps.map frameSize)) :
    s.writeAll ps = .error .rekeyRequired := by
  induction ps generalizing s sealed sizes with
  | nil =>
    rw [List.map_nil, List.append_nil] at hf
    exact absurd h.fits hf
  | cons p ps ih =>
    rw [SecureSession.writeAll]
    by_cases hr : Room sizes
    · obtain ⟨s₁, hw, h₁⟩ := h.writeMessage hr (hp p List.mem_cons_self)
      rw [List.map_cons, List.append_cons] at hf
      rw [hw]
      simp only [bind, Except.bind, ih h₁ (fun q hq => hp q (List.mem_cons_of_mem _ hq)) hf]
    · rw [h.writeMessage_error hr]
      rfl

end SecureSession

variable [MessagePack]

/-! ## Encoding -/

theorem encode_eq {s : SecureSession} {m : SyncMessage} (h : s.Tracks N out inn sealed opened sizes)
    (hm : Sendable m) (hf : Fits (sizes ++ itemSizes (.msg m))) :
    ∃ s', encode s m = .ok (N.encryptFrom out sealed (segments (.msg m)), s') ∧
      s'.Tracks N out inn (sealed + (segments (.msg m)).length) opened
        (sizes ++ itemSizes (.msg m)) := by
  obtain ⟨body, hb, hlen⟩ := hm
  obtain ⟨s', hw, h'⟩ := h.writeAll (fun p hp => frameSize_le hp) hf
  refine ⟨s', ?_, h'⟩
  unfold encode
  rw [segments_msg hb] at hw ⊢
  simp only [hb, not_lt.2 hlen, ↓reduceIte, hw]
  rfl

/-! ## Reassembly -/

namespace Decoder

variable {s : SecureSession} {d : Decoder} {body p : Bytes}

section
variable (hlen : body.length ≤ maxMessageBytes) (hp : frameSize p ≤ maxNoiseMessage)
  (h : s.Tracks N out inn sealed opened sizes) (hr : Room sizes)
include hlen hp h hr

/-- A segment with more to come. -/
theorem accept_part {rest : Bytes} (hbuf : d.buffer ++ p ++ rest = prefixed body)
    (hrest : rest ≠ []) :
    ∃ s', d.accept s (N.encrypt inn opened p) = .ok (none, { buffer := d.buffer ++ p }, s') ∧
      s'.Tracks N out inn sealed (opened + 1) (sizes ++ [frameSize p]) := by
  obtain ⟨s', hread, h'⟩ := h.readMessage hr hp
  refine ⟨s', ?_, h'⟩
  have hpos := List.length_pos_iff.2 hrest
  have htotal := congrArg List.length hbuf
  rw [List.length_append, length_prefixed] at htotal
  unfold accept
  simp only [bind, Except.bind, hread, Except.mapError, expectedLen]
  by_cases h4 : (d.buffer ++ p).length < 4
  · simp only [h4, ↓reduceIte]
    rfl
  · have hhead : (d.buffer ++ p).take 4 = le32 body.length := by
      have ht := congrArg (List.take 4) hbuf
      rw [List.take_append_of_le_length (not_lt.1 h4)] at ht
      exact ht
    have hlt : (d.buffer ++ p).length < 4 + body.length := by omega
    have hb32 : body.length < 2 ^ 32 := lt_of_le_of_lt hlen (by decide)
    simp only [h4, ↓reduceIte, hhead, ofLe32_le32 hb32, not_lt.2 hlen, hlt]
    rfl

/-- The last segment of a message. -/
theorem accept_last {m : SyncMessage} (hb : MessagePack.toVec m = some body)
    (hbuf : d.buffer ++ p = prefixed body) :
    ∃ s', d.accept s (N.encrypt inn opened p) = .ok (some m, { buffer := [] }, s') ∧
      s'.Tracks N out inn sealed (opened + 1) (sizes ++ [frameSize p]) := by
  obtain ⟨s', hread, h'⟩ := h.readMessage hr hp
  refine ⟨s', ?_, h'⟩
  have hb32 : body.length < 2 ^ 32 := lt_of_le_of_lt hlen (by decide)
  have hlt : ¬ (prefixed body).length < 4 := by
    rw [length_prefixed]
    omega
  have hlt' : ¬ (prefixed body).length < 4 + body.length := by
    rw [length_prefixed]
    omega
  have hdrop : (prefixed body).drop 4 = body := rfl
  have hnil : (prefixed body).drop (4 + body.length) = [] := by
    rw [List.drop_eq_nil_iff, length_prefixed]
  unfold accept
  simp only [bind, Except.bind, hread, Except.mapError, expectedLen, hbuf]
  simp only [hlt, ↓reduceIte, show (prefixed body).take 4 = le32 body.length from rfl,
    ofLe32_le32 hb32, not_lt.2 hlen, hlt', hdrop, List.take_length, hnil,
    MessagePack.fromSlice_toVec hb]
  rfl

end

end Decoder

/-! ## A link -/

namespace PeerLink

/-- A link that has carried frames of these sizes, between two messages. -/
structure Carried (N : Noise) (out inn : N.Key) (sealed opened : Nat) (sizes : List Nat)
    (link : PeerLink) : Prop where
  session : link.session.Tracks N out inn sealed opened sizes
  buffer : link.decoder.buffer = []

variable {link : PeerLink}

theorem Carried.sealMessage {m : SyncMessage} (h : link.Carried N out inn sealed opened sizes)
    (hm : Sendable m) (hf : Fits (sizes ++ itemSizes (.msg m))) :
    ∃ link', link.sealMessage m = .ok (N.encryptFrom out sealed (segments (.msg m)), link') ∧
      link'.Carried N out inn (sealed + (segments (.msg m)).length) opened
        (sizes ++ itemSizes (.msg m)) := by
  obtain ⟨s', henc, h'⟩ := encode_eq h.session hm hf
  refine ⟨{ link with session := s' }, ?_, h', h.buffer⟩
  unfold PeerLink.sealMessage
  rw [henc]
  rfl

theorem Carried.sealMessage_error {m : SyncMessage} (h : link.Carried N out inn sealed opened sizes)
    (hm : Sendable m) (hf : ¬ Fits (sizes ++ itemSizes (.msg m))) :
    link.sealMessage m = .error (.crypto .rekeyRequired) := by
  obtain ⟨body, hb, hlen⟩ := hm
  have hw := h.session.writeAll_error (fun p hp => frameSize_le hp) hf
  unfold PeerLink.sealMessage encode
  rw [segments_msg hb] at hw
  simp only [hb, not_lt.2 hlen, ↓reduceIte, hw]
  rfl

theorem Carried.sealBlob {b : Bytes} (h : link.Carried N out inn sealed opened sizes)
    (hf : Fits (sizes ++ itemSizes (.stream b))) :
    ∃ link', link.sealBlob b = .ok (N.encryptFrom out sealed (segments (.stream b)), link') ∧
      link'.Carried N out inn (sealed + (segments (.stream b)).length) opened
        (sizes ++ itemSizes (.stream b)) := by
  obtain ⟨s', hw, h'⟩ := h.session.writeAll (fun p hp => frameSize_le hp) hf
  refine ⟨{ link with session := s' }, ?_, h', h.buffer⟩
  unfold PeerLink.sealBlob
  unfold segments at hw ⊢
  rw [hw]
  rfl

theorem Carried.sealBlob_error {b : Bytes} (h : link.Carried N out inn sealed opened sizes)
    (hf : ¬ Fits (sizes ++ itemSizes (.stream b))) :
    link.sealBlob b = .error (.crypto .rekeyRequired) := by
  have hw := h.session.writeAll_error (fun p hp => frameSize_le hp) hf
  unfold segments at hw
  unfold PeerLink.sealBlob
  rw [hw]
  rfl

omit [MessagePack] in
theorem readFrame_encrypt {key : N.Key} {n : Nat} {p : Bytes} (hp : frameSize p ≤ maxNoiseMessage) :
    readFrame (N.encrypt key n p) = .ok (N.encrypt key n p) := by
  have hlen : ¬ maxFrameBytes < (N.encrypt key n p).length := by
    rw [N.length_encrypt]
    exact not_lt.2 hp
  unfold readFrame
  rw [if_neg hlen]

theorem accept_error {p : Bytes} (h : link.session.Tracks N out inn sealed opened sizes)
    (hr : ¬ Room sizes) (hp : frameSize p ≤ maxNoiseMessage) :
    link.accept (N.encrypt inn opened p) = .error (.crypto .rekeyRequired) := by
  unfold accept Decoder.accept
  simp only [bind, Except.bind, readFrame_encrypt hp, h.readMessage_error hr, Except.mapError]

section
variable {body p : Bytes} (hlen : body.length ≤ maxMessageBytes)
  (hp : frameSize p ≤ maxNoiseMessage) (h : link.session.Tracks N out inn sealed opened sizes)
  (hr : Room sizes)
include hlen hp h hr

/-- A segment with more to come. -/
theorem accept_part {rest : Bytes} (hbuf : link.decoder.buffer ++ p ++ rest = prefixed body)
    (hrest : rest ≠ []) :
    ∃ s', link.accept (N.encrypt inn opened p) =
        .ok (none, { session := s', decoder := { buffer := link.decoder.buffer ++ p } }) ∧
      s'.Tracks N out inn sealed (opened + 1) (sizes ++ [frameSize p]) := by
  obtain ⟨s', hacc, h'⟩ := Decoder.accept_part hlen hp h hr hbuf hrest
  refine ⟨s', ?_, h'⟩
  unfold accept
  simp only [bind, Except.bind, readFrame_encrypt hp, hacc]
  rfl

/-- The last segment of a message. -/
theorem accept_last {m : SyncMessage} (hb : MessagePack.toVec m = some body)
    (hbuf : link.decoder.buffer ++ p = prefixed body) :
    ∃ s', link.accept (N.encrypt inn opened p) =
        .ok (some m, { session := s', decoder := { buffer := [] } }) ∧
      s'.Tracks N out inn sealed (opened + 1) (sizes ++ [frameSize p]) := by
  obtain ⟨s', hacc, h'⟩ := Decoder.accept_last hlen hp h hr hb hbuf
  refine ⟨s', ?_, h'⟩
  unfold accept
  simp only [bind, Except.bind, readFrame_encrypt hp, hacc]
  rfl

end

/-! ## Blobs -/

omit [MessagePack] in
theorem recvBlob_frames {ps : List Bytes} (h : link.session.Tracks N out inn sealed opened sizes)
    (hp : ∀ p ∈ ps, frameSize p ≤ maxNoiseMessage) (hf : Fits (sizes ++ ps.map frameSize)) :
    ∃ s', link.recvBlob (N.encryptFrom inn opened ps) =
        .ok (ps.flatten, { link with session := s' }) ∧
      s'.Tracks N out inn sealed (opened + ps.length) (sizes ++ ps.map frameSize) := by
  induction ps generalizing link opened sizes with
  | nil =>
    rw [List.map_nil, List.append_nil]
    exact ⟨link.session, rfl, h⟩
  | cons p ps ih =>
    rw [List.map_cons] at hf ⊢
    obtain ⟨s₁, hread, h₁⟩ := h.readMessage hf.room (hp p List.mem_cons_self)
    rw [List.append_cons] at hf ⊢
    obtain ⟨s₂, hw₂, h₂⟩ := @ih _ _ { link with session := s₁ } h₁
      (fun q hq => hp q (List.mem_cons_of_mem _ hq)) hf
    refine ⟨s₂, ?_, ?_⟩
    · rw [Noise.encryptFrom, recvBlob, readFrame_encrypt (hp p List.mem_cons_self)]
      simp only [bind, Except.bind, hread, Except.mapError, hw₂]
      rfl
    · rw [List.length_cons, Nat.add_comm ps.length, ← Nat.add_assoc]
      exact h₂

omit [MessagePack] in
theorem recvBlob_error {ps : List Bytes} (h : link.session.Tracks N out inn sealed opened sizes)
    (hp : ∀ p ∈ ps, frameSize p ≤ maxNoiseMessage) (hf : ¬ Fits (sizes ++ ps.map frameSize)) :
    link.recvBlob (N.encryptFrom inn opened ps) = .error (.crypto .rekeyRequired) := by
  induction ps generalizing link opened sizes with
  | nil =>
    rw [List.map_nil, List.append_nil] at hf
    exact absurd h.fits hf
  | cons p ps ih =>
    rw [Noise.encryptFrom, recvBlob, readFrame_encrypt (hp p List.mem_cons_self)]
    by_cases hr : Room sizes
    · obtain ⟨s₁, hread, h₁⟩ := h.readMessage hr (hp p List.mem_cons_self)
      rw [List.map_cons, List.append_cons] at hf
      have hrest := @ih _ _ { link with session := s₁ } h₁
        (fun q hq => hp q (List.mem_cons_of_mem _ hq)) hf
      simp only [bind, Except.bind, hread, Except.mapError, hrest]
    · simp only [bind, Except.bind, h.readMessage_error hr, Except.mapError]

theorem Carried.recvBlob {b : Bytes} (h : link.Carried N out inn sealed opened sizes)
    (hf : Fits (sizes ++ itemSizes (.stream b))) :
    ∃ link', link.recvBlob (N.encryptFrom inn opened (segments (.stream b))) = .ok (b, link') ∧
      link'.Carried N out inn sealed (opened + (segments (.stream b)).length)
        (sizes ++ itemSizes (.stream b)) := by
  obtain ⟨s', hw, h'⟩ := recvBlob_frames h.session (fun p hp => frameSize_le hp) hf
  have hb : (segments (.stream b)).flatten = b := List.flatten_chunks (by decide) b
  rw [hb] at hw
  exact ⟨{ link with session := s' }, hw, h', h.buffer⟩

theorem Carried.recvBlob_error {b : Bytes} (h : link.Carried N out inn sealed opened sizes)
    (hf : ¬ Fits (sizes ++ itemSizes (.stream b))) :
    link.recvBlob (N.encryptFrom inn opened (segments (.stream b))) =
      .error (.crypto .rekeyRequired) :=
  PeerLink.recvBlob_error h.session (fun _ hp => frameSize_le hp) hf

end PeerLink

end

end Clipse
