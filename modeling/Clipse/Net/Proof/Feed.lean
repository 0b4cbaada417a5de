import Clipse.Net.Proof.Rekey
import Clipse.Net.Proof.Size

/-!
# Any sequence of messages through one decoder

The frames of messages that are encoded one after the other, fed to one decoder: each message comes
out at the last of its own frames, and leaves nothing behind (`framing_round_trip`).
-/

namespace Clipse

section
variable [Snow] [MessagePack]

/-- Encode messages in order: the frames of each. -/
def encodeAll (s : SecureSession) :
    List SyncMessage → Except LinkError (List (List Bytes) × SecureSession)
  | [] => .ok ([], s)
  | m :: messages => do
    let (frames, s) ← encode s m
    let (rest, s) ← encodeAll s messages
    return (frames :: rest, s)

/-- Feed frames to a decoder: what each returns, and what is pending after it. -/
def Decoder.feed (d : Decoder) (s : SecureSession) :
    List Bytes → Except LinkError (List (Option SyncMessage × Nat) × Decoder × SecureSession)
  | [] => .ok ([], d, s)
  | frame :: frames => do
    let (message, d, s) ← d.accept s frame
    let (rest, d', s) ← d.feed s frames
    return ((message, d.pending) :: rest, d', s)

/-- Every message was returned at the last of its own frames and at no other, with nothing pending
there. -/
def Delivered : List SyncMessage → List (List Bytes) → List (Option SyncMessage × Nat) → Prop
  | [], [], outs => outs = []
  | m :: messages, frames :: rest, outs =>
    ∃ before after, outs = before ++ (some m, 0) :: after ∧ before.length + 1 = frames.length ∧
      (∀ out ∈ before, out.1 = none) ∧ Delivered messages rest after
  | _, _, _ => False

variable {N : Noise} {out inn : N.Key} {sealed opened : Nat} {sizes : List Nat}
  {s : SecureSession} {d : Decoder}

theorem Decoder.feed_cons {frame : Bytes} {frames : List Bytes} {message : Option SyncMessage}
    {d₁ d₂ : Decoder} {s₁ s₂ : SecureSession} {outs : List (Option SyncMessage × Nat)}
    (h : d.accept s frame = .ok (message, d₁, s₁)) (hfeed : d₁.feed s₁ frames = .ok (outs, d₂, s₂)) :
    d.feed s (frame :: frames) = .ok ((message, d₁.pending) :: outs, d₂, s₂) := by
  unfold feed
  simp only [bind, Except.bind, h, hfeed]
  rfl

theorem Decoder.feed_append {frames frames' : List Bytes} {d₁ d₂ : Decoder}
    {s₁ s₂ : SecureSession} {outs outs' : List (Option SyncMessage × Nat)}
    (h : d.feed s frames = .ok (outs, d₁, s₁)) (h' : d₁.feed s₁ frames' = .ok (outs', d₂, s₂)) :
    d.feed s (frames ++ frames') = .ok (outs ++ outs', d₂, s₂) := by
  induction frames generalizing d s outs with
  | nil =>
    cases h
    exact h'
  | cons frame frames ih =>
    unfold feed at h
    obtain ⟨⟨message, d₀, s₀⟩, hacc, h⟩ := bind_eq_ok.1 h
    obtain ⟨⟨rest, d', s'⟩, hrest, h⟩ := bind_eq_ok.1 h
    cases h
    exact feed_cons hacc (ih hrest)

/-! ## The frames of one message -/

/-- The segments that are left of a message, down to the last one. -/
theorem feed_segments {m : SyncMessage} {body : Bytes} (hb : MessagePack.toVec m = some body)
    (hlen : body.length ≤ maxMessageBytes) {ps : List Bytes} (hps : ps ≠ [])
    (hne : ∀ p ∈ ps, p ≠ []) (hp : ∀ p ∈ ps, frameSize p ≤ maxNoiseMessage)
    (hbuf : d.buffer ++ ps.flatten = prefixed body)
    (h : s.Tracks N out inn sealed opened sizes) (hf : Fits (sizes ++ ps.map frameSize)) :
    ∃ before s', d.feed s (N.encryptFrom inn opened ps) =
        .ok (before ++ [(some m, 0)], { buffer := [] }, s') ∧
      before.length + 1 = ps.length ∧ (∀ o ∈ before, o.1 = none) ∧
      s'.Tracks N out inn sealed (opened + ps.length) (sizes ++ ps.map frameSize) := by
  induction ps generalizing d s opened sizes with
  | nil => exact absurd rfl hps
  | cons p ps ih =>
    rw [List.map_cons] at hf ⊢
    have hr := hf.room
    have hpp := hp p List.mem_cons_self
    rw [List.append_cons] at hf ⊢
    rw [List.flatten_cons, ← List.append_assoc] at hbuf
    cases ps with
    | nil =>
      rw [List.flatten_nil, List.append_nil] at hbuf
      obtain ⟨s', hacc, h'⟩ := Decoder.accept_last hlen hpp h hr hb hbuf
      refine ⟨[], s', Decoder.feed_cons hacc rfl, rfl, List.forall_mem_nil _, ?_⟩
      rw [List.map_nil, List.append_nil]
      exact h'
    | cons q ps =>
      have hrest : (q :: ps).flatten ≠ [] := by
        rw [List.flatten_cons]
        exact List.append_ne_nil_of_left_ne_nil (hne q (by simp)) _
      obtain ⟨s₁, hacc, h₁⟩ := Decoder.accept_part hlen hpp h hr hbuf hrest
      obtain ⟨before, s', hfeed, hcount, hnone, h'⟩ := ih (d := { buffer := d.buffer ++ p })
        (List.cons_ne_nil _ _) (fun p' hp' => hne p' (List.mem_cons_of_mem _ hp'))
        (fun p' hp' => hp p' (List.mem_cons_of_mem _ hp')) hbuf h₁ hf
      refine ⟨_ :: before, s', Decoder.feed_cons hacc hfeed, ?_, ?_, ?_⟩
      · simp [hcount]
      · exact List.forall_mem_cons.2 ⟨rfl, hnone⟩
      · rw [List.length_cons, Nat.add_comm (q :: ps).length, ← Nat.add_assoc]
        exact h'

omit [MessagePack] in
theorem length_le_of_mem_encryptFrom {key : N.Key} {n : Nat} {ps : List Bytes} {frame : Bytes}
    (hp : ∀ p ∈ ps, frameSize p ≤ maxNoiseMessage) (hf : frame ∈ N.encryptFrom key n ps) :
    frame.length ≤ maxNoiseMessage := by
  induction ps generalizing n with
  | nil => cases hf
  | cons p ps ih =>
    rcases List.mem_cons.1 hf with rfl | hf
    · rw [N.length_encrypt]
      exact hp p List.mem_cons_self
    · exact ih (fun q hq => hp q (List.mem_cons_of_mem _ hq)) hf

omit [MessagePack] in
theorem length_encryptFrom (key : N.Key) (n : Nat) (ps : List Bytes) :
    (N.encryptFrom key n ps).length = ps.length := by
  induction ps generalizing n with
  | nil => rfl
  | cons p ps ih => simp [Noise.encryptFrom, ih]

/-- The frames of one message, fed to a decoder that holds nothing. -/
theorem feed_message {m : SyncMessage} (hm : Sendable m)
    (h : s.Tracks N out inn sealed opened sizes) (hf : Fits (sizes ++ itemSizes (.msg m))) :
    ∃ before s', Decoder.feed { buffer := [] } s (N.encryptFrom inn opened (segments (.msg m))) =
        .ok (before ++ [(some m, 0)], { buffer := [] }, s') ∧
      before.length + 1 = (segments (.msg m)).length ∧ (∀ o ∈ before, o.1 = none) ∧
      s'.Tracks N out inn sealed (opened + (segments (.msg m)).length)
        (sizes ++ itemSizes (.msg m)) := by
  obtain ⟨body, hb, hlen⟩ := hm
  have hseg := segments_msg hb
  have hpos : 0 < segmentBytes := by decide
  refine feed_segments hb hlen ?_ (fun p hp => ?_) (fun p hp => frameSize_le hp) ?_ h hf
  · rw [hseg]
    exact List.chunks_ne_nil hpos (List.cons_ne_nil _ _)
  · rw [hseg] at hp
    exact List.ne_nil_of_mem_chunks hpos hp
  · rw [hseg, List.flatten_chunks hpos, List.nil_append]

/-! ## All messages -/

/-- **The framing round trip**: if the sessions are in step and the frames fit both, everything that
is encoded is delivered, and no frame is longer than a Noise message. -/
theorem framing_round_trip {messages : List SyncMessage} {a b : SecureSession}
    {key keyA keyB : N.Key} {n k l : Nat} {sizesA sizesB : List Nat}
    (hm : ∀ m ∈ messages, Sendable m) (ha : a.Tracks N key keyA n k sizesA)
    (hb : b.Tracks N keyB key l n sizesB)
    (hfa : Fits (sizesA ++ messages.flatMap fun m => itemSizes (.msg m)))
    (hfb : Fits (sizesB ++ messages.flatMap fun m => itemSizes (.msg m))) :
    ∃ frames a' outs b', encodeAll a messages = .ok (frames, a') ∧
      Decoder.feed { buffer := [] } b frames.flatten = .ok (outs, { buffer := [] }, b') ∧
      Delivered messages frames outs ∧ ∀ frame ∈ frames.flatten, frame.length ≤ maxNoiseMessage := by
  induction messages generalizing a b n sizesA sizesB with
  | nil => exact ⟨[], a, [], b, rfl, rfl, rfl, List.forall_mem_nil _⟩
  | cons m messages ih =>
    obtain ⟨hmm, hm⟩ := List.forall_mem_cons.1 hm
    rw [List.flatMap_cons, ← List.append_assoc] at hfa hfb
    obtain ⟨a₁, henc, ha₁⟩ := encode_eq ha hmm hfa.of_append
    obtain ⟨before, b₁, hfeed, hcount, hnone, hb₁⟩ := feed_message hmm hb hfb.of_append
    obtain ⟨frames, a', outs, b', hencs, hfeeds, hdel, hlen⟩ := ih hm ha₁ hb₁ hfa hfb
    refine ⟨N.encryptFrom key n (segments (.msg m)) :: frames, a', (before ++ [(some m, 0)]) ++ outs, b', ?_, ?_, ?_, ?_⟩
    · unfold encodeAll
      simp only [bind, Except.bind, henc, hencs]
      rfl
    · exact Decoder.feed_append hfeed hfeeds
    · refine ⟨before, outs, by simp, ?_, hnone, hdel⟩
      rw [length_encryptFrom]
      exact hcount
    · rw [List.flatten_cons, List.forall_mem_append]
      exact ⟨fun f hf => length_le_of_mem_encryptFrom (fun p hp => frameSize_le hp) hf, hlen⟩

end

/-! ## A worked sequence -/

theorem MessagePack.length_pack_want (hashes : List ContentHash) :
    (pack (.want hashes)).length = 14 + seqSize hashes.length + hashes.length * 66 := by
  have hsum : (hashes.map fun h => (packHash h).length).sum = hashes.length * 66 := by
    simp only [length_packHash, List.map_const', List.sum_replicate, smul_eq_mul]
  simp only [pack, fields, length_packVariant, length_packFields, length_packSeq, hsum,
    List.map_cons, List.map_nil, List.sum_cons, List.sum_nil]
  have hname : strSize (SyncMessage.want hashes).variantName = 5 := rfl
  have hfield : strSize "hashes" = 7 := rfl
  omega

/-- A request for a thousand clips, which takes two segments. -/
def longWant : SyncMessage := .want (.replicate 1000 largestHash)

theorem length_longWant : (MessagePack.pack longWant).length = 66017 := by
  rw [longWant, MessagePack.length_pack_want, List.length_replicate]
  rfl

/-- The long one between two short ones. -/
def threeMessages : Table MessagePack.pack where
  rows := [.summary [] true, longWant, .want []]
  nodup := by
    refine List.Nodup.of_map List.length ?_
    simp only [List.map_cons, List.map_nil, length_longWant]
    decide +kernel

section
attribute [local instance] Snow.counting

@[reducible] def MessagePack.three : MessagePack := .ofTable threeMessages

attribute [local instance] MessagePack.three

theorem length_three : ∀ m ∈ threeMessages.rows, (MessagePack.pack m).length ≤ 100000 := by
  simp only [threeMessages, List.forall_mem_cons, length_longWant]
  decide +kernel

/-- The three from the laptop to the phone: the second one takes two frames. -/
theorem framing_round_trip_three :
    (segments (.msg longWant)).length = 2 ∧
      ∃ frames a' outs b', encodeAll laptopEnd threeMessages.rows = .ok (frames, a') ∧
      Decoder.feed { buffer := [] } phoneEnd frames.flatten = .ok (outs, { buffer := [] }, b') ∧
      Delivered threeMessages.rows frames outs ∧
      ∀ frame ∈ frames.flatten, frame.length ≤ maxNoiseMessage := by
  constructor
  · have hlong : MessagePack.toVec longWant = some (MessagePack.pack longWant) :=
      if_pos (by simp [threeMessages])
    rw [segments_msg hlong, List.chunks, List.length_map, List.length_range, length_prefixed,
      length_longWant]
    decide
  · obtain ⟨k, k', hk, hk'⟩ := handshaken_laptop_phone.carried Noise.counting
    have hfits : Fits ([] ++ threeMessages.rows.flatMap fun m => itemSizes (.msg m)) := by
      have hlog : frameSizes (threeMessages.rows.map .sent) =
          threeMessages.rows.flatMap fun m => itemSizes (.msg m) := List.flatMap_map ..
      rw [List.nil_append, ← hlog]
      refine fits_of_segments (k := 2) (fun t ht => ?_) (by rw [List.length_map]; decide)
      obtain ⟨m, -, rfl⟩ := List.mem_map.1 ht
      exact length_segments_ofTable length_three m
    exact framing_round_trip (fun m hm => sendable_ofTable length_three hm) hk.session hk'.session
      hfits hfits

end
end Clipse
