import Clipse.Ipc.Codec
import Clipse.Net.Proof.Framing

/-!
# Frames survive the stream (`clipse-ipc/src/codec.rs`)

Wherever a stream of frames breaks off, the reader gets the frames that were written whole and no
other, and then an error (`readAll_of_prefix`).
-/

namespace Clipse
namespace Ipc

section
variable {F : Type} [FrameCodec F] {frame : F} {bytes stream part rest : Bytes}

theorem maxFrameBytes_lt : maxFrameBytes < 2 ^ 32 := by decide

/-- What `write_frame` writes: the encoding behind its length. -/
theorem writeFrame_eq_ok (h : writeFrame frame = .ok bytes) :
    ∃ body, FrameCodec.toVec frame = some body ∧ body.length ≤ maxFrameBytes ∧
      bytes = le32 body.length ++ body := by
  unfold writeFrame at h
  cases hbody : FrameCodec.toVec frame with
  | none =>
    rw [hbody] at h
    cases h
  | some body =>
    rw [hbody] at h
    by_cases h₁ : 2 ^ 32 ≤ body.length
    · simp only [Clipse.writeFrame, h₁, ↓reduceIte, reduceCtorEq] at h
    · by_cases h₂ : maxFrameBytes < body.length
      · simp only [Clipse.writeFrame, h₁, h₂, ↓reduceIte, reduceCtorEq] at h
      · simp only [Clipse.writeFrame, h₁, h₂, ↓reduceIte, Except.ok.injEq] at h
        exact ⟨body, rfl, not_lt.1 h₂, h.symm⟩

/-- A frame is read back, whatever comes after it. -/
theorem readFrame_append (h : writeFrame frame = .ok bytes) :
    readFrame (bytes ++ rest) = (.ok frame, rest) := by
  obtain ⟨body, hbody, hlen, rfl⟩ := writeFrame_eq_ok h
  have hsize : ofLe32 (le32 body.length) = body.length :=
    ofLe32_le32 (lt_of_le_of_lt hlen maxFrameBytes_lt)
  have h₄ : ¬ (le32 body.length ++ body ++ rest).length < 4 := by
    simp only [List.length_append, length_le32]
    omega
  have htake : (le32 body.length ++ body ++ rest).take 4 = le32 body.length := by
    rw [List.append_assoc]
    exact List.take_left' (length_le32 _)
  have hdrop : (le32 body.length ++ body ++ rest).drop 4 = body ++ rest := by
    rw [List.append_assoc]
    exact List.drop_left' (length_le32 _)
  have hrest : ¬ (body ++ rest).length < body.length := by
    rw [List.length_append]
    omega
  simp only [readFrame, h₄, htake, hdrop, hsize, not_lt.2 hlen, hrest, ↓reduceIte,
    List.take_left, List.drop_left, FrameCodec.fromSlice_toVec hbody]

/-- A frame that breaks off is not read. -/
theorem readFrame_of_prefix (h : writeFrame frame = .ok bytes) (hp : part <+: bytes)
    (hne : part ≠ bytes) :
    (readFrame part : Except FrameError F × Bytes) =
      (.error (if part.length < 4 then .closed else .io), []) := by
  obtain ⟨body, -, hlen, rfl⟩ := writeFrame_eq_ok h
  by_cases h₄ : part.length < 4
  · simp only [readFrame, h₄, ↓reduceIte]
  · have hsize : ofLe32 (le32 body.length) = body.length :=
      ofLe32_le32 (lt_of_le_of_lt hlen maxFrameBytes_lt)
    have hlt : part.length < 4 + body.length := by
      have hle := hp.length_le
      rw [List.length_append, length_le32] at hle
      refine lt_of_le_of_ne hle fun he => hne (hp.eq_of_length ?_)
      rw [he, List.length_append, length_le32]
    have htake : part.take 4 = le32 body.length := by
      have hpre := List.prefix_iff_eq_take.1 hp
      rw [hpre, List.take_take, Nat.min_eq_left (not_lt.1 h₄)]
      exact List.take_left' (length_le32 _)
    have hrest : (part.drop 4).length < body.length := by
      rw [List.length_drop]
      omega
    simp only [readFrame, h₄, htake, hsize, not_lt.2 hlen, hrest, ↓reduceIte]

theorem readAll_ok (h : readFrame stream = (.ok frame, rest)) :
    readAll stream = (frame :: (readAll rest).1, (readAll rest : List F × FrameError).2) := by
  rw [readAll]
  split
  · next frame' rest' he =>
    obtain ⟨hf, rfl⟩ := Prod.mk.inj (he.symm.trans h)
    obtain rfl := Except.ok.inj hf
    rfl
  · next e rest' he =>
    cases he.symm.trans h

theorem readAll_error {e : FrameError}
    (h : (readFrame stream : Except FrameError F × Bytes) = (.error e, rest)) :
    (readAll stream : List F × FrameError) = ([], e) := by
  rw [readAll]
  split
  · next frame' rest' he =>
    cases he.symm.trans h
  · next e' rest' he =>
    obtain ⟨hf, -⟩ := Prod.mk.inj (he.symm.trans h)
    obtain rfl := Except.error.inj hf
    rfl

/-- The frames are written one after the other, as these bytes. -/
def Written : List F → List Bytes → Prop := List.Forall₂ fun frame bytes => writeFrame frame = .ok bytes

/-- **Wherever the stream breaks off**, the reader has the frames that came whole, and the error says
whether it was in a frame or before the next one's length was there. -/
theorem readAll_of_prefix {frames : List F} {chunks : List Bytes} (h : Written frames chunks)
    (hp : stream <+: chunks.flatten) :
    ∃ n part, n ≤ frames.length ∧ stream = (chunks.take n).flatten ++ part ∧
      (∀ next, chunks[n]? = some next → part <+: next ∧ part ≠ next) ∧
      (chunks[n]? = none → part = []) ∧
      readAll stream = (frames.take n, if part.length < 4 then .closed else .io) := by
  induction h generalizing stream with
  | nil =>
    obtain rfl := List.prefix_nil.1 hp
    have hread : (readFrame [] : Except FrameError F × Bytes) = (.error .closed, []) := rfl
    exact ⟨0, [], le_refl _, rfl, fun next hn => (by cases hn), fun _ => rfl, readAll_error hread⟩
  | @cons frame bytes frames chunks hw _ ih =>
    rw [List.flatten_cons] at hp
    by_cases hle : bytes.length ≤ stream.length
    · -- the first frame came whole
      obtain ⟨tail, htail⟩ := List.prefix_of_prefix_length_le (List.prefix_append _ _) hp hle
      subst htail
      have hp' : tail <+: chunks.flatten := (List.prefix_append_right_inj bytes).1 hp
      obtain ⟨n, part, hn, he, hnext, hend, hread⟩ := ih hp'
      refine ⟨n + 1, part, by simpa using hn, ?_, hnext, hend, ?_⟩
      · rw [List.take_succ_cons, List.flatten_cons, List.append_assoc, ← he]
      · rw [readAll_ok (readFrame_append hw), hread]
        rfl
    · have hpart : stream <+: bytes :=
        List.prefix_of_prefix_length_le hp (List.prefix_append _ _) (le_of_not_ge hle)
      have hne : stream ≠ bytes := fun he => hle (he ▸ le_refl _)
      refine ⟨0, stream, Nat.zero_le _, rfl, fun next hn => ?_, fun hn => (by cases hn),
        readAll_error <| readFrame_of_prefix hw hpart hne⟩
      obtain rfl : bytes = next := Option.some.inj hn
      exact ⟨hpart, hne⟩

end

/-! ## Two pages -/

/-- A page with the id of its request. -/
def packPage (page : UInt64 × HistoryResponse) : Bytes := MessagePack.packResponse page.1 page.2

/-- Two empty pages. -/
def emptyPages : Table packPage := ⟨[(1, .clips []), (2, .clips [])], by decide⟩

/-- As they are written. -/
def writtenPages : List Bytes := emptyPages.rows.map fun page =>
  le32 (packPage page).length ++ packPage page

local instance pageCodec : FrameCodec (UInt64 × HistoryResponse) := .ofTable emptyPages

/-- The stream breaks off after forty bytes. -/
theorem readAll_of_prefix_pages : ∃ n part, n ≤ 2 ∧
    writtenPages.flatten.take 40 = (writtenPages.take n).flatten ++ part ∧
    readAll (writtenPages.flatten.take 40) =
      (emptyPages.rows.take n, if part.length < 4 then FrameError.closed else .io) := by
  have hw : Written emptyPages.rows writtenPages := .cons rfl (.cons rfl .nil)
  obtain ⟨n, part, hn, he, -, -, hread⟩ := readAll_of_prefix hw (List.take_prefix 40 _)
  exact ⟨n, part, hn, he, hread⟩

end Ipc
end Clipse
