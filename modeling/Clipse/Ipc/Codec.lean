import Clipse.Daemon.History

/-!
# Frames on a stream (`clipse-ipc/src/codec.rs`)

`readFrame` reads the next frame of a stream that holds the given bytes and then ends. How a frame is
encoded is another crate's matter and the parameter `FrameCodec`.
-/

namespace Clipse
namespace Ipc

/-- `rmp_serde` on frames: decoding undoes encoding. -/
class FrameCodec (F : Type) where
  toVec : F → Option Bytes
  fromSlice : Bytes → Option F
  fromSlice_toVec : ∀ {frame body}, toVec frame = some body → fromSlice body = some frame

/-- Frames with different encodings. -/
@[reducible] def FrameCodec.ofTable {F : Type} [DecidableEq F] {pack : F → Bytes}
    (frames : Table pack) : FrameCodec F where
  toVec frame := if frame ∈ frames.rows then some (pack frame) else none
  fromSlice := frames.find?
  fromSlice_toVec := by
    intro frame body h
    split at h
    · next hm =>
      obtain rfl := Option.some.inj h
      exact Table.find?_of_mem hm
    · cases h

/-- `FrameError`. -/
inductive FrameError where
  | io
  | tooLarge (size : Nat)
  | decode
  | encode
  | closed
deriving DecidableEq

section
variable {F : Type} [FrameCodec F]

/-- `write_frame`, of a frame. -/
def writeFrame (frame : F) : Except FrameError Bytes :=
  match FrameCodec.toVec frame with
  | none => .error .encode
  | some body =>
    match Clipse.writeFrame body with
    | .ok bytes => .ok bytes
    | .error (.tooLarge size) => .error (.tooLarge size)

/-- `read_frame`, and what it leaves. -/
def readFrame (stream : Bytes) : Except FrameError F × Bytes :=
  -- an end inside the length counts as the peer's going away
  if stream.length < 4 then (.error .closed, [])
  else
    let size := ofLe32 (stream.take 4)
    let rest := stream.drop 4
    if maxFrameBytes < size then (.error (.tooLarge size), rest)
    else if rest.length < size then (.error .io, [])
    else
      match FrameCodec.fromSlice (rest.take size) with
      | some frame => (.ok frame, rest.drop size)
      | none => (.error .decode, rest.drop size)

theorem length_readFrame {stream rest : Bytes} {frame : F}
    (h : readFrame stream = (.ok frame, rest)) : rest.length < stream.length := by
  by_cases h₄ : stream.length < 4
  · simp [readFrame, h₄] at h
  · have hdrop : (stream.drop 4).length < stream.length := by
      rw [List.length_drop]
      omega
    simp only [readFrame, h₄, ↓reduceIte] at h
    split_ifs at h
    · cases h
    · cases h
    · split at h
      · cases h
        rw [List.length_drop]
        omega
      · cases h

/-- The reader task of `serve_connection`: frames up to the first error. -/
def readAll (stream : Bytes) : List F × FrameError :=
  match hread : (readFrame stream : Except FrameError F × Bytes) with
  | (.ok frame, rest) =>
    have : rest.length < stream.length := length_readFrame hread
    let (frames, e) := readAll rest
    (frame :: frames, e)
  | (.error e, _) => ([], e)
termination_by stream.length

end

end Ipc
end Clipse
