import Clipse.Core.Hash
import Clipse.Lib.Chunks

/-!
# Chunked transfer (`clipse-sync/src/chunk.rs`)

A payload too big to inline goes over in chunks of one size, the last one possibly shorter. The
sender asks a `ChunkSource` which bytes a chunk covers; a `ChunkReceiver` takes chunks in any order
and gives the payload back only if it has the digest that was promised. `usize` is the 64-bit one,
and arithmetic wraps where it overflows.
-/

namespace Clipse

/-- `MAX_BLOB_BYTES`, 512 MiB. -/
def maxBlobBytes : UInt64 := 536870912

inductive ChunkError where
  | tooLarge (size : UInt64)
  | zeroChunkSize
  | outOfRange (index total : UInt32)
  | wrongLength (index : UInt32) (got expected : Nat)
  | incomplete (missing : UInt32)
  | digestMismatch
deriving DecidableEq

/-- `Range<usize>`. -/
structure ByteRange where
  start : UInt64
  stop : UInt64
deriving DecidableEq

/-- `Range::len`. -/
def ByteRange.len (r : ByteRange) : Nat := r.stop.toNat - r.start.toNat

/-- `ChunkSource`; its fields are private, so only `new` builds one. -/
structure ChunkSource where
  size : UInt64
  chunkBytes : UInt64
  chunkBytes_ne : chunkBytes ≠ 0
  size_le : size ≤ maxBlobBytes
deriving DecidableEq

namespace ChunkSource

/-- `ChunkSource::new`. -/
def new (size chunkBytes : UInt64) : Except ChunkError ChunkSource :=
  if hc : chunkBytes = 0 then .error .zeroChunkSize
  else if hs : maxBlobBytes < size then .error (.tooLarge size)
  else .ok { size, chunkBytes, chunkBytes_ne := hc, size_le := UInt64.not_lt.1 hs }

/-- `u64::div_ceil`. -/
def divCeil (a b : UInt64) : UInt64 := if 0 < a % b then a / b + 1 else a / b

/-- `ChunkSource::total_chunks`. -/
def totalChunks (s : ChunkSource) : UInt32 :=
  if s.size = 0 then 0 else (divCeil s.size s.chunkBytes).toUInt32

/-- `ChunkSource::range`. -/
def range (s : ChunkSource) (index : UInt32) : Option ByteRange :=
  if s.totalChunks ≤ index then none
  else
    let start := index.toUInt64 * s.chunkBytes
    some { start, stop := min (start + s.chunkBytes) s.size }

/-! ## What a range is -/

variable {s : ChunkSource}

theorem chunkBytes_pos (s : ChunkSource) : 0 < s.chunkBytes.toNat := by
  refine Nat.pos_of_ne_zero fun h => s.chunkBytes_ne ?_
  exact UInt64.toNat_inj.1 h

theorem size_toNat_le (s : ChunkSource) : s.size.toNat ≤ 2 ^ 29 :=
  UInt64.le_iff_toNat_le.1 s.size_le

theorem toNat_divCeil {a b : UInt64} (hb : 0 < b.toNat) (ha : a.toNat < 2 ^ 63) :
    (divCeil a b).toNat = (a.toNat + b.toNat - 1) / b.toNat := by
  have hdiv := Nat.div_add_mod a.toNat b.toNat
  have hmod := Nat.mod_lt a.toNat hb
  have hle := Nat.div_le_self a.toNat b.toNat
  rw [Nat.mul_comm] at hdiv
  by_cases hr : 0 < a % b
  · have hpos : 0 < a.toNat % b.toNat := by
      rw [← UInt64.toNat_mod]
      exact UInt64.lt_iff_toNat_lt.1 hr
    rw [divCeil, if_pos hr, UInt64.toNat_add, UInt64.toNat_div, UInt64.toNat_one,
      Nat.mod_eq_of_lt (by omega)]
    refine (Nat.div_eq_of_lt_le ?_ ?_).symm
    · rw [Nat.succ_mul]
      omega
    · rw [Nat.succ_mul, Nat.succ_mul]
      omega
  · have hzero : a.toNat % b.toNat = 0 := by
      rw [← UInt64.toNat_mod]
      exact Nat.eq_zero_of_not_pos fun h => hr (UInt64.lt_iff_toNat_lt.2 h)
    rw [divCeil, if_neg hr, UInt64.toNat_div]
    refine (Nat.div_eq_of_lt_le ?_ ?_).symm
    · omega
    · rw [Nat.succ_mul]
      omega

/-- The chunks of a transfer are as many as the pieces of a list of its size. -/
theorem toNat_totalChunks (s : ChunkSource) :
    s.totalChunks.toNat = (s.size.toNat + s.chunkBytes.toNat - 1) / s.chunkBytes.toNat := by
  have hpos := s.chunkBytes_pos
  have hsize := s.size_toNat_le
  rw [totalChunks]
  split
  · rename_i h
    rw [h]
    exact (Nat.div_eq_of_lt (by rw [UInt64.toNat_zero]; omega)).symm
  · have hle : (s.size.toNat + s.chunkBytes.toNat - 1) / s.chunkBytes.toNat ≤ s.size.toNat := by
      have hmul : s.size.toNat ≤ s.size.toNat * s.chunkBytes.toNat := Nat.le_mul_of_pos_right _ hpos
      refine Nat.le_of_lt_succ ((Nat.div_lt_iff_lt_mul hpos).2 ?_)
      rw [Nat.succ_mul]
      omega
    rw [UInt64.toNat_toUInt32, toNat_divCeil hpos (by omega), Nat.mod_eq_of_lt (by omega)]

/-- Where a chunk starts is inside the payload. -/
theorem mul_lt_size {index : UInt32} (h : index < s.totalChunks) :
    index.toNat * s.chunkBytes.toNat < s.size.toNat := by
  have hlt := UInt32.lt_iff_toNat_lt.1 h
  rw [toNat_totalChunks] at hlt
  have hle := (Nat.le_div_iff_mul_le s.chunkBytes_pos).1 hlt
  rw [Nat.succ_mul] at hle
  have hpos := s.chunkBytes_pos
  omega

/-- **No overflow**: neither the product nor the sum that `range` computes wraps. -/
theorem add_lt_of_lt {index : UInt32} (h : index < s.totalChunks) :
    index.toNat * s.chunkBytes.toNat + s.chunkBytes.toNat < 2 ^ 64 := by
  have hlt := mul_lt_size h
  have hsize := s.size_toNat_le
  have hword := s.chunkBytes.toNat_lt
  rcases Nat.eq_zero_or_pos index.toNat with hzero | hpos
  · rw [hzero, Nat.zero_mul, Nat.zero_add]
    exact hword
  · -- past the first chunk a chunk is smaller than the payload
    have hle : s.chunkBytes.toNat ≤ index.toNat * s.chunkBytes.toNat :=
      Nat.le_mul_of_pos_left _ hpos
    omega

theorem range_eq_none {index : UInt32} : s.range index = none ↔ s.totalChunks ≤ index := by
  rw [range]
  split <;> simp_all

/-- **The bytes a chunk covers**, in numbers that do not wrap. -/
theorem range_eq_some {index : UInt32} {r : ByteRange} (h : s.range index = some r) :
    index < s.totalChunks ∧ r.start.toNat = index.toNat * s.chunkBytes.toNat ∧
      r.stop.toNat =
        min (index.toNat * s.chunkBytes.toNat + s.chunkBytes.toNat) s.size.toNat := by
  rw [range] at h
  split at h
  · simp at h
  · rename_i hn
    have hlt : index < s.totalChunks := UInt32.not_le.1 hn
    have hadd := add_lt_of_lt hlt
    obtain rfl := Option.some.inj h
    have hstart : (index.toUInt64 * s.chunkBytes).toNat =
        index.toNat * s.chunkBytes.toNat := by
      rw [UInt64.toNat_mul, UInt32.toNat_toUInt64, Nat.mod_eq_of_lt (by omega)]
    have hsum : (index.toUInt64 * s.chunkBytes + s.chunkBytes).toNat =
        index.toNat * s.chunkBytes.toNat + s.chunkBytes.toNat := by
      rw [UInt64.toNat_add, hstart, Nat.mod_eq_of_lt hadd]
    refine ⟨hlt, hstart, ?_⟩
    show (if _ ≤ _ then _ else _ : UInt64).toNat = _
    split
    · rename_i hle
      rw [Nat.min_eq_left (by rw [← hsum]; exact UInt64.le_iff_toNat_le.1 hle), hsum]
    · rename_i hle
      have hlt := UInt64.lt_iff_toNat_lt.1 (UInt64.not_le.1 hle)
      rw [Nat.min_eq_right (by rw [← hsum]; omega)]

/-- A chunk is as long as that piece of any payload of the size. -/
theorem len_range {index : UInt32} {r : ByteRange} (h : s.range index = some r) {blob : Bytes}
    (hb : blob.length = s.size.toNat) :
    r.len =
      ((blob.drop (index.toNat * s.chunkBytes.toNat)).take s.chunkBytes.toNat).length := by
  obtain ⟨-, hstart, hstop⟩ := range_eq_some h
  rw [ByteRange.len, hstart, hstop, List.length_piece, hb]
  omega

theorem start_le {index : UInt32} {r : ByteRange} (h : s.range index = some r) :
    r.start.toNat + r.len ≤ s.size.toNat := by
  obtain ⟨hlt, hstart, hstop⟩ := range_eq_some h
  have hinside := mul_lt_size hlt
  rw [ByteRange.len, hstart, hstop]
  omega

end ChunkSource

/-- `ChunkReceiver`: what has arrived lies at its place in the buffer, the rest is zero. -/
structure ChunkReceiver where
  digest : ContentHash
  source : ChunkSource
  buffer : Bytes
  received : List Bool
  length_buffer : buffer.length = source.size.toNat
  length_received : received.length = source.totalChunks.toNat
deriving DecidableEq

namespace ChunkReceiver

/-- `ChunkReceiver::new`. -/
def new (digest : ContentHash) (size chunkBytes : UInt64) : Except ChunkError ChunkReceiver := do
  let source ← ChunkSource.new size chunkBytes
  return {
    digest, source
    buffer := List.replicate source.size.toNat 0
    received := List.replicate source.totalChunks.toNat false
    length_buffer := List.length_replicate
    length_received := List.length_replicate }

/-- `total_chunks`. -/
def totalChunks (r : ChunkReceiver) : UInt32 := r.source.totalChunks

/-- `received_chunks`. -/
def receivedChunks (r : ChunkReceiver) : UInt32 := UInt32.ofNat (r.received.countP (· = true))

/-- `is_complete`. -/
def isComplete (r : ChunkReceiver) : Bool := r.received.all (· = true)

/-- `resume_from`. -/
def resumeFrom (r : ChunkReceiver) : UInt32 :=
  UInt32.ofNat ((r.received.findIdx? (· = false)).getD r.received.length)

/-- What `accept` does with a chunk of the right length. -/
def store (r : ChunkReceiver) (index : UInt32) (bytes : Bytes) (range : ByteRange)
    (hr : r.source.range index = some range) (hl : bytes.length = range.len) : ChunkReceiver where
  digest := r.digest
  source := r.source
  buffer := r.buffer.splice range.start.toNat bytes
  received := r.received.set index.toNat true
  length_buffer := by
    have hle := ChunkSource.start_le hr
    rw [List.length_splice (by rw [hl, r.length_buffer]; exact hle), r.length_buffer]
  length_received := by rw [List.length_set, r.length_received]

/-- `accept`. -/
def accept (r : ChunkReceiver) (index : UInt32) (bytes : Bytes) :
    Except ChunkError Unit × ChunkReceiver :=
  match hr : r.source.range index with
  | none => (.error (.outOfRange index r.source.totalChunks), r)
  | some range =>
    if hl : bytes.length = range.len then (.ok (), r.store index bytes range hr hl)
    else (.error (.wrongLength index bytes.length range.len), r)

/-- `finish`. -/
def finish [Blake3] (r : ChunkReceiver) : Except ChunkError Bytes :=
  let missing := UInt32.ofNat (r.received.countP (· = false))
  if 0 < missing then .error (.incomplete missing)
  else if ContentHash.of r.buffer ≠ r.digest then .error .digestMismatch
  else .ok r.buffer

end ChunkReceiver
end Clipse
