import Clipse.Sync.Chunk

/-!
# Chunked transfer is exact

* `ranges_partition`: the ranges of a source are the pieces of `[0, size)`, in order.
* `Holds`: after any deliveries, the flags of the buffer say which chunks were accepted, and each of
  these chunks lies in the buffer as it was accepted last (`Holds.accept`, `Holds.acceptAll`).
* `chunked_transfer_exact`: so `resume_from` is the first gap, and `finish` gives the payload that
  was delivered or nothing.
-/

namespace Clipse

/-- The offsets of a range. -/
def ByteRange.offsets (r : ByteRange) : List Nat := List.range' r.start.toNat r.len

/-- The bytes that a range covers. -/
def ByteRange.slice (r : ByteRange) (blob : Bytes) : Bytes := (blob.drop r.start.toNat).take r.len

namespace ChunkSource

variable {s : ChunkSource}

/-- The ranges of the indices 0 to `total_chunks - 1`. -/
def ranges (s : ChunkSource) : List ByteRange :=
  (List.range s.totalChunks.toNat).filterMap fun i => s.range (UInt32.ofNat i)

theorem new_eq_ok {size chunkBytes : UInt64} (h : new size chunkBytes = .ok s) :
    s.size = size ∧ s.chunkBytes = chunkBytes := by
  rw [new] at h
  split at h
  · cases h
  · split at h
    · cases h
    · obtain rfl := Except.ok.inj h
      exact ⟨rfl, rfl⟩

theorem exists_range {index : UInt32} (h : index < s.totalChunks) :
    ∃ r, s.range index = some r := by
  rw [← Option.isSome_iff_exists, Option.isSome_iff_ne_none, ne_eq, range_eq_none]
  exact UInt32.not_le.2 h

theorem ofNat_lt {i : Nat} (h : i < s.totalChunks.toNat) :
    UInt32.ofNat i < s.totalChunks ∧ (UInt32.ofNat i).toNat = i := by
  have hword := s.totalChunks.toNat_lt
  have hi : (UInt32.ofNat i).toNat = i := UInt32.toNat_ofNat_of_lt (by
    show i < 4294967296
    omega)
  exact ⟨UInt32.lt_iff_toNat_lt.2 (by rw [hi]; exact h), hi⟩

/-- A range is a piece of the offsets. -/
theorem offsets_eq_piece {index : UInt32} {r : ByteRange} (h : s.range index = some r) :
    r.offsets = ((List.range s.size.toNat).drop (index.toNat * s.chunkBytes.toNat)).take
      s.chunkBytes.toNat := by
  obtain ⟨hlt, hstart, hstop⟩ := range_eq_some h
  rw [ByteRange.offsets, ByteRange.len, hstart, hstop, List.range_eq_range', List.drop_range',
    Nat.mul_one, Nat.zero_add]
  rcases Nat.le_total (s.size.toNat - index.toNat * s.chunkBytes.toNat) s.chunkBytes.toNat
    with hle | hle
  · rw [List.take_range'_of_length_le hle]
    congr 1
    omega
  · rw [List.take_range'_of_length_ge hle]
    congr 1
    omega

theorem slice_eq_piece {index : UInt32} {r : ByteRange} (h : s.range index = some r) {blob : Bytes}
    (hb : blob.length = s.size.toNat) :
    r.slice blob = (blob.drop (index.toNat * s.chunkBytes.toNat)).take s.chunkBytes.toNat := by
  have hlen := len_range h hb
  obtain ⟨-, hstart, -⟩ := range_eq_some h
  rw [ByteRange.slice, hlen, hstart]
  exact (List.prefix_iff_eq_take.1 (List.take_prefix _ _)).symm

/-- **The ranges partition `[0, size)`, in order.** -/
theorem ranges_partition (s : ChunkSource) :
    s.ranges.flatMap ByteRange.offsets = List.range s.size.toNat := by
  have hpieces : s.ranges.map ByteRange.offsets =
      (List.range s.size.toNat).chunks s.chunkBytes.toNat := by
    rw [ranges, List.map_filterMap, List.chunks, List.length_range, ← toNat_totalChunks,
      ← List.filterMap_eq_map]
    refine List.filterMap_congr fun i hi => ?_
    obtain ⟨hlt, heq⟩ := ofNat_lt (List.mem_range.1 hi)
    obtain ⟨r, hr⟩ := exists_range hlt
    rw [hr, Option.map_some, offsets_eq_piece hr, heq]
    rfl
  rw [List.flatMap_def, hpieces, List.flatten_chunks s.chunkBytes_pos]

theorem len_pos {index : UInt32} {r : ByteRange} (h : s.range index = some r) : 0 < r.len := by
  obtain ⟨hlt, hstart, hstop⟩ := range_eq_some h
  have hinside := mul_lt_size hlt
  have hpos := s.chunkBytes_pos
  rw [ByteRange.len, hstart, hstop]
  omega

theorem length_ranges (s : ChunkSource) : s.ranges.length = s.totalChunks.toNat := by
  rw [ranges, List.length_filterMap_eq_countP, List.countP_eq_length.2 fun i hi => ?_,
    List.length_range]
  obtain ⟨hlt, -⟩ := ofNat_lt (List.mem_range.1 hi)
  obtain ⟨r, hr⟩ := exists_range hlt
  rw [hr]
  rfl

theorem len_pos_of_mem {r : ByteRange} (h : r ∈ s.ranges) : 0 < r.len := by
  obtain ⟨i, -, hr⟩ := List.mem_filterMap.1 h
  exact len_pos hr

end ChunkSource

namespace ChunkReceiver

/-- The receiver after a sequence of `accept` calls. -/
def acceptAll (r : ChunkReceiver) (calls : List (UInt32 × Bytes)) : ChunkReceiver :=
  calls.foldl (fun r c => (r.accept c.1 c.2).2) r

/-- Those calls of a sequence that were accepted. -/
def accepted (r : ChunkReceiver) : List (UInt32 × Bytes) → List (UInt32 × Bytes)
  | [] => []
  | c :: calls =>
    match r.accept c.1 c.2 with
    | (.ok _, r) => c :: r.accepted calls
    | (.error _, r) => r.accepted calls

/-- What was delivered last for an index. -/
def lastFor (index : UInt32) (deliveries : List (UInt32 × Bytes)) : Option Bytes :=
  (deliveries.reverse.find? (·.1 = index)).map (·.2)

theorem lastFor_append (index : UInt32) (deliveries : List (UInt32 × Bytes)) (c : UInt32 × Bytes) :
    lastFor index (deliveries ++ [c]) =
      if c.1 = index then some c.2 else lastFor index deliveries := by
  rw [lastFor, List.reverse_append, List.reverse_singleton, List.singleton_append, List.find?_cons]
  by_cases h : c.1 = index
  · rw [if_pos h, decide_eq_true h]
    rfl
  · rw [if_neg h, decide_eq_false h]
    rfl

/-- What an `accept` call does. -/
theorem accept_cases (r : ChunkReceiver) (index : UInt32) (bytes : Bytes) :
    (∃ e, r.accept index bytes = (.error e, r)) ∨
      ∃ range hr hl, r.accept index bytes = (.ok (), r.store index bytes range hr hl) := by
  rw [accept]
  split
  · exact .inl ⟨_, rfl⟩
  · rename_i range hr
    split
    · rename_i hl
      exact .inr ⟨range, hr, hl, rfl⟩
    · exact .inl ⟨_, rfl⟩

/-- What a receiver holds after deliveries that were accepted. -/
structure Holds (r : ChunkReceiver) (accepted : List (UInt32 × Bytes)) : Prop where
  known : ∀ c ∈ accepted, c.1 < r.source.totalChunks
  flags : ∀ index < r.source.totalChunks,
    r.received[index.toNat]? = some (lastFor index accepted).isSome
  pieces : ∀ index bytes, lastFor index accepted = some bytes →
    (r.buffer.drop (index.toNat * r.source.chunkBytes.toNat)).take r.source.chunkBytes.toNat = bytes

variable {r : ChunkReceiver} {deliveries : List (UInt32 × Bytes)}

/-- A new receiver has an empty buffer and no chunk. -/
theorem new_eq_ok {digest : ContentHash} {size chunkBytes : UInt64}
    (h : new digest size chunkBytes = .ok r) :
    ∃ source, ChunkSource.new size chunkBytes = .ok source ∧
      r = {
        digest, source
        buffer := List.replicate source.size.toNat 0
        received := List.replicate source.totalChunks.toNat false
        length_buffer := List.length_replicate
        length_received := List.length_replicate } := by
  cases hs : ChunkSource.new size chunkBytes with
  | error e =>
    rw [new, hs] at h
    cases h
  | ok source =>
    rw [new, hs] at h
    exact ⟨source, rfl, (Except.ok.inj h).symm⟩

theorem Holds.new {digest : ContentHash} {size chunkBytes : UInt64}
    (h : new digest size chunkBytes = .ok r) : r.Holds [] := by
  obtain ⟨source, -, rfl⟩ := new_eq_ok h
  refine ⟨fun c hc => absurd hc List.not_mem_nil, fun index hi => ?_, fun index bytes hb => ?_⟩
  · rw [List.getElem?_replicate, if_pos (UInt32.lt_iff_toNat_lt.1 hi)]
    rfl
  · cases hb

/-- **One chunk.** An accepted chunk becomes the piece of its index, and the others stay. -/
theorem Holds.store {index : UInt32} {bytes : Bytes} {range : ByteRange}
    (h : r.Holds deliveries) (hr : r.source.range index = some range)
    (hl : bytes.length = range.len) :
    (r.store index bytes range hr hl).Holds (deliveries ++ [(index, bytes)]) := by
  obtain ⟨hlt, hstart, -⟩ := ChunkSource.range_eq_some hr
  have hpiece := ChunkSource.len_range hr r.length_buffer
  have hinside : index.toNat * r.source.chunkBytes.toNat ≤ r.buffer.length := by
    rw [r.length_buffer]
    exact (ChunkSource.mul_lt_size hlt).le
  refine ⟨fun c hc => ?_, fun j hj => ?_, fun j b hb => ?_⟩
  · rcases List.mem_append.1 hc with hc | hc
    · exact h.known c hc
    · obtain rfl := List.mem_singleton.1 hc
      exact hlt
  · show (r.received.set index.toNat true)[j.toNat]? = _
    rw [lastFor_append, List.getElem?_set]
    by_cases hij : index = j
    · rw [if_pos hij, if_pos (congrArg UInt32.toNat hij), if_pos (by
        rw [r.length_received]
        exact UInt32.lt_iff_toNat_lt.1 hlt)]
      rfl
    · rw [if_neg hij, if_neg fun he => hij (UInt32.toNat_inj.1 he)]
      exact h.flags j hj
  · show ((r.buffer.splice range.start.toNat bytes).drop
      (j.toNat * r.source.chunkBytes.toNat)).take r.source.chunkBytes.toNat = b
    rw [hstart]
    rw [lastFor_append] at hb
    split at hb
    · rename_i hij
      obtain rfl : index = j := hij
      obtain rfl := Option.some.inj hb
      exact List.piece_splice (hl.trans hpiece) hinside
    · rename_i hij
      rw [List.piece_splice_of_ne (hl.trans hpiece) hinside
        fun he => hij (UInt32.toNat_inj.1 he).symm]
      exact h.pieces j b hb

/-- **Every run.** -/
theorem Holds.acceptAll (h : r.Holds deliveries) (calls : List (UInt32 × Bytes)) :
    (r.acceptAll calls).Holds (deliveries ++ r.accepted calls) := by
  induction calls generalizing r deliveries with
  | nil =>
    rw [accepted, List.append_nil]
    exact h
  | cons c calls ih =>
    rw [ChunkReceiver.acceptAll, List.foldl_cons, accepted]
    rcases r.accept_cases c.1 c.2 with ⟨e, heq⟩ | ⟨range, hr, hl, heq⟩
    · rw [heq]
      exact ih h
    · rw [heq]
      show (List.foldl _ (r.store c.1 c.2 range hr hl) calls).Holds (_ ++ c :: _)
      rw [← List.singleton_append, ← List.append_assoc]
      exact ih (h.store hr hl)

theorem source_acceptAll (r : ChunkReceiver) (calls : List (UInt32 × Bytes)) :
    (r.acceptAll calls).source = r.source ∧ (r.acceptAll calls).digest = r.digest := by
  induction calls generalizing r with
  | nil => exact ⟨rfl, rfl⟩
  | cons c calls ih =>
    rw [acceptAll, List.foldl_cons]
    rcases r.accept_cases c.1 c.2 with ⟨e, heq⟩ | ⟨range, hr, hl, heq⟩
    · rw [heq]
      exact ih r
    · rw [heq]
      exact ih (r.store c.1 c.2 range hr hl)

theorem isSome_lastFor {index : UInt32} :
    (lastFor index deliveries).isSome ↔ ∃ bytes, (index, bytes) ∈ deliveries := by
  rw [lastFor, Option.isSome_map, List.find?_isSome]
  constructor
  · rintro ⟨c, hc, hi⟩
    obtain rfl := of_decide_eq_true hi
    exact ⟨c.2, List.mem_reverse.1 hc⟩
  · rintro ⟨bytes, hb⟩
    exact ⟨_, List.mem_reverse.2 hb, decide_eq_true rfl⟩

/-- The flag of an index that is in range. -/
theorem Holds.flag_iff (h : r.Holds deliveries) {i : Nat} (hi : i < r.received.length) :
    r.received[i] = true ↔ ∃ bytes, (UInt32.ofNat i, bytes) ∈ deliveries := by
  obtain ⟨hlt, heq⟩ := ChunkSource.ofNat_lt (r.length_received ▸ hi)
  have hflag := h.flags _ hlt
  rw [heq, List.getElem?_eq_getElem hi] at hflag
  rw [Option.some.inj hflag, isSome_lastFor]

/-! ## The first gap -/

/-- `resume_from` is the first index that has not been accepted. -/
theorem Holds.resumeFrom (h : r.Holds deliveries) :
    r.resumeFrom ≤ r.source.totalChunks ∧ (∀ bytes, (r.resumeFrom, bytes) ∉ deliveries) ∧
      ∀ index < r.resumeFrom, ∃ bytes, (index, bytes) ∈ deliveries := by
  have hidx : r.resumeFrom = UInt32.ofNat (r.received.findIdx (· = false)) := by
    rw [ChunkReceiver.resumeFrom, ← List.findIdx_eq_getD_findIdx?]
  have hle : r.received.findIdx (· = false) ≤ r.source.totalChunks.toNat := by
    rw [← r.length_received]
    exact List.findIdx_le_length
  have hword := r.source.totalChunks.toNat_lt
  have heq : r.resumeFrom.toNat = r.received.findIdx (· = false) := by
    rw [hidx]
    exact UInt32.toNat_ofNat_of_lt (by
      show _ < 4294967296
      omega)
  refine ⟨UInt32.le_iff_toNat_le.2 (by omega), fun bytes hb => ?_, fun index hi => ?_⟩
  · have hlt := h.known _ hb
    have hin : r.received.findIdx (· = false) < r.received.length := by
      rw [r.length_received, ← heq]
      exact UInt32.lt_iff_toNat_lt.1 hlt
    have hgap := of_decide_eq_true (List.findIdx_getElem (w := hin))
    rw [hidx] at hb
    rw [(h.flag_iff hin).2 ⟨bytes, hb⟩] at hgap
    cases hgap
  · have hi : index.toNat < r.received.findIdx (· = false) :=
      heq ▸ UInt32.lt_iff_toNat_lt.1 hi
    have hin : index.toNat < r.received.length := by
      rw [r.length_received]
      omega
    have hflag : r.received[index.toNat] = true := by
      have := of_decide_eq_false (List.not_of_lt_findIdx hi)
      exact Bool.eq_true_of_not_eq_false this
    obtain ⟨bytes, hb⟩ := (h.flag_iff hin).1 hflag
    rw [UInt32.ofNat_toNat] at hb
    exact ⟨bytes, hb⟩

/-! ## The end of a transfer -/

theorem Holds.countP_eq_zero (h : r.Holds deliveries) :
    r.received.countP (· = false) = 0 ↔
      ∀ index < r.source.totalChunks, ∃ bytes, (index, bytes) ∈ deliveries := by
  rw [List.countP_eq_zero]
  constructor
  · intro hall index hi
    have hin : index.toNat < r.received.length := by
      rw [r.length_received]
      exact UInt32.lt_iff_toNat_lt.1 hi
    have hflag := hall _ (List.getElem_mem hin)
    have htrue : r.received[index.toNat] = true :=
      Bool.eq_true_of_not_eq_false fun hf => hflag (decide_eq_true hf)
    obtain ⟨bytes, hb⟩ := (h.flag_iff hin).1 htrue
    rw [UInt32.ofNat_toNat] at hb
    exact ⟨bytes, hb⟩
  · intro hall flag hf hfalse
    obtain ⟨i, hin, rfl⟩ := List.mem_iff_getElem.1 hf
    obtain ⟨hlt, -⟩ := ChunkSource.ofNat_lt (r.length_received ▸ hin)
    rw [(h.flag_iff hin).2 (hall _ hlt)] at hfalse
    cases of_decide_eq_true hfalse

theorem missing_eq_zero (r : ChunkReceiver) :
    ¬ 0 < UInt32.ofNat (r.received.countP (· = false)) ↔
      r.received.countP (· = false) = 0 := by
  have hle : r.received.countP (· = false) ≤ r.source.totalChunks.toNat := by
    rw [← r.length_received]
    exact List.countP_le_length
  have hword := r.source.totalChunks.toNat_lt
  have heq : (UInt32.ofNat (r.received.countP (· = false))).toNat =
      r.received.countP (· = false) := UInt32.toNat_ofNat_of_lt (by
    show _ < 4294967296
    omega)
  rw [UInt32.lt_iff_toNat_lt, heq, UInt32.toNat_zero]
  omega

/-- What `finish` gives. -/
theorem Holds.finish_eq_ok [Blake3] (h : r.Holds deliveries) {b : Bytes} :
    r.finish = .ok b ↔
      (∀ index < r.source.totalChunks, ∃ bytes, (index, bytes) ∈ deliveries) ∧
        ContentHash.of b = r.digest ∧ b = r.buffer := by
  rw [finish, ← h.countP_eq_zero, ← missing_eq_zero]
  split
  · rename_i hmissing
    exact ⟨fun he => (by cases he), fun hc => absurd hmissing hc.1⟩
  · rename_i hmissing
    split
    · rename_i hne
      refine ⟨fun he => (by cases he), ?_⟩
      rintro ⟨-, hd, rfl⟩
      exact absurd hd hne
    · rename_i heq
      refine ⟨fun he => ?_, fun hc => ?_⟩
      · obtain rfl := Except.ok.inj he
        exact ⟨hmissing, not_not.1 heq, rfl⟩
      · rw [hc.2.2]

/-- A receiver with the right bytes at every index holds the payload. -/
theorem Holds.buffer_eq (h : r.Holds deliveries) {blob : Bytes}
    (hb : blob.length = r.source.size.toNat)
    (hlast : ∀ index range, r.source.range index = some range →
      lastFor index deliveries = some (range.slice blob)) : r.buffer = blob := by
  refine List.eq_of_pieces r.source.chunkBytes_pos (r.length_buffer.trans hb.symm) fun i hi => ?_
  rw [r.length_buffer, ← r.source.toNat_totalChunks] at hi
  obtain ⟨hlt, heq⟩ := ChunkSource.ofNat_lt hi
  obtain ⟨range, hr⟩ := ChunkSource.exists_range hlt
  have hpiece := h.pieces _ _ (hlast _ _ hr)
  rw [ChunkSource.slice_eq_piece hr hb, heq] at hpiece
  exact hpiece

end ChunkReceiver

open ChunkReceiver in
/-- **Chunked transfer is exact.** The ranges partition the payload in order, and none of the
arithmetic wraps. Whatever is delivered to a receiver: a delivery that is rejected changes nothing,
`resume_from` is the first gap, `finish` gives only what is complete and has the digest, and it
gives the payload when the last delivery accepted for each index was the right one. -/
theorem chunked_transfer_exact [Blake3] :
    (∀ (size chunkBytes : UInt64) (s : ChunkSource), ChunkSource.new size chunkBytes = .ok s →
      s.ranges.flatMap ByteRange.offsets = List.range size.toNat ∧
      s.ranges.length = s.totalChunks.toNat ∧ (∀ range ∈ s.ranges, 0 < range.len) ∧
      s.totalChunks.toNat = (size.toNat + chunkBytes.toNat - 1) / chunkBytes.toNat ∧
      ∀ index < s.totalChunks,
        index.toNat * chunkBytes.toNat + chunkBytes.toNat < 2 ^ 64) ∧
    ∀ (digest : ContentHash) (size chunkBytes : UInt64) (r₀ : ChunkReceiver),
      ChunkReceiver.new digest size chunkBytes = .ok r₀ →
      ∀ (calls : List (UInt32 × Bytes)) (r : ChunkReceiver) (deliveries : List (UInt32 × Bytes)),
        r = r₀.acceptAll calls → deliveries = r₀.accepted calls →
        (∀ index bytes e, (r.accept index bytes).1 = .error e → (r.accept index bytes).2 = r) ∧
        (r.resumeFrom ≤ r.totalChunks ∧ (∀ bytes, (r.resumeFrom, bytes) ∉ deliveries) ∧
          ∀ index < r.resumeFrom, ∃ bytes, (index, bytes) ∈ deliveries) ∧
        (∀ b, r.finish = .ok b →
          (∀ index < r.totalChunks, ∃ bytes, (index, bytes) ∈ deliveries) ∧
            ContentHash.of b = digest) ∧
        ∀ blob : Bytes, blob.length = size.toNat → ContentHash.of blob = digest →
          (∀ index range, r.source.range index = some range →
            lastFor index deliveries = some (range.slice blob)) →
          r.finish = .ok blob := by
  refine ⟨fun size chunkBytes s hs => ?_, fun digest size chunkBytes r₀ h₀ calls r deliveries hr hd
    => ?_⟩
  · obtain ⟨rfl, rfl⟩ := ChunkSource.new_eq_ok hs
    exact ⟨s.ranges_partition, s.length_ranges, fun range hr => ChunkSource.len_pos_of_mem hr,
      s.toNat_totalChunks, fun index hi => ChunkSource.add_lt_of_lt hi⟩
  · have holds : r.Holds deliveries := by
      rw [hr, hd, ← List.nil_append (r₀.accepted calls)]
      exact (Holds.new h₀).acceptAll calls
    obtain ⟨source, hsource, rfl⟩ := new_eq_ok h₀
    obtain ⟨hsource', hdigest⟩ := source_acceptAll _ calls
    rw [← hr] at hsource' hdigest
    refine ⟨fun index bytes e he => ?_, holds.resumeFrom, fun b hb => ?_, fun blob hlen hhash hlast
      => ?_⟩
    · rcases r.accept_cases index bytes with ⟨e', heq⟩ | ⟨range, hr, hl, heq⟩
      · rw [heq]
      · rw [heq] at he
        cases he
    · obtain ⟨hall, hhash, -⟩ := holds.finish_eq_ok.1 hb
      exact ⟨hall, hhash.trans hdigest⟩
    · have hsize : blob.length = r.source.size.toNat := by
        rw [hsource', hlen, (ChunkSource.new_eq_ok hsource).1]
      have hall : ∀ index < r.source.totalChunks, ∃ bytes, (index, bytes) ∈ deliveries := by
        intro index hi
        obtain ⟨range, hrange⟩ := ChunkSource.exists_range hi
        exact isSome_lastFor.1 (by rw [hlast index range hrange]; rfl)
      exact holds.finish_eq_ok.2
        ⟨hall, hhash.trans hdigest.symm, (holds.buffer_eq hsize hlast).symm⟩

section

attribute [local instance] Blake3.examples

/-- The text `hi` in chunks of one byte, the second one first and twice, with a chunk that does not
exist in between. -/
theorem chunked_transfer_exact_hi :
    ∃ r₀, ChunkReceiver.new hiDigest 2 1 = .ok r₀ ∧
      (r₀.acceptAll [(1, [0x21]), (5, [0x68]), (1, [0x69]), (0, [0x68])]).finish =
        .ok [0x68, 0x69] := by
  refine ⟨_, rfl, ?_⟩
  obtain ⟨-, hreceiver⟩ := chunked_transfer_exact
  obtain ⟨-, -, -, hfinish⟩ := hreceiver hiDigest 2 1 _ rfl
    [(1, [0x21]), (5, [0x68]), (1, [0x69]), (0, [0x68])] _ _ rfl rfl
  refine hfinish [0x68, 0x69] rfl (by decide) fun index range hr => ?_
  have hlt : index.toNat < 2 := UInt32.lt_iff_toNat_lt.1 (ChunkSource.range_eq_some hr).1
  obtain hi | hi : index.toNat = 0 ∨ index.toNat = 1 := by omega
  · obtain rfl : index = 0 := UInt32.toNat_inj.1 hi
    obtain rfl : (⟨0, 1⟩ : ByteRange) = range := Option.some.inj hr
    decide
  · obtain rfl : index = 1 := UInt32.toNat_inj.1 hi
    obtain rfl : (⟨1, 2⟩ : ByteRange) = range := Option.some.inj hr
    decide

end

end Clipse
