import Mathlib.Data.List.Basic

/-!
# Chunks of a list

`chunks size l` cuts a list into pieces of `size` elements, the last one possibly shorter. The
pieces are the list again (`flatten_chunks`); none is empty and none is longer than `size`.
`splice` writes over a part of a list: over one piece it leaves the others as they are
(`piece_splice_of_ne`).
-/

namespace List

variable {α : Type}

/-- `l` in pieces of `size` elements. -/
def chunks (size : Nat) (l : List α) : List (List α) :=
  (range ((l.length + size - 1) / size)).map fun i => (l.drop (i * size)).take size

theorem flatten_pieces (size : Nat) (l : List α) (n : Nat) :
    ((range n).map fun i => (l.drop (i * size)).take size).flatten = l.take (n * size) := by
  induction n with
  | zero => simp
  | succ n ih =>
    rw [range_succ, map_append, flatten_append, ih, map_singleton, flatten_singleton,
      Nat.succ_mul, take_add]

theorem le_mul_ceil {n size : Nat} (h : 0 < size) : n ≤ (n + size - 1) / size * size := by
  have hd := Nat.div_add_mod (n + size - 1) size
  have hm := Nat.mod_lt (n + size - 1) h
  rw [Nat.mul_comm] at hd
  omega

/-- **The pieces make up the list.** -/
theorem flatten_chunks {size : Nat} (h : 0 < size) (l : List α) : (l.chunks size).flatten = l := by
  rw [chunks, flatten_pieces, take_of_length_le (le_mul_ceil h)]

theorem chunks_ne_nil {size : Nat} (h : 0 < size) {l : List α} (hl : l ≠ []) :
    l.chunks size ≠ [] := by
  intro hn
  rw [← flatten_chunks h l, hn] at hl
  exact hl rfl

theorem ne_nil_of_mem_chunks {size : Nat} (h : 0 < size) {l c : List α} (hc : c ∈ l.chunks size) :
    c ≠ [] := by
  obtain ⟨i, hi, rfl⟩ := mem_map.1 hc
  have hlt : i * size < l.length := by
    have hle : (i + 1) * size ≤ l.length + size - 1 :=
      (Nat.le_div_iff_mul_le h).1 (mem_range.1 hi)
    rw [Nat.succ_mul] at hle
    omega
  intro hn
  have hlen := congrArg length hn
  rw [length_take, length_drop, length_nil] at hlen
  omega

/-- What is not longer than a piece is one piece. -/
theorem chunks_of_length_le {size : Nat} {l : List α} (hl : l ≠ []) (h : l.length ≤ size) :
    l.chunks size = [l] := by
  have hpos : 0 < l.length := length_pos_iff.2 hl
  have hone : (l.length + size - 1) / size = 1 :=
    Nat.div_eq_of_lt_le (by omega) (by omega)
  rw [chunks, hone, range_one, map_singleton, Nat.zero_mul, drop_zero, take_of_length_le h]

/-- `k` pieces are enough for `k * size` elements. -/
theorem length_chunks_le {size k : Nat} (h : 0 < size) {l : List α} (hl : l.length ≤ k * size) :
    (l.chunks size).length ≤ k := by
  rw [chunks, length_map, length_range]
  apply Nat.le_of_lt_succ
  rw [Nat.div_lt_iff_lt_mul h, Nat.succ_mul]
  omega

theorem map_length_chunks (size : Nat) (l : List α) :
    (l.chunks size).map length =
      (range ((l.length + size - 1) / size)).map fun i => min size (l.length - i * size) := by
  rw [chunks, map_map]
  refine map_congr_left fun i _ => ?_
  show ((l.drop (i * size)).take size).length = _
  rw [length_take, length_drop]

theorem length_le_of_mem_chunks {size : Nat} {l c : List α} (h : c ∈ l.chunks size) :
    c.length ≤ size := by
  obtain ⟨i, -, rfl⟩ := mem_map.1 h
  exact length_take_le size _

theorem length_piece (size : Nat) (l : List α) (i : Nat) :
    ((l.drop (i * size)).take size).length = min size (l.length - i * size) := by
  rw [length_take, length_drop]

/-- Two lists of one length with the same pieces are the same list. -/
theorem eq_of_pieces {size : Nat} (h : 0 < size) {l l' : List α} (hl : l.length = l'.length)
    (hp : ∀ i < (l.length + size - 1) / size,
      (l.drop (i * size)).take size = (l'.drop (i * size)).take size) :
    l = l' := by
  rw [← flatten_chunks h l, ← flatten_chunks h l', chunks, chunks, ← hl]
  refine congrArg flatten (map_congr_left fun i hi => ?_)
  exact hp i (mem_range.1 hi)

/-! ## Writing over a part -/

/-- `l` with `part` written over what starts at `start`. -/
def splice (l : List α) (start : Nat) (part : List α) : List α :=
  l.take start ++ part ++ l.drop (start + part.length)

variable {l part : List α} {start : Nat}

theorem length_splice (h : start + part.length ≤ l.length) :
    (l.splice start part).length = l.length := by
  rw [splice, length_append, length_append, length_take, length_drop]
  omega

/-- What is read where `part` was written is `part`. -/
theorem take_drop_splice (h : start ≤ l.length) :
    ((l.splice start part).drop start).take part.length = part := by
  have hlen : (l.take start).length = start := length_take_of_le h
  rw [splice, append_assoc, drop_append_of_le_length (by omega), drop_of_length_le (by omega),
    nil_append, take_left]

/-- What lies before the part that is written over stays. -/
theorem take_splice {n : Nat} (h : start ≤ l.length) (hn : n ≤ start) :
    (l.splice start part).take n = l.take n := by
  have hlen : (l.take start).length = start := length_take_of_le h
  rw [splice, append_assoc, take_append_of_le_length (by omega), take_take, Nat.min_eq_left hn]

/-- What lies after the part that is written over stays. -/
theorem drop_splice {n : Nat} (h : start ≤ l.length) (hn : start + part.length ≤ n) :
    (l.splice start part).drop n = l.drop n := by
  have hlen : (l.take start ++ part).length = start + part.length := by
    rw [length_append, length_take_of_le h]
  rw [splice, drop_append, hlen, drop_of_length_le (by omega), nil_append, drop_drop]
  congr 1
  omega

/-- **Over one piece**: what is written is that piece. -/
theorem piece_splice {size i : Nat} (h : part.length = ((l.drop (i * size)).take size).length)
    (hi : i * size ≤ l.length) :
    ((l.splice (i * size) part).drop (i * size)).take size = part := by
  rw [length_piece] at h
  have hlen : (l.splice (i * size) part).length = l.length := length_splice (by omega)
  have htake : ((l.splice (i * size) part).drop (i * size)).take part.length = part :=
    take_drop_splice hi
  by_cases hs : part.length = size
  · rw [← hs] at htake ⊢
    exact htake
  · -- the last piece, shorter than the others
    have hd : ((l.splice (i * size) part).drop (i * size)).length = part.length := by
      rw [length_drop, hlen]
      omega
    rw [take_of_length_le (by omega)]
    rw [take_of_length_le (by omega)] at htake
    exact htake

/-- **The other pieces stay.** -/
theorem piece_splice_of_ne {size i j : Nat}
    (h : part.length = ((l.drop (i * size)).take size).length) (hi : i * size ≤ l.length)
    (hj : j ≠ i) :
    ((l.splice (i * size) part).drop (j * size)).take size = (l.drop (j * size)).take size := by
  rw [length_piece] at h
  rcases Nat.lt_or_gt_of_ne hj with hlt | hgt
  · have hle : j * size + size ≤ i * size := by
      rw [← Nat.succ_mul]
      exact Nat.mul_le_mul_right _ hlt
    rw [take_drop, take_drop, take_splice hi hle]
  · have hle : i * size + size ≤ j * size := by
      rw [← Nat.succ_mul]
      exact Nat.mul_le_mul_right _ hgt
    rw [drop_splice hi (by omega)]

end List
