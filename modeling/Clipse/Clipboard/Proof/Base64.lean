import Clipse.Clipboard.Sensitive
import Clipse.Lib.Base64

/-!
# The headers of tokens

`base64url_decode` looks up the symbols and takes the bytes of groups of six bits
(`base64urlDecode_eq`), so it undoes the encoding and refuses just what no encoding gives. Its loop on
a chunk of four bytes, with every index and every shift checked, does the same (`base64urlRun_eq`).
-/

namespace Clipse

/-! ## Symbols -/

/-- The alphabet, in the order of the values. -/
def base64urlAlphabet : Bytes :=
  utf8 "ABCDEFGHIJKLMNOPQRSTUVWXYZabcdefghijklmnopqrstuvwxyz0123456789-_"

/-- The symbol of a value below 64. -/
def base64urlSymbol (v : Nat) : UInt8 := base64urlAlphabet.getD v 0

/-- The encoding without padding. -/
def base64urlEncode (bytes : Bytes) : Bytes := (Base64.sextets bytes).map base64urlSymbol

/-- The alphabet by the ranges of its bytes. -/
theorem base64urlAlphabet_eq : base64urlAlphabet =
    (List.range 26).map (65 + UInt8.ofNat ·) ++ (List.range 26).map (97 + UInt8.ofNat ·) ++
      (List.range 10).map (48 + UInt8.ofNat ·) ++ [45, 95] := rfl

theorem base64urlValue_table : ∀ n < 256,
    (base64urlValue (UInt8.ofNat n) = none ↔ UInt8.ofNat n ∉ base64urlAlphabet) ∧
      ∀ v ∈ base64urlValue (UInt8.ofNat n), v.toNat < 64 := by
  rw [base64urlAlphabet_eq]
  decide +kernel

theorem base64urlValue_symbol : ∀ v < 64, base64urlValue (base64urlSymbol v) = some (UInt8.ofNat v) := by
  unfold base64urlSymbol
  rw [base64urlAlphabet_eq]
  decide +kernel

theorem base64urlValue_eq_none_iff {c : UInt8} :
    base64urlValue c = none ↔ c ∉ base64urlAlphabet := by
  have h := (base64urlValue_table c.toNat c.toNat_lt).1
  rwa [UInt8.ofNat_toNat] at h

theorem base64urlValue_lt {c v : UInt8} (hv : base64urlValue c = some v) : v.toNat < 64 := by
  have h := (base64urlValue_table c.toNat c.toNat_lt).2
  rw [UInt8.ofNat_toNat] at h
  exact h v hv

/-! ## Bytes of a group -/

/-- A byte put together from the low bits of one number and another number below `2 ^ k`. -/
theorem toNat_shl_or {v w : UInt8} {k : Nat} (hk : k < 8) (hw : w.toNat < 2 ^ k) :
    (v <<< UInt8.ofNat k ||| w).toNat = v.toNat * 2 ^ k % 256 + w.toNat := by
  have hpow : 256 = 2 ^ (8 - k) * 2 ^ k := by
    rw [← pow_add, Nat.sub_add_cancel hk.le]
    rfl
  rw [UInt8.toNat_or, UInt8.toNat_shiftLeft, UInt8.toNat_ofNat', Nat.mod_eq_of_lt (by omega : k < 2 ^ 8),
    Nat.mod_eq_of_lt hk, Nat.shiftLeft_eq, show 2 ^ 8 = 256 from rfl, hpow, Nat.mul_mod_mul_right,
    ← Nat.shiftLeft_eq, ← Nat.shiftLeft_add_eq_or_of_lt hw]

theorem toNat_shr {v : UInt8} {k : Nat} (hk : k < 8) :
    (v >>> UInt8.ofNat k).toNat = v.toNat / 2 ^ k := by
  rw [UInt8.toNat_shiftRight, UInt8.toNat_ofNat', Nat.mod_eq_of_lt (by omega : k < 2 ^ 8),
    Nat.mod_eq_of_lt hk, Nat.shiftRight_eq_div_pow]

theorem byte₀_eq {v w : UInt8} (hw : w.toNat < 64) :
    v <<< 2 ||| w >>> 4 = Base64.byte₀ v.toNat w.toNat := by
  have hshr : (w >>> 4).toNat = w.toNat / 16 := toNat_shr (by omega : 4 < 8)
  have hor := toNat_shl_or (v := v) (by omega : 2 < 8) (by omega : (w >>> 4).toNat < 2 ^ 2)
  apply UInt8.toNat_inj.1
  rw [Base64.byte₀, UInt8.toNat_ofNat']
  exact hor.trans (by omega)

theorem byte₁_eq {w x : UInt8} (hx : x.toNat < 64) :
    w <<< 4 ||| x >>> 2 = Base64.byte₁ w.toNat x.toNat := by
  have hshr : (x >>> 2).toNat = x.toNat / 4 := toNat_shr (by omega : 2 < 8)
  have hor := toNat_shl_or (v := w) (by omega : 4 < 8) (by omega : (x >>> 2).toNat < 2 ^ 4)
  apply UInt8.toNat_inj.1
  rw [Base64.byte₁, UInt8.toNat_ofNat']
  exact hor.trans (by omega)

theorem byte₂_eq {x y : UInt8} (hy : y.toNat < 64) :
    x <<< 6 ||| y = Base64.byte₂ x.toNat y.toNat := by
  have hor := toNat_shl_or (v := x) (by omega : 6 < 8) (by omega : y.toNat < 2 ^ 6)
  apply UInt8.toNat_inj.1
  rw [Base64.byte₂, UInt8.toNat_ofNat']
  exact hor.trans (by omega)

/-! ## The decoder -/

/-- The end of `base64url_decode`, after its loop. -/
def base64urlTail (r : Bytes × List UInt8) : Option Bytes :=
  match r.2 with
  | [c0, c1] => some (r.1 ++ [c0 <<< 2 ||| c1 >>> 4])
  | [c0, c1, c2] => some (r.1 ++ [c0 <<< 2 ||| c1 >>> 4, c1 <<< 4 ||| c2 >>> 2])
  | [_] => none
  | _ => some r.1

theorem base64urlDecode_eq_tail (s : Bytes) :
    base64urlDecode s = (base64urlLoop [] [] s).bind base64urlTail := by
  unfold base64urlDecode
  cases base64urlLoop [] [] s with
  | none => rfl
  | some r =>
    obtain ⟨out, chunk⟩ := r
    rfl

/-- The tail makes bytes of less than a group. -/
theorem base64urlTail_eq {out chunk : Bytes} (hlen : chunk.length < 4)
    (hlt : ∀ v ∈ chunk, v.toNat < 64) :
    base64urlTail (out, chunk) = (Base64.bytes (chunk.map UInt8.toNat)).map (out ++ ·) := by
  match chunk, hlen, hlt with
  | [], _, _ => simp [base64urlTail, Base64.bytes]
  | [c0], _, _ => rfl
  | [c0, c1], _, hlt =>
    simp only [List.forall_mem_cons] at hlt
    change some (out ++ [c0 <<< 2 ||| c1 >>> 4]) = _
    rw [byte₀_eq hlt.2.1]
    rfl
  | [c0, c1, c2], _, hlt =>
    simp only [List.forall_mem_cons] at hlt
    change some (out ++ [c0 <<< 2 ||| c1 >>> 4, c1 <<< 4 ||| c2 >>> 2]) = _
    rw [byte₀_eq hlt.2.1, byte₁_eq hlt.2.2.1]
    rfl

/-- What the loop and the tail make of the symbols that are left, with less than a group before
them. -/
theorem base64urlLoop_eq (s : Bytes) : ∀ out chunk : Bytes, chunk.length < 4 →
    (∀ v ∈ chunk, v.toNat < 64) →
    (base64urlLoop out chunk s).bind base64urlTail =
      (s.mapM base64urlValue).bind fun vs =>
        (Base64.bytes ((chunk ++ vs).map UInt8.toNat)).map (out ++ ·) := by
  induction s with
  | nil =>
    intro out chunk hlen hlt
    rw [List.mapM_nil]
    refine (base64urlTail_eq hlen hlt).trans ?_
    change _ = (Base64.bytes ((chunk ++ []).map UInt8.toNat)).map (out ++ ·)
    rw [List.append_nil]
  | cons b s ih =>
    intro out chunk hlen hlt
    rw [List.mapM_cons, base64urlLoop]
    cases hb : base64urlValue b with
    | none => rfl
    | some v =>
      have hv := base64urlValue_lt hb
      have hcons : ∀ chunk : Bytes, (s.mapM base64urlValue).bind (fun vs =>
            (Base64.bytes (((chunk ++ [v]) ++ vs).map UInt8.toNat)).map (out ++ ·)) =
          ((s.mapM base64urlValue).bind fun vs => some (v :: vs)).bind fun vs =>
            (Base64.bytes ((chunk ++ vs).map UInt8.toNat)).map (out ++ ·) := by
        intro chunk
        rw [Option.bind_assoc]
        simp only [List.append_assoc, List.singleton_append, Option.bind_some]
      change Option.bind _ _ = Option.bind (Option.bind (s.mapM base64urlValue) fun vs => some (v :: vs)) _
      rw [← hcons]
      match chunk, hlen, hlt with
      | [], _, _ => exact ih out [v] (by simp) (by simpa using hv)
      | [c0], _, hlt => exact ih out [c0, v] (by simp) (by simp_all)
      | [c0, c1], _, hlt => exact ih out [c0, c1, v] (by simp) (by simp_all)
      | [c0, c1, c2], _, hlt =>
        simp only [List.forall_mem_cons] at hlt
        refine (ih _ [] (by simp) (by simp)).trans (congrArg _ (funext fun vs => ?_))
        rw [byte₀_eq hlt.2.1, byte₁_eq hlt.2.2.1, byte₂_eq hv]
        change _ = ((Base64.bytes (vs.map UInt8.toNat)).map ([Base64.byte₀ c0.toNat c1.toNat,
          Base64.byte₁ c1.toNat c2.toNat, Base64.byte₂ c2.toNat v.toNat] ++ ·)).map (out ++ ·)
        rw [Option.map_map]
        exact congrArg (Option.map · _) (funext fun bytes => List.append_assoc _ _ _)

/-- **The decoder**: the symbols are looked up, and their groups are bytes. -/
theorem base64urlDecode_eq (s : Bytes) :
    base64urlDecode s =
      (s.mapM base64urlValue).bind fun vs => Base64.bytes (vs.map UInt8.toNat) := by
  rw [base64urlDecode_eq_tail, base64urlLoop_eq s [] [] (by simp) (by simp)]
  refine congrArg _ (funext fun vs => ?_)
  rw [List.nil_append]
  cases Base64.bytes (vs.map UInt8.toNat) with
  | none => rfl
  | some bytes => rfl

theorem mapM_value_symbol : ∀ {vs : List Nat}, (∀ v ∈ vs, v < 64) →
    (vs.map base64urlSymbol).mapM base64urlValue = some (vs.map UInt8.ofNat)
  | [], _ => rfl
  | v :: vs, h => by
    rw [List.forall_mem_cons] at h
    rw [List.map_cons, List.mapM_cons, base64urlValue_symbol v h.1, mapM_value_symbol h.2]
    rfl

/-- **Decoding undoes encoding.** -/
theorem base64urlDecode_encode (bytes : Bytes) :
    base64urlDecode (base64urlEncode bytes) = some bytes := by
  have hlt : ∀ v ∈ Base64.sextets bytes, v < 64 := fun v hv => Base64.lt_of_mem_sextets hv
  have hsame : ((Base64.sextets bytes).map UInt8.ofNat).map UInt8.toNat = Base64.sextets bytes := by
    rw [List.map_map]
    refine (List.map_congr_left fun v hv => ?_).trans (List.map_id _)
    rw [Function.comp_apply, UInt8.toNat_ofNat', Nat.mod_eq_of_lt (by have := hlt v hv; omega), id]
  rw [base64urlDecode_eq, base64urlEncode, mapM_value_symbol hlt, Option.bind_some, hsame,
    Base64.bytes_sextets]

theorem mapM_eq_none_iff {α β : Type} {f : α → Option β} : ∀ {xs : List α},
    xs.mapM f = none ↔ ∃ x ∈ xs, f x = none
  | [] => by simp
  | x :: xs => by
    rw [List.mapM_cons]
    cases hx : f x with
    | none => simp [hx]
    | some y =>
      cases hxs : xs.mapM f with
      | none => simpa [hx] using mapM_eq_none_iff.1 hxs
      | some ys =>
        have hne : ¬ ∃ x ∈ xs, f x = none := fun h => by
          rw [mapM_eq_none_iff.2 h] at hxs
          cases hxs
        simpa [hx] using hne

theorem length_of_mapM {α β : Type} {f : α → Option β} : ∀ {xs : List α} {ys : List β},
    xs.mapM f = some ys → ys.length = xs.length
  | [], ys, h => by
    cases h
    rfl
  | x :: xs, ys, h => by
    rw [List.mapM_cons] at h
    obtain ⟨y, -, h⟩ := Option.bind_eq_some_iff.1 h
    obtain ⟨ys', hys, h⟩ := Option.bind_eq_some_iff.1 h
    cases h
    rw [List.length_cons, List.length_cons, length_of_mapM hys]

/-- **What is refused**: a byte outside the alphabet, or a single symbol that is left over. -/
theorem base64urlDecode_eq_none_iff (s : Bytes) :
    base64urlDecode s = none ↔ (∃ c ∈ s, c ∉ base64urlAlphabet) ∨ s.length % 4 = 1 := by
  have hmem : (∃ c ∈ s, c ∉ base64urlAlphabet) ↔ s.mapM base64urlValue = none := by
    rw [mapM_eq_none_iff]
    simp only [base64urlValue_eq_none_iff]
  rw [hmem, base64urlDecode_eq]
  cases hs : s.mapM base64urlValue with
  | none => simp
  | some vs =>
    rw [Option.bind_some, Base64.bytes_eq_none_iff, List.length_map, length_of_mapM hs]
    simp

/-! ## The chunk -/

/-- The chunk holds the symbols that are not yet bytes, and what was in it before. -/
theorem base64urlRun_eq (s : Bytes) : ∀ (out : Bytes) (c0 c1 c2 c3 : UInt8),
    base64urlRun out #v[c0, c1, c2, c3] 0 s = .ok ((base64urlLoop out [] s).bind base64urlTail) ∧
      base64urlRun out #v[c0, c1, c2, c3] 1 s = .ok ((base64urlLoop out [c0] s).bind base64urlTail) ∧
      base64urlRun out #v[c0, c1, c2, c3] 2 s =
        .ok ((base64urlLoop out [c0, c1] s).bind base64urlTail) ∧
      base64urlRun out #v[c0, c1, c2, c3] 3 s =
        .ok ((base64urlLoop out [c0, c1, c2] s).bind base64urlTail) := by
  induction s with
  | nil =>
    intro out c0 c1 c2 c3
    exact ⟨rfl, rfl, rfl, rfl⟩
  | cons b s ih =>
    intro out c0 c1 c2 c3
    unfold base64urlRun base64urlLoop
    cases base64urlValue b with
    | none => exact ⟨rfl, rfl, rfl, rfl⟩
    | some v =>
      refine ⟨?_, ?_, ?_, ?_⟩
      · exact (ih out v c1 c2 c3).2.1
      · exact (ih out c0 v c2 c3).2.2.1
      · exact (ih out c0 c1 v c3).2.2.2
      · exact (ih _ c0 c1 c2 v).1

/-- **Headers of tokens**: decoding undoes encoding, whatever the length. It refuses a string just when
a byte of it is outside the alphabet or one symbol is left over, and no index and no shift on the way
is out of range. -/
theorem base64url_exact :
    (∀ bytes : Bytes, base64urlDecode (base64urlEncode bytes) = some bytes) ∧
      ∀ s : Bytes,
        (base64urlDecode s = none ↔ (∃ c ∈ s, c ∉ base64urlAlphabet) ∨ s.length % 4 = 1) ∧
          base64urlRun [] (.replicate 4 0) 0 s = .ok (base64urlDecode s) := by
  refine ⟨base64urlDecode_encode, fun s => ⟨base64urlDecode_eq_none_iff s, ?_⟩⟩
  rw [base64urlDecode_eq_tail]
  exact (base64urlRun_eq s [] 0 0 0 0).1

example :
    base64urlDecode (utf8 "eyJhbGciOiJub25lIn0") = some (utf8 "\x7b\"alg\":\"none\"\x7d") := rfl

end Clipse
