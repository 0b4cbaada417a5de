import Clipse.Store.Basic
import Mathlib.Data.List.Pairwise

/-!
# The order of the database and the order of HLCs

`ORDER BY hlc_wall_ms, hlc_counter, hlc_device` compares signed integers. It is the order of the
HLCs among wall clocks on one side of 2^63 (`column_le_iff`), and wrong across (`column_lt_of_late`).
`byHlc` therefore lists rows in HLC order iff their wall clocks are on one side
(`byHlc_ordered_iff`).
-/

namespace Clipse

theorem toInt_toInt64 (u : UInt64) :
    u.toInt64.toInt = if u.toNat < 2 ^ 63 then (u.toNat : ℤ) else u.toNat - 2 ^ 64 := by
  have h : u.toInt64.toInt = u.toBitVec.toInt := rfl
  rw [h, BitVec.toInt_eq_toNat_cond]
  simp only [UInt64.toNat_toBitVec]
  split <;> split <;> omega

namespace Hlc

/-- The wall clock fits a signed column. -/
def Fits (h : Hlc) : Prop := h.wallMs.toNat < 2 ^ 63

instance (h : Hlc) : Decidable h.Fits := inferInstanceAs (Decidable (_ < _))

theorem column_le_iff {a b : Hlc} (h : a.Fits ↔ b.Fits) : a.column ≤ b.column ↔ a ≤ b := by
  have hw : a.wallMs.toInt64.toInt < b.wallMs.toInt64.toInt ↔ a.wallMs < b.wallMs := by
    rw [toInt_toInt64, toInt_toInt64, UInt64.lt_iff_toNat_lt]
    unfold Fits at h
    split <;> split <;> omega
  have he : a.wallMs.toInt64.toInt = b.wallMs.toInt64.toInt ↔ a.wallMs = b.wallMs := by
    rw [toInt_toInt64, toInt_toInt64, ← UInt64.toNat_inj]
    unfold Fits at h
    split <;> split <;> omega
  have hle : a ≤ b ↔ key a ≤ key b := Iff.rfl
  simp only [hle, column, key, Prod.Lex.toLex_le_toLex, hw, he, Int.ofNat_lt, Int.ofNat_inj,
    DeviceId.text_le_text_iff, UInt64.lt_iff_toNat_lt, UInt64.toNat_inj]

theorem column_lt_of_late {a b : Hlc} (ha : ¬ a.Fits) (hb : b.Fits) :
    a.column < b.column ∧ b < a := by
  have hn := a.wallMs.toNat_lt
  unfold Fits at ha hb
  constructor
  · rw [column, column, Prod.Lex.toLex_lt_toLex]
    refine .inl ?_
    simp only [toInt_toInt64, ha, hb, ↓reduceIte]
    omega
  · rw [lt_iff, UInt64.lt_iff_toNat_lt]
    exact .inl (by omega)

end Hlc

namespace Store

instance : Std.Total (fun a b : ClipRow => a.hlc.column ≤ b.hlc.column) :=
  ⟨fun _ _ => le_total _ _⟩

instance : IsTrans ClipRow (fun a b => a.hlc.column ≤ b.hlc.column) :=
  ⟨fun _ _ _ => le_trans⟩

theorem byHlc_perm (rows : List ClipRow) : (byHlc rows).Perm rows := List.perm_insertionSort _ _

theorem byHlc_pairwise (rows : List ClipRow) :
    (byHlc rows).Pairwise (fun a b => a.hlc.column ≤ b.hlc.column) :=
  List.pairwise_insertionSort _ _

/-- All wall clocks lie on one side of 2^63. -/
def OneSide (rows : List ClipRow) : Prop := ∀ r ∈ rows, ∀ r' ∈ rows, r.hlc.Fits ↔ r'.hlc.Fits

theorem byHlc_ordered_iff (rows : List ClipRow) :
    (byHlc rows).Pairwise (fun a b => a.hlc ≤ b.hlc) ↔ OneSide rows := by
  have hmem : ∀ r, r ∈ byHlc rows ↔ r ∈ rows := fun r => (byHlc_perm rows).mem_iff
  constructor
  · intro hp r hr r' hr'
    by_contra hne
    -- a late row and a fitting one: the database lists the late one first
    obtain ⟨a, ha, b, hb, hla, hfb⟩ :
        ∃ a ∈ rows, ∃ b ∈ rows, ¬ a.hlc.Fits ∧ b.hlc.Fits := by
      by_cases hf : r.hlc.Fits
      · exact ⟨r', hr', r, hr, fun hf' => hne ⟨fun _ => hf', fun _ => hf⟩, hf⟩
      · refine ⟨r, hr, r', hr', hf, ?_⟩
        by_contra hf'
        exact hne ⟨fun h => absurd h hf, fun h => absurd h hf'⟩
    obtain ⟨hcol, hlt⟩ := Hlc.column_lt_of_late hla hfb
    let Agree (a b : ClipRow) : Prop := a.hlc.column < b.hlc.column → a.hlc ≤ b.hlc
    have hsymm : Std.Symm (fun a b => Agree a b ∧ Agree b a) := ⟨fun _ _ h => ⟨h.2, h.1⟩⟩
    have hall : (byHlc rows).Pairwise (fun a b => Agree a b ∧ Agree b a) :=
      (hp.and (byHlc_pairwise rows)).imp fun {a b} h =>
        ⟨fun _ => h.1, fun hlt => absurd h.2 (not_le.2 hlt)⟩
    have hagree := hall.forall_of_forall (fun _ _ => ⟨fun _ => le_rfl, fun _ => le_rfl⟩)
      ((hmem a).2 ha) ((hmem b).2 hb)
    exact absurd (hagree.1 hcol) (not_le.2 hlt)
  · intro hs
    refine (byHlc_pairwise rows).imp_of_mem fun {a b} ha hb hle => ?_
    exact (Hlc.column_le_iff (hs a ((hmem a).1 ha) b ((hmem b).1 hb))).1 hle

end Store
end Clipse
