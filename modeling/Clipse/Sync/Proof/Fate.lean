import Clipse.Sync.Proof.Blobs

/-!
# What becomes of each row

A taking end merges the clips that it receives one after another. Each of its rows, and the row of
each new content, comes out with the pin and the deletion that the genuine pushes of its content
make of it (`fate`), and with the payloads that it had (`fated_takeAll`).
-/

namespace Clipse

open Duplex

namespace Session

section
variable [Blake3]

/-- The mark of a row after the genuine pushes of its content. -/
def fate (r : ClipRow) (pushes : List Clip) : Lww.Mark Hlc Bool :=
  (pushes.filter fun c => c.hashMatches && c.hash = r.hash).foldl
    (fun m c => if m.stamp < c.hlc then Lww.absorb c.mark m else m) r.mark

/-- The rows before, and a row for each content that the pushes bring. -/
def rowsWith (s : Store) (pushes : List Clip) : List ClipRow :=
  s.rows ++ (newClips s pushes).map .of

/-- The row `r` is what the pushes have made of `r₀`. A tombstone is not followed any further. -/
structure Fated (pushes : List Clip) (r₀ r : ClipRow) : Prop where
  id : r.id = r₀.id
  hash : r.hash = r₀.hash
  payloads : r.payloads = r₀.payloads
  deleted : r.deleted = (fate r₀ pushes).deleted
  mark : r.deleted = false → r.mark = fate r₀ pushes

theorem fate_snoc (r : ClipRow) (pushes : List Clip) (c : Clip) :
    fate r (pushes ++ [c]) =
      if c.hashMatches ∧ c.hash = r.hash ∧ (fate r pushes).stamp < c.hlc then
        Lww.absorb c.mark (fate r pushes)
      else fate r pushes := by
  unfold fate
  rw [List.filter_append, List.foldl_append, List.filter_singleton]
  by_cases hm : c.hashMatches <;> by_cases hh : c.hash = r.hash <;> simp [hm, hh]

theorem fate_snoc_deleted {r : ClipRow} {pushes : List Clip} (c : Clip)
    (h : (fate r pushes).deleted) : (fate r (pushes ++ [c])).deleted := by
  rw [fate_snoc]
  split
  · simp [Lww.absorb, h]
  · exact h

/-- A push of another content. -/
theorem Fated.of_ne {pushes : List Clip} {r₀ r : ClipRow} {c : Clip} (h : Fated pushes r₀ r)
    (hne : c.hash ≠ r₀.hash) : Fated (pushes ++ [c]) r₀ r := by
  have hf : fate r₀ (pushes ++ [c]) = fate r₀ pushes := by
    rw [fate_snoc, if_neg fun hc => hne hc.2.1]
  exact ⟨h.id, h.hash, h.payloads, hf ▸ h.deleted, hf ▸ h.mark⟩

/-- A tombstone that is left alone. -/
theorem Fated.of_deleted {pushes : List Clip} {r₀ r : ClipRow} (c : Clip) (h : Fated pushes r₀ r)
    (hd : r.deleted) : Fated (pushes ++ [c]) r₀ r := by
  refine ⟨h.id, h.hash, h.payloads, ?_, fun hl => ?_⟩
  · rw [hd, fate_snoc_deleted c (h.deleted ▸ hd)]
  · rw [hd] at hl
    cases hl

/-- A push that is not genuine, or not newer than the live row. -/
theorem Fated.of_stale {pushes : List Clip} {r₀ r : ClipRow} {c : Clip} (h : Fated pushes r₀ r)
    (hs : c.hashMatches → c.hash = r₀.hash → r.deleted = false → ¬ r.hlc < c.hlc) :
    Fated (pushes ++ [c]) r₀ r := by
  cases hd : r.deleted with
  | true => exact h.of_deleted c hd
  | false =>
    have hmark := h.mark hd
    have hf : fate r₀ (pushes ++ [c]) = fate r₀ pushes := by
      rw [fate_snoc, if_neg]
      rintro ⟨hm, hh, hlt⟩
      rw [← hmark] at hlt
      exact hs hm hh hd hlt
    exact ⟨h.id, h.hash, h.payloads, hf ▸ h.deleted, hf ▸ h.mark⟩

/-- A newer push of the content, into its row. -/
theorem Fated.absorb {pushes : List Clip} {r₀ r : ClipRow} {c : Clip} (h : Fated pushes r₀ r)
    (hm : c.hashMatches) (hh : c.hash = r₀.hash) (hlt : r.hlc < c.hlc) (now : UInt64) :
    Fated (pushes ++ [c]) r₀ (absorb c now r) := by
  cases hd : r.deleted with
  | true =>
    refine ⟨?_, ?_, ?_, ?_, fun hl => ?_⟩
    · rw [absorb_id, h.id]
    · rw [absorb_hash, h.hash]
    · rw [absorb_payloads, h.payloads]
    · rw [absorb_deleted, hd, Bool.true_or, fate_snoc_deleted c (h.deleted ▸ hd)]
    · rw [absorb_deleted, hd] at hl
      cases hl
  | false =>
    have hmark := h.mark hd
    have hf : fate r₀ (pushes ++ [c]) = (Clipse.absorb c now r).mark := by
      rw [fate_snoc, ← hmark, if_pos ⟨hm, hh, hlt⟩, mark_absorb]
    refine ⟨?_, ?_, ?_, ?_, fun _ => hf.symm⟩
    · rw [absorb_id, h.id]
    · rw [absorb_hash, h.hash]
    · rw [absorb_payloads, h.payloads]
    · rw [hf]
      rfl

omit [Blake3] in
theorem forall₂_imp_mem {R S : ClipRow → ClipRow → Prop} {l l' : List ClipRow}
    (h : List.Forall₂ R l l') (hRS : ∀ a ∈ l, ∀ b ∈ l', R a b → S a b) : List.Forall₂ S l l' := by
  induction h with
  | nil => exact .nil
  | cons hr _ ih =>
    refine .cons (hRS _ List.mem_cons_self _ List.mem_cons_self hr) (ih fun a ha b hb => ?_)
    exact hRS a (List.mem_cons_of_mem _ ha) b (List.mem_cons_of_mem _ hb)

/-- A genuine push is of a content that was known or has become a row. -/
theorem genuine_known {s : Store} {pushes : List Clip} {c : Clip} (hc : c ∈ pushes)
    (hm : c.hashMatches) : ∃ r ∈ rowsWith s pushes, r.hash = c.hash := by
  induction pushes using List.reverseRecOn with
  | nil => cases hc
  | append_singleton pushes d ih =>
    have hgrow : ∀ r ∈ rowsWith s pushes, r ∈ rowsWith s (pushes ++ [d]) := by
      intro r hr
      rcases List.mem_append.1 hr with hr | hr
      · exact List.mem_append_left _ hr
      · refine List.mem_append_right _ ?_
        rw [newClips_snoc]
        split
        · rw [List.map_append]
          exact List.mem_append_left _ hr
        · exact hr
    rcases List.mem_append.1 hc with hc | hc
    · obtain ⟨r, hr, hh⟩ := ih hc
      exact ⟨r, hgrow r hr, hh⟩
    obtain rfl := List.mem_singleton.1 hc
    by_cases hn : s.rep c.hash = none ∧ ∀ d ∈ newClips s pushes, d.hash ≠ c.hash
    · refine ⟨.of c, List.mem_append_right _ ?_, rfl⟩
      rw [newClips_snoc, hm, hn.1, if_pos (by simpa using hn.2), List.map_append]
      exact List.mem_append_right _ (List.mem_singleton_self _)
    · by_cases hs : s.rep c.hash = none
      · have hex : ∃ d ∈ newClips s pushes, d.hash = c.hash := by
          by_contra hall
          push Not at hall
          exact hn ⟨hs, hall⟩
        obtain ⟨d, hd, hh⟩ := hex
        exact ⟨.of d, hgrow _ (List.mem_append_right _ (List.mem_map_of_mem hd)), hh⟩
      · obtain ⟨r, hr⟩ := Option.ne_none_iff_exists'.1 hs
        obtain ⟨hmem, hh⟩ := Store.mem_of_rep hr
        exact ⟨r, hgrow _ (List.mem_append_left _ hmem), hh⟩

/-- The contents with a row are those of the first rows. -/
theorem Fated.known_iff {pushes : List Clip} {base rows : List ClipRow} {hash : ContentHash}
    (h : List.Forall₂ (Fated pushes) base rows) :
    (∃ r ∈ rows, r.hash = hash) ↔ ∃ r₀ ∈ base, r₀.hash = hash := by
  induction h with
  | nil => simp
  | cons hr _ ih => simp only [List.mem_cons, exists_eq_or_imp, hr.hash, ih]

theorem rowsWith_snoc (s : Store) (pushes : List Clip) (c : Clip) :
    rowsWith s (pushes ++ [c]) = rowsWith s pushes ++
      if c.hashMatches ∧ ∀ r ∈ rowsWith s pushes, r.hash ≠ c.hash then [.of c] else [] := by
  have hiff : (c.hashMatches && (s.rep c.hash).isNone &&
      (newClips s pushes).all (·.hash ≠ c.hash)) = true ↔
        c.hashMatches ∧ ∀ r ∈ rowsWith s pushes, r.hash ≠ c.hash := by
    simp only [Bool.and_eq_true, Option.isNone_iff_eq_none, List.all_eq_true, decide_eq_true_eq,
      Store.rep_eq_none, rowsWith, List.mem_append, List.mem_map, and_assoc]
    refine and_congr_right fun _ => ⟨?_, fun h => ⟨fun r hr => h r (.inl hr), fun d hd => ?_⟩⟩
    · rintro ⟨hold, hnew⟩ r (hr | ⟨d, hd, rfl⟩)
      · exact hold r hr
      · exact hnew d hd
    · exact h (.of d) (.inr ⟨d, hd, rfl⟩)
  rw [rowsWith, newClips_snoc]
  by_cases hn : c.hashMatches ∧ ∀ r ∈ rowsWith s pushes, r.hash ≠ c.hash
  · rw [if_pos (hiff.2 hn), if_pos hn, rowsWith, List.map_append, List.append_assoc]
    rfl
  · rw [if_neg fun h => hn (hiff.1 h), if_neg hn, List.append_nil]
    rfl

/-- Of a new content nothing was pushed before. -/
theorem fate_of_new {s : Store} {pushes : List Clip} {c : Clip}
    (hnew : ∀ r ∈ rowsWith s pushes, r.hash ≠ c.hash) :
    fate (.of c) (pushes ++ [c]) = c.mark := by
  have hnone : pushes.filter (fun d => d.hashMatches && d.hash = (ClipRow.of c).hash) = [] := by
    refine List.filter_eq_nil_iff.2 fun d hd hp => ?_
    simp only [Bool.and_eq_true, decide_eq_true_eq] at hp
    obtain ⟨r, hr, hh⟩ := genuine_known (s := s) hd hp.1
    exact hnew r hr (hh.trans hp.2)
  have hf : fate (.of c) pushes = c.mark := by
    rw [fate, hnone]
    rfl
  rw [fate_snoc, hf, if_neg]
  rintro ⟨-, -, hlt⟩
  exact lt_irrefl _ hlt

/-- **One push** takes every row to its fate. -/
theorem fated_takePush {s₀ : Store} {pushes : List Clip} {t t' : Taken} {c : Clip}
    {ctx ctx' : SyncContext}
    (h : List.Forall₂ (Fated pushes) (rowsWith s₀ pushes) ctx.store.rows)
    (he : (takePush t c).eval ctx = some (.ok t', ctx')) :
    List.Forall₂ (Fated (pushes ++ [c])) (rowsWith s₀ (pushes ++ [c])) ctx'.store.rows := by
  obtain ⟨a, ha, -⟩ := takePush_ok he
  -- the live row of a content is the one that stands for it
  have hlive : ∀ e, ctx.store.rep c.hash = some e → ∀ r ∈ ctx.store.rows, r.hash = c.hash →
      r.deleted = false → r = e := by
    intro e hr r hmem hh hd
    rw [Store.rep_eq] at hr
    have hed : e.deleted = false := by
      by_contra hed
      have hall := repOf_deleted hr (by simpa using hed) r (Store.mem_rowsOf.2 ⟨hmem, hh⟩)
      rw [hd] at hall
      cases hall
    exact Store.rowsOf_live (mem_of_repOf hr) hed r (Store.mem_rowsOf.2 ⟨hmem, hh⟩) hd
  rw [rowsWith_snoc]
  rcases apply_cases ha with ⟨-, rfl, hcase⟩ | ⟨-, hm, hr, -, hrows, -⟩ |
    ⟨e, now, -, hm, hr, hlt, hrows, -⟩
  · -- refused: the push is not genuine, or its content has a row that is not older
    rw [if_neg, List.append_nil]
    · refine forall₂_imp_mem h fun r₀ _ r hmem hf => hf.of_stale fun hm hh hd => ?_
      rcases hcase with hm' | ⟨e, hr, hnlt⟩
      · rw [hm] at hm'
        cases hm'
      · rw [hlive e hr r hmem (hf.hash.trans hh.symm) hd]
        exact hnlt
    · rintro ⟨hm, hnew⟩
      rcases hcase with hm' | ⟨e, hr, -⟩
      · rw [hm] at hm'
        cases hm'
      · obtain ⟨hmem, hh⟩ := Store.mem_of_rep hr
        obtain ⟨r₀, hr₀, hh₀⟩ := (Fated.known_iff h).1 ⟨e, hmem, hh⟩
        exact hnew r₀ hr₀ hh₀
  · -- inserted: the content is new
    have hnew : ∀ r₀ ∈ rowsWith s₀ pushes, r₀.hash ≠ c.hash := by
      intro r₀ hr₀ hh
      obtain ⟨r, hmem, hh'⟩ := (Fated.known_iff h).2 ⟨r₀, hr₀, hh⟩
      exact Store.rep_eq_none.1 hr r hmem hh'
    rw [if_pos ⟨hm, hnew⟩, hrows]
    have hold := forall₂_imp_mem (S := Fated (pushes ++ [c])) h fun r₀ hr₀ r _ hf =>
      hf.of_ne (hnew r₀ hr₀).symm
    have hof : Fated (pushes ++ [c]) (.of c) (.of c) := by
      have hfate := fate_of_new hnew
      exact ⟨rfl, rfl, rfl, by rw [hfate]; rfl, fun _ => hfate.symm⟩
    exact List.rel_append hold (.cons hof .nil)
  · -- updated: the row that stands for the content takes the push, its older tombstones do not
    obtain ⟨hmem, hh⟩ := Store.mem_of_rep hr
    rw [if_neg, List.append_nil, hrows, absorbed, List.forall₂_map_right_iff]
    · refine forall₂_imp_mem h fun r₀ _ r hmem' hf => ?_
      by_cases hid : r.id = e.id
      · obtain rfl := ctx.store.clip.eq_of_key_eq hmem' hmem hid
        rw [if_pos rfl]
        exact hf.absorb hm (hh.symm.trans hf.hash) hlt now
      · rw [if_neg hid]
        by_cases hne : c.hash = r₀.hash
        · refine hf.of_stale fun _ _ hd => ?_
          exact absurd (congrArg ClipRow.id (hlive e hr r hmem' (hf.hash.trans hne.symm) hd)) hid
        · exact hf.of_ne hne
    · rintro ⟨-, hnew⟩
      obtain ⟨r₀, hr₀, hh₀⟩ := (Fated.known_iff h).1 ⟨e, hmem, hh⟩
      exact hnew r₀ hr₀ hh₀

theorem fated_refl (s : Store) : List.Forall₂ (Fated []) (rowsWith s []) s.rows := by
  have hself : ∀ r : ClipRow, Fated [] r r := fun r => ⟨rfl, rfl, rfl, rfl, fun _ => rfl⟩
  rw [rowsWith, show newClips s [] = [] from rfl, List.map_nil, List.append_nil]
  exact List.forall₂_same.2 fun r _ => hself r

/-- **The receiving loop** takes every row to its fate. -/
theorem fated_takeAll {s₀ : Store} {clips pushes : List Clip} {t t' : Taken}
    {ctx ctx' : SyncContext}
    (h : List.Forall₂ (Fated pushes) (rowsWith s₀ pushes) ctx.store.rows)
    (he : (takeAll clips t).eval ctx = some (.ok t', ctx')) :
    List.Forall₂ (Fated (pushes ++ clips)) (rowsWith s₀ (pushes ++ clips)) ctx'.store.rows := by
  induction clips generalizing pushes t ctx with
  | nil =>
    rw [takeAll_nil] at he
    cases he
    rwa [List.append_nil]
  | cons c clips ih =>
    obtain ⟨t₁, ctx₁, hr, he⟩ := takeAll_cons_ok he
    have hi := ih (fated_takePush h hr) he
    rwa [List.append_assoc] at hi

end

end Session
end Clipse
