import Clipse.Daemon.Capture
import Clipse.Store.Proof.Reachable

/-!
# Captures one after the other

Captures of different contents, under different ids, each get a row of their own
(`storeCaptures_of_fresh`).
-/

namespace Clipse
namespace SyncContext

variable [Blake3]

/-- The content hash of the clip that a capture becomes. -/
def captureHash (capture : Capture) : ContentHash :=
  Clip.computeHash (Clip.sortPayloads (capture.payloads.map payloadOf))

/-- The clip is what the capture, under the id, becomes. -/
def Becomes (clip : Clip) (c : ClipId × Capture) : Prop :=
  ∃ source hlc, clip = .new c.1 (c.2.payloads.map payloadOf) source hlc

/-- Captures, one after the other. -/
def storeCaptures (ctx : SyncContext) : List (ClipId × Capture) → Except StoreError SyncContext
  | [] => .ok ctx
  | (id, capture) :: captures => do
    let (_, ctx) ← ctx.storeCapture id capture
    ctx.storeCaptures captures

theorem label_payloadOf (p : ClipFormat × Bytes) : (payloadOf p).label = p.1.label := by
  unfold payloadOf
  split <;> rfl

theorem labels_payloadOf (payloads : List (ClipFormat × Bytes)) :
    (payloads.map payloadOf).map Payload.label = payloads.map (·.1.label) := by
  rw [List.map_map]
  exact List.map_congr_left fun p _ => label_payloadOf p

theorem rows_putBlobs (s : Store) (blobs : List Bytes) :
    (blobs.foldl (fun s bytes => s.putBlob (.of bytes) bytes) s).rows = s.rows := by
  induction blobs generalizing s with
  | nil => rfl
  | cons b blobs ih => rw [List.foldl_cons, ih, Store.rows_putBlob]

/-- A capture of a content that no row has, under an id that no row has. -/
structure Fresh (s : Store) (id : ClipId) (capture : Capture) : Prop where
  labels : (capture.payloads.map (·.1.label)).Nodup
  hash : ∀ r ∈ s.rows, r.hash ≠ captureHash capture
  id : ∀ r ∈ s.rows, r.id ≠ id

theorem storeCapture_of_fresh {ctx : SyncContext} {id : ClipId} {capture : Capture}
    (h : Fresh ctx.store id capture) :
    ∃ ctx' clip, ctx.storeCapture id capture = .ok (.inserted id, ctx') ∧
      Becomes clip (id, capture) ∧ ctx'.store.rows = ctx.store.rows ++ [.of clip] := by
  have hlab : ((capture.payloads.map payloadOf).map Payload.label).Nodup := by
    rw [labels_payloadOf]
    exact h.labels
  obtain ⟨clip, hclip⟩ : ∃ clip, clip = Clip.new id (capture.payloads.map payloadOf)
      (ctx.now.2.clipSource capture.app) ctx.now.1 := ⟨_, rfl⟩
  obtain ⟨s', hinsert, hrows⟩ := Store.insert_fresh
    (s := (spill capture.payloads).foldl (fun s bytes => s.putBlob (.of bytes) bytes) ctx.now.2.store)
    (hclip ▸ Clip.new_canonical id (ctx.now.2.clipSource capture.app) ctx.now.1 hlab)
    (fun r hr he => absurd (he.trans (congrArg Clip.hash hclip)) (h.hash r (rows_putBlobs _ _ ▸ hr)))
    (fun r hr he => h.id r (rows_putBlobs _ _ ▸ hr) (he.trans (congrArg Clip.id hclip)))
  have hstore : ctx.storeCapture id capture = .ok (.inserted id,
      ({ ctx.now.2 with store := s'.enforceBlobQuota }).emit (.clipAdded clip)) := by
    unfold storeCapture
    simp only [← hclip, hinsert]
    rw [hclip]
    rfl
  refine ⟨_, clip, hstore, ⟨_, _, hclip⟩, ?_⟩
  change s'.enforceBlobQuota.rows = _
  rw [Store.rows_enforceBlobQuota, hrows, rows_putBlobs]
  rfl

/-- **Captures of different contents fill the store.** -/
theorem storeCaptures_of_fresh {ctx : SyncContext} {captures : List (ClipId × Capture)}
    (hfresh : ∀ c ∈ captures, Fresh ctx.store c.1 c.2) (hid : (captures.map (·.1)).Nodup)
    (hhash : (captures.map (captureHash ·.2)).Nodup) :
    ∃ ctx' clips, ctx.storeCaptures captures = .ok ctx' ∧ List.Forall₂ Becomes clips captures ∧
      ctx'.store.rows = ctx.store.rows ++ clips.map .of := by
  induction captures generalizing ctx with
  | nil => exact ⟨ctx, [], rfl, .nil, by simp⟩
  | cons c captures ih =>
    obtain ⟨id, capture⟩ := c
    obtain ⟨hc, hrest⟩ := List.forall_mem_cons.mp hfresh
    obtain ⟨hidc, hid⟩ := List.nodup_cons.mp hid
    obtain ⟨hhashc, hhash⟩ := List.nodup_cons.mp hhash
    obtain ⟨ctx₁, clip, hstore, hbecomes, hrows⟩ := storeCapture_of_fresh hc
    have hclip : clip.id = id ∧ clip.hash = captureHash capture := by
      obtain ⟨_, _, rfl⟩ := hbecomes
      exact ⟨rfl, rfl⟩
    have hfresh₁ : ∀ d ∈ captures, Fresh ctx₁.store d.1 d.2 := by
      intro d hd
      obtain ⟨hlabels, hne, hneid⟩ := hrest d hd
      refine ⟨hlabels, fun r hr => ?_, fun r hr => ?_⟩
      · rw [hrows, List.mem_append, List.mem_singleton] at hr
        rcases hr with hr | rfl
        · exact hne r hr
        · intro he
          exact hhashc (List.mem_map.mpr ⟨d, hd, (hclip.2.symm.trans he).symm⟩)
      · rw [hrows, List.mem_append, List.mem_singleton] at hr
        rcases hr with hr | rfl
        · exact hneid r hr
        · intro he
          exact hidc (List.mem_map.mpr ⟨d, hd, (hclip.1.symm.trans he).symm⟩)
    obtain ⟨ctx', clips, hcaptures, hforall, hrows'⟩ := ih hfresh₁ hid hhash
    refine ⟨ctx', clip :: clips, ?_, .cons hbecomes hforall, ?_⟩
    · rw [storeCaptures, hstore]
      exact hcaptures
    · rw [hrows', hrows, List.append_assoc]
      rfl

end SyncContext
end Clipse
