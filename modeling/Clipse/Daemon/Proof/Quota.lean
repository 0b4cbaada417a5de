import Clipse.Daemon.Capture
import Clipse.Lib.Stepwise
import Clipse.Store.Proof.Quota
import Clipse.Sync.Proof.Fate

/-!
# The quota over the operations of a daemon (`clipsed/src/capture.rs`, `sync.rs`)

A capture enforces the blob quota after its writes, so it leaves any store within it. A session
writes the blobs that it accepts and enforces nothing: it leaves the store within the quota exactly
if they fit (`session_withinQuota_iff`).
-/

namespace Clipse

open Duplex Session

section
variable [Blake3]

/-- The blobs among these that `blob_meta` gets a row for. -/
def Store.arriving (s : Store) (blobs : List (ContentHash × Bytes)) : List (ContentHash × Bytes) :=
  blobs.filter fun b => ContentHash.of b.2 = b.1 && !s.recorded b.1

/-- The digests that live pinned clips will refer to once the pushes are merged. -/
def keptAfter (s : Store) (pushes : List Clip) : List ContentHash :=
  ((rowsWith s pushes).filter fun r => (fate r pushes).value && !(fate r pushes).deleted).flatMap
    fun r => r.payloads.map (·.digest)

/-- There is room for the blobs that a session brings, or each blob then belongs to a live pinned
clip. -/
def SessionFits (s : Store) (pushes : List Clip) (blobs : List (ContentHash × Bytes)) : Prop :=
  s.blobBytes + ((s.arriving blobs).map (·.2.length)).sum ≤ s.blobQuotaBytes.toNat ∨
    ∀ d, s.recorded d ∨ d ∈ (s.arriving blobs).map (·.1) → d ∈ keptAfter s pushes

/-! ## The parts of a session -/

omit [Blake3] in
theorem Store.withinQuota_iff_recorded {s : Store} :
    s.WithinQuota ↔ s.blobBytes ≤ s.blobQuotaBytes.toNat ∨ ∀ d, s.recorded d → d ∈ s.kept := by
  unfold WithinQuota
  refine or_congr_right ⟨fun h d hd => ?_, fun h m hm => h _ (recorded_iff.2 ⟨m, hm, rfl⟩)⟩
  obtain ⟨m, hm, rfl⟩ := recorded_iff.1 hd
  exact h m hm

section
variable {s s' : Store} (h : Store.SameData s s')
include h
omit [Blake3]

theorem Store.SameData.blobBytes : s'.blobBytes = s.blobBytes := by
  have hs := congrArg (List.map Prod.snd) h.sizes
  rw [List.map_map, List.map_map] at hs
  exact congrArg List.sum hs

theorem Store.SameData.recorded (d : ContentHash) : s'.recorded d = s.recorded d := by
  have hs := congrArg (List.map Prod.fst) h.sizes
  rw [List.map_map, List.map_map] at hs
  have hmem : ∀ t : Store, t.recorded d ↔ d ∈ t.blobMeta.rows.map (·.digest) := by
    intro t
    rw [recorded_iff, List.mem_map]
  rw [Bool.eq_iff_iff, hmem, hmem]
  exact Iff.of_eq (congrArg (d ∈ ·) hs)

theorem Store.SameData.withinQuota_iff : s'.WithinQuota ↔ s.WithinQuota := by
  rw [withinQuota_iff_recorded, withinQuota_iff_recorded, h.blobBytes, h.quota, kept_congr h.rows]
  simp only [h.recorded]

end

/-- Bytes and rows of `blob_meta` after the blobs have come. -/
theorem Store.blobBytes_receiveBlobs {s : Store} {blobs : List (ContentHash × Bytes)}
    (hn : (blobs.map (·.1)).Nodup) :
    (s.receiveBlobs blobs).blobBytes =
        s.blobBytes + ((s.arriving blobs).map (·.2.length)).sum ∧
      (s.receiveBlobs blobs).blobQuotaBytes = s.blobQuotaBytes ∧
      ∀ d, (s.receiveBlobs blobs).recorded d ↔
        s.recorded d ∨ d ∈ (s.arriving blobs).map (·.1) := by
  induction blobs generalizing s with
  | nil => simp [receiveBlobs, arriving]
  | cons b blobs ih =>
    obtain ⟨digest, bytes⟩ := b
    rw [List.map_cons, List.nodup_cons] at hn
    rw [receiveBlobs]
    by_cases hd : ContentHash.of bytes = digest
    swap
    · rw [if_neg hd]
      have harr : s.arriving ((digest, bytes) :: blobs) = s.arriving blobs := by
        simp [arriving, hd]
      rw [harr]
      exact ih hn.2
    rw [if_pos hd]
    -- the blobs that are still to come have other digests
    have hrest : (s.putBlob digest bytes).arriving blobs = s.arriving blobs := by
      refine List.filter_congr fun b hb => ?_
      have hne : b.1 ≠ digest := fun he => hn.1 (List.mem_map.2 ⟨b, hb, he⟩)
      rw [recorded_putBlob]
      simp [hne]
    obtain ⟨hbytes, hquota, hrec⟩ := ih (s := s.putBlob digest bytes) hn.2
    rw [hrest] at hbytes hrec
    refine ⟨?_, hquota, fun d => ?_⟩
    · rw [hbytes, blobBytes_putBlob]
      cases hs : s.recorded digest with
      | true => simp [arriving, hs]
      | false =>
        simp [arriving, hs, hd]
        omega
    · rw [hrec, recorded_putBlob]
      cases hs : s.recorded digest with
      | true =>
        have harr : s.arriving ((digest, bytes) :: blobs) = s.arriving blobs := by
          simp [arriving, hs]
        have hor : (s.recorded d || d = digest) = s.recorded d := by
          by_cases he : d = digest
          · subst he
            simp [hs]
          · simp [he]
        rw [harr, hor]
      | false =>
        have harr : s.arriving ((digest, bytes) :: blobs) = (digest, bytes) :: s.arriving blobs := by
          simp [arriving, hs, hd]
        rw [harr, List.map_cons, List.mem_cons, Bool.or_eq_true, decide_eq_true_eq, or_assoc]

/-- Merging clips does not touch the blobs. -/
theorem sameBlobs_takeAll {clips : List Clip} {t t' : Taken} {ctx ctx' : SyncContext}
    (h : (takeAll clips t).eval ctx = some (.ok t', ctx')) :
    Store.SameBlobs ctx.store ctx'.store := by
  induction clips generalizing t ctx with
  | nil =>
    rw [takeAll_nil] at h
    cases h
    exact .refl _
  | cons c clips ih =>
    obtain ⟨t₁, ctx₁, hr, h⟩ := takeAll_cons_ok h
    refine .trans ?_ (ih h)
    obtain ⟨a, ha, -⟩ := takePush_ok hr
    rcases apply_cases ha with ⟨-, rfl, -⟩ | ⟨-, -, -, -, -, hb, -⟩ | ⟨r, now, -, -, -, -, -, hb, -⟩
    · exact .refl _
    · exact hb
    · exact hb

theorem pinned_live_of_fated {pushes : List Clip} {r₀ r : ClipRow} (h : Fated pushes r₀ r) :
    (r.pinned && !r.deleted) = ((fate r₀ pushes).value && !(fate r₀ pushes).deleted) := by
  cases hd : r.deleted with
  | true => rw [← h.deleted, hd, Bool.not_true, Bool.and_false, Bool.and_false]
  | false =>
    rw [← h.mark hd]
    show _ = (r.pinned && !r.deleted)
    rw [hd]

/-- Which blobs are kept for pinned clips depends on what becomes of the rows. -/
theorem mem_kept_iff {s₀ s : Store} {pushes : List Clip}
    (h : List.Forall₂ (Fated pushes) (rowsWith s₀ pushes) s.rows) (d : ContentHash) :
    d ∈ s.kept ↔ d ∈ keptAfter s₀ pushes := by
  have hlists : ∀ base rows : List ClipRow, List.Forall₂ (Fated pushes) base rows →
      (rows.filter fun r => r.pinned && !r.deleted).flatMap (fun r => r.payloads.map (·.digest)) =
        (base.filter fun r => (fate r pushes).value && !(fate r pushes).deleted).flatMap
          fun r => r.payloads.map (·.digest) := by
    intro base rows hf
    induction hf with
    | nil => rfl
    | cons hr _ ih =>
      rw [List.filter_cons, List.filter_cons, pinned_live_of_fated hr]
      split
      · rw [List.flatMap_cons, List.flatMap_cons, ih, hr.payloads]
      · exact ih
  exact Iff.of_eq (congrArg (d ∈ ·) (hlists _ _ h))

theorem keptAfter_congr {s s' : Store} (h : Store.SameData s s') (pushes : List Clip) :
    keptAfter s' pushes = keptAfter s pushes := by
  have hrows : rowsWith s' pushes = rowsWith s pushes := by
    rw [rowsWith, rowsWith, newClips_congr h.rep, h.rows]
  rw [keptAfter, keptAfter, hrows]

/-- **A session against any peer** leaves the store within the quota exactly if what it brought
fits. -/
theorem session_withinQuota_iff {role : Role} {peer : DeviceId} {epoch : UInt64} {ctx : SyncContext}
    {p : End syncWire SyncOutcome} {F : Link syncWire SyncOutcome} {outcome : SyncOutcome}
    (h : Steps ({ proc := run peer epoch role, state := ctx }, p) F)
    (hr : F.1.proc = .done outcome) :
    F.1.state.store.WithinQuota ↔
      SessionFits ctx.store (pushedClips F.1) ((blobWant F.1).zip (receivedStreams F.1)) := by
  obtain ⟨ctx₀, o, t, ctx₁, hsame, ht, -, hwant, hl, hend⟩ := run_returns_data h hr
  have hb := sameBlobs_takeAll ht
  have hfated := fated_takeAll (fated_refl ctx₀.store) ht
  rw [List.nil_append] at hfated
  -- the blobs before the streams come are those before the session
  have hbytes₁ : ctx₁.store.blobBytes = ctx.store.blobBytes := by
    rw [← hsame.blobBytes, Store.blobBytes, hb.blobMeta]
    rfl
  have hrec₁ : ∀ d, ctx₁.store.recorded d = ctx.store.recorded d := by
    intro d
    rw [← hsame.recorded, Store.recorded, hb.blobMeta]
    rfl
  have harr : ∀ blobs, ctx₁.store.arriving blobs = ctx.store.arriving blobs := by
    intro blobs
    simp only [Store.arriving, hrec₁]
  -- the streams are for different digests
  have hn : (((blobWant F.1).zip (receivedStreams F.1)).map (·.1)).Nodup := by
    rw [List.map_fst_zip hl.ge, hwant]
    exact Store.nodup_neededFrom .nil
  obtain ⟨hbytes, hquota, hrec⟩ := Store.blobBytes_receiveBlobs (s := ctx₁.store) hn
  rw [Store.withinQuota_iff_recorded, SessionFits, hend.blobBytes, hend.quota, hbytes, hquota,
    hbytes₁, hb.quota, hsame.quota, harr]
  refine or_congr_right (forall_congr' fun d => ?_)
  rw [hend.recorded, hrec, hrec₁, harr, Store.kept_congr hend.rows,
    Store.kept_congr (Store.rows_receiveBlobs _ _), mem_kept_iff hfated, keptAfter_congr hsame]

/-! ## Runs -/

/-- The operations that write blobs or what keeps them; of a session, what it received. -/
inductive BlobOp where
  | capture (id : ClipId) (capture : Capture)
  | session (role : Role) (pushes : List Clip) (blobs : List (ContentHash × Bytes))

/-- An operation that was completed. -/
inductive Completed : SyncContext → BlobOp → SyncContext → Prop where
  | capture {ctx ctx' : SyncContext} {id : ClipId} {capture : Capture} {outcome : InsertOutcome}
      (h : ctx.storeCapture id capture = .ok (outcome, ctx')) :
      Completed ctx (.capture id capture) ctx'
  | session {role : Role} {peer : DeviceId} {epoch : UInt64} {ctx : SyncContext}
      {p : End syncWire SyncOutcome} {F : Link syncWire SyncOutcome} {outcome : SyncOutcome}
      (h : Steps ({ proc := run peer epoch role, state := ctx }, p) F)
      (hr : F.1.proc = .done outcome) :
      Completed ctx
        (.session role (pushedClips F.1) ((blobWant F.1).zip (receivedStreams F.1))) F.1.state

/-- The quota holds after the operation. -/
def QuotaKept (_ : SyncContext) (_ : BlobOp) (ctx' : SyncContext) : Prop := ctx'.store.WithinQuota

/-- What a session brings fits. -/
def Admissible (ctx : SyncContext) : BlobOp → SyncContext → Prop
  | .capture .., _ => True
  | .session _ pushes blobs, _ => SessionFits ctx.store pushes blobs

/-- **The blob quota** holds after every operation of a run exactly if every session brings no more
than fits. -/
theorem quota_kept_iff {ctx : SyncContext} {run : List (BlobOp × SyncContext)}
    (h : Trail Completed ctx run) : Trail QuotaKept ctx run ↔ Trail Admissible ctx run := by
  refine trail_congr (fun ctx op ctx' hop => ?_) h
  cases hop with
  | capture hc =>
    obtain ⟨-, s, -, hs⟩ := SyncContext.storeCapture_eq_ok hc
    refine iff_of_true ?_ trivial
    unfold QuotaKept
    rw [hs]
    exact s.withinQuota_enforce
  | session hsteps hr => exact session_withinQuota_iff hsteps hr

end

/-! ## Worked operations -/

section
attribute [local instance] Blake3.examples

/-- A device that has nothing takes over the big picture of another. -/
theorem exists_fetched (quota : UInt64) : ∃ (p : End syncWire SyncOutcome)
    (F : Link syncWire SyncOutcome) (outcome : SyncOutcome),
    Steps ({ proc := run (.repeated 1) 0 .responder,
             state := .start (.open_ quota) (.repeated 2) fun _ => 0 }, p) F ∧
      F.1.proc = .done outcome ∧ F.1.state.store.blobBytes = 65537 ∧
        F.1.state.store.blobQuotaBytes = quota ∧ F.1.state.store.recorded bigDigest ∧
          F.1.state.store.kept = [] := by
  have hcanonical := picture_canonical 1 (.repeated 1) ⟨1, 0, .repeated 1⟩
  obtain ⟨s, hs, hrows, hblob⟩ := exists_copied (2 ^ 31) of_bigImage hcanonical
  have hc := ClipRow.toClip_of_canonical hcanonical
  have hdigests := blobDigests_picture 1 (.repeated 1) ⟨1, 0, .repeated 1⟩
  rw [of_bigImage] at hdigests
  obtain ⟨F, hF⟩ := session_completes (a := .start s (.repeated 1) fun _ => 0)
    (b := .start (.open_ quota) (.repeated 2) fun _ => 0) hs.sound
    (Store.Reachable.open_ quota).sound (by
      intro r hr r' hr' _
      rw [SyncContext.start_store, SyncContext.start_store, hrows] at hr hr'
      rw [List.mem_singleton.1 hr, List.mem_singleton.1 hr']) 0 0
  obtain ⟨outcome, hsteps, hout, -⟩ := responder_returns hF
  -- what the session did to the store
  obtain ⟨t, b₁, a', b', hlc, t', a₁, hlc', hturn, hturn', -, -⟩ := completes_session hF
  obtain ⟨hstored, -, hrows₁, hsame⟩ := hturn.of_new hrows hc hdigests rfl rfl
  rw [SyncContext.start_store, hblob] at hstored
  have hone : ([(bigDigest, bigImage)].map (·.1)).Nodup := List.nodup_singleton _
  obtain ⟨hbytes, hq, hrec⟩ := Store.blobBytes_receiveBlobs (s := b₁.store) hone
  have hnot : b₁.store.recorded bigDigest = false := by
    rw [Store.recorded, hsame.blobMeta]
    rfl
  have harr : b₁.store.arriving [(bigDigest, bigImage)] = [(bigDigest, bigImage)] := by
    simp [Store.arriving, hnot, of_bigImage]
  have hnone : b₁.store.blobBytes = 0 := by
    rw [Store.blobBytes, hsame.blobMeta]
    rfl
  rw [harr] at hbytes hrec
  have hend := hturn'.sender
  refine ⟨_, F.swap, outcome, hsteps, hout, ?_, ?_, ?_, ?_⟩
  · show F.2.state.store.blobBytes = _
    rw [hend.blobBytes, hstored, hbytes, hnone, List.map_singleton, List.sum_singleton,
      length_bigImage]
  · show F.2.state.store.blobQuotaBytes = _
    rw [hend.quota, hstored, hq, hsame.quota]
    rfl
  · show F.2.state.store.recorded bigDigest = true
    rw [hend.recorded, hstored]
    exact (hrec _).2 (.inr (List.mem_singleton_self _))
  · show F.2.state.store.kept = []
    rw [Store.kept_congr hend.rows, hstored, Store.kept_congr (Store.rows_receiveBlobs _ _), Store.kept,
      Store.referenced, show b₁.store.clip.rows = _ from hrows₁]
    rfl

/-- A device with a small quota takes a picture of its peer's. -/
theorem quota_not_kept :
    ¬ ∀ (quota : UInt64) (device : DeviceId) (time : Nat → UInt64)
      (run : List (BlobOp × SyncContext)), Trail Completed (.start (.open_ quota) device time) run →
      Trail QuotaKept (.start (.open_ quota) device time) run := by
  intro h
  obtain ⟨p, F, outcome, hsteps, hout, hbytes, hquota, hrecorded, hkept⟩ := exists_fetched 65536
  have hwithin := (h 65536 (.repeated 2) (fun _ => 0) [(_, F.1.state)]
    ⟨.session hsteps hout, trivial⟩).1
  have hsmall : (65536 : UInt64).toNat = 65536 := rfl
  rcases Store.withinQuota_iff_recorded.1 hwithin with hle | hall
  · rw [hbytes, hquota, hsmall] at hle
    omega
  · have hmem := hall bigDigest hrecorded
    rw [hkept] at hmem
    cases hmem

/-- A device with a large one takes it too, and it fits. -/
theorem quota_kept_iff_fetched : ∃ (F : Link syncWire SyncOutcome) (outcome : SyncOutcome),
    F.1.proc = .done outcome ∧ F.1.state.store.recorded bigDigest ∧
      let run := [(BlobOp.session .responder (pushedClips F.1) ((blobWant F.1).zip (receivedStreams F.1)),
        F.1.state)]
      let ctx := SyncContext.start (.open_ 131072) (.repeated 2) fun _ => 0
      (Trail QuotaKept ctx run ↔ Trail Admissible ctx run) ∧ Trail Admissible ctx run := by
  obtain ⟨p, F, outcome, hsteps, hout, hbytes, hquota, hrecorded, -⟩ := exists_fetched 131072
  have htrail : Trail Completed (.start (.open_ 131072) (.repeated 2) fun _ => 0)
      [(_, F.1.state)] := ⟨.session hsteps hout, trivial⟩
  have hiff := quota_kept_iff htrail
  refine ⟨F, outcome, hout, hrecorded, hiff, hiff.1 ⟨.inl ?_, trivial⟩⟩
  show F.1.state.store.blobBytes ≤ F.1.state.store.blobQuotaBytes.toNat
  rw [hbytes, hquota]
  decide

end

end Clipse
