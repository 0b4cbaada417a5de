import Clipse.Daemon.Capture
import Clipse.Lib.Stepwise
import Clipse.Store.Proof.Calls
import Clipse.Store.Proof.Quota

/-!
# Purges between the calls of a capture (`clipsed/src/capture.rs`, `clipse-store/src/blob.rs`)

`store_capture` gives the bytes of large payloads to `put_blob` first and inserts the row that refers
to them last. Each call takes the connection mutex of its own, so other calls can come between. A
`purge_tombstones` there removes every blob that no row refers to, those of the capture with the rest:
`purge_spares_iff` says which purges do not.

`Captures` is the store with the captures in progress; a capture with nothing between its calls does
to the store what `storeCapture` does (`storeCapture_alone`).
-/

namespace Clipse

/-! ## What is removed -/

namespace Store

theorem hasBlob_foldl_dropBlob {s : Store} {digests : List ContentHash} {d : ContentHash} :
    (digests.foldl dropBlob s).hasBlob d ↔ s.hasBlob d ∧ d ∉ digests := by
  induction digests generalizing s with
  | nil => simp
  | cons digest digests ih =>
    rw [List.foldl_cons, ih, hasBlob_dropBlob, List.mem_cons, not_or, and_assoc]

/-- The rows that `purge_tombstones` leaves refer to the blob. -/
def KeepsRef (s : Store) (olderThanMs now : UInt64) (d : ContentHash) : Prop :=
  ∃ r ∈ s.rows, due olderThanMs now r = false ∧ d ∈ r.payloads.map (·.digest)

theorem mem_referenced_purgeTombstones {s : Store} {olderThanMs now : UInt64} {d : ContentHash} :
    d ∈ (s.purgeTombstones olderThanMs now).referenced (fun _ => true) ↔
      s.KeepsRef olderThanMs now d := by
  have hrows := rows_purgeTombstones s olderThanMs now
  simp only [rows] at hrows
  simp [referenced, hrows, KeepsRef, rows, and_assoc]

theorem hasBlob_pruneOrphanBlobs {s : Store} {d : ContentHash} :
    s.pruneOrphanBlobs.hasBlob d ↔
      s.hasBlob d ∧ (s.recorded d → d ∈ s.referenced fun _ => true) := by
  rw [pruneOrphanBlobs, hasBlob_foldl_dropBlob]
  apply and_congr_right'
  simp only [List.mem_filter, List.mem_map, decide_eq_true_eq, not_and, not_not, recorded_iff]

/-- **What a purge removes**: the recorded blobs that no row refers to which it leaves. -/
theorem hasBlob_purgeTombstones {s : Store} {olderThanMs now : UInt64} {d : ContentHash} :
    (s.purgeTombstones olderThanMs now).hasBlob d ↔
      s.hasBlob d ∧ (s.recorded d → s.KeepsRef olderThanMs now d) := by
  rw [← mem_referenced_purgeTombstones, purgeTombstones, hasBlob_pruneOrphanBlobs]
  unfold referenced
  rw [show (pruneOrphanBlobs _).clip.rows = _ from rows_pruneOrphanBlobs _]
  rfl

theorem hasBlob_write [Blake3] (s : Store) (w : Write) (d : ContentHash) :
    (s.write w).hasBlob d = s.hasBlob d := by
  rw [hasBlob, hasBlob, (s.sameBlobs_write w).files]

theorem hasBlob_readBlob {s s' : Store} {digest d : ContentHash} {bytes : Bytes}
    (h : s.readBlob digest = .ok (bytes, s')) : s'.hasBlob d = s.hasBlob d := by
  unfold readBlob at h
  split at h
  · cases h
  · cases h
    rfl

end Store

/-! ## Captures in progress -/

/-- A `store_capture` between two of its calls. -/
structure Capturing where
  clip : Clip
  /-- What is still to be given to `put_blob`. -/
  todo : List Bytes
  /-- Of the blobs stored so far, those that `enforce_blob_quota` has evicted since. -/
  evicted : List ContentHash

/-- The store, and the captures that threads are in the middle of. -/
structure Captures where
  store : Store
  running : Nat → Option Capturing

/-- One call to the store, or the beginning of a capture. -/
inductive CaptureOp where
  | begin (thread : Nat) (id : ClipId) (payloads : List (ClipFormat × Bytes)) (source : ClipSource)
      (hlc : Hlc)
  /-- The next `put_blob` of the capture. -/
  | putBlob (thread : Nat)
  /-- Its `insert`. -/
  | insert (thread : Nat)
  | enforceBlobQuota
  | purgeTombstones (olderThanMs now : UInt64)
  /-- A session has received a blob. -/
  | receive (digest : ContentHash) (bytes : Bytes)
  /-- Other writes of clips. -/
  | write (w : Store.Write)
  | readBlob (digest : ContentHash)

namespace Captures

open SyncContext (payloadOf spill)

section
variable [Blake3]

def setRunning (s : Captures) (thread : Nat) (c : Option Capturing) : Captures :=
  { s with running := Function.update s.running thread c }

/-- An operation that is not the thread's next does nothing. -/
def step (s : Captures) : CaptureOp → Captures
  | .begin thread id payloads source hlc =>
    match s.running thread with
    | none =>
      s.setRunning thread
        (some ⟨.new id (payloads.map payloadOf) source hlc, spill payloads, []⟩)
    | some _ => s
  | .putBlob thread =>
    match s.running thread with
    | some ⟨clip, bytes :: todo, evicted⟩ =>
      { s with store := s.store.putBlob (.of bytes) bytes }.setRunning thread
        (some ⟨clip, todo, evicted.filter (· ≠ ContentHash.of bytes)⟩)
    | _ => s
  | .insert thread =>
    match s.running thread with
    | some ⟨clip, [], _⟩ => { s with store := s.store.write (.insert clip) }.setRunning thread none
    | _ => s
  | .enforceBlobQuota =>
    let store := s.store.enforceBlobQuota
    let gone (d : ContentHash) : Bool := s.store.hasBlob d && !store.hasBlob d
    { store
      running := fun thread => (s.running thread).map fun c =>
        { c with evicted := c.evicted ++ c.clip.blobDigests.filter gone } }
  | .purgeTombstones olderThanMs now =>
    { s with store := s.store.purgeTombstones olderThanMs now }
  | .receive digest bytes =>
    if ContentHash.of bytes = digest then { s with store := s.store.putBlob digest bytes } else s
  | .write w => { s with store := s.store.write w }
  | .readBlob digest =>
    match s.store.readBlob digest with
    | .ok (_, store) => { s with store }
    | .error _ => s

/-- No capture is in progress. -/
def idle (store : Store) : Captures := { store, running := fun _ => none }

/-- **Purging never takes a clip's bytes.** When a capture has been inserted, the bytes of its large
payloads are there, unless they have been evicted. A purge removes only blobs that no stored payload
refers to, and none of a capture in progress. -/
def Kept (s : Captures) : CaptureOp → Prop
  | .insert thread => ∀ c, s.running thread = some c → c.todo = [] →
      ∀ id store, s.store.insert c.clip = .ok (.inserted id, store) →
        ∀ d ∈ c.clip.blobDigests, store.hasBlob d ∨ d ∈ c.evicted
  | .purgeTombstones olderThanMs now => ∀ d, s.store.hasBlob d →
      (s.store.purgeTombstones olderThanMs now).hasBlob d = false →
        d ∉ (s.store.purgeTombstones olderThanMs now).referenced (fun _ => true) ∧
          ∀ thread c, s.running thread = some c → d ∉ c.clip.payloads.map (·.digest)
  | _ => True

/-- A row that the purge leaves refers to each recorded blob that a capture in progress refers to. -/
def Spares (s : Captures) : CaptureOp → Prop
  | .purgeTombstones olderThanMs now => ∀ thread c, s.running thread = some c →
      ∀ d ∈ c.clip.payloads.map (·.digest), s.store.hasBlob d → s.store.recorded d →
        s.store.KeepsRef olderThanMs now d
  | _ => True

/-- What is stored of a capture is there, until it is evicted. -/
structure Inv (s : Captures) : Prop where
  stored : ∀ thread c, s.running thread = some c → ∀ d ∈ c.clip.blobDigests,
    d ∈ c.todo.map .of ∨ s.store.hasBlob d ∨ d ∈ c.evicted

variable {s : Captures} {op : CaptureOp}

theorem kept_purgeTombstones_iff {olderThanMs now : UInt64} :
    s.Kept (.purgeTombstones olderThanMs now) ↔ s.Spares (.purgeTombstones olderThanMs now) := by
  constructor
  · intro h thread c hc d hd hhas hrec
    by_contra href
    have hgone : (s.store.purgeTombstones olderThanMs now).hasBlob d = false := by
      rw [Bool.eq_false_iff, ne_eq, Store.hasBlob_purgeTombstones]
      exact fun hkept => href (hkept.2 hrec)
    exact (h d hhas hgone).2 thread c hc hd
  · intro h d hhas hgone
    have hlost : ¬ (s.store.recorded d → s.store.KeepsRef olderThanMs now d) := by
      intro hkeep
      rw [Store.hasBlob_purgeTombstones.2 ⟨hhas, hkeep⟩] at hgone
      cases hgone
    rw [Store.mem_referenced_purgeTombstones]
    obtain ⟨hrec, href⟩ := Classical.not_imp.1 hlost
    exact ⟨href, fun thread c hc hd => href (h thread c hc d hd hhas hrec)⟩

omit [Blake3] in
theorem mem_digests_of_blob {c : Clip} {d : ContentHash} (h : d ∈ c.blobDigests) :
    d ∈ c.payloads.map (·.digest) := by
  obtain ⟨p, hp, rfl⟩ := List.mem_map.1 h
  exact List.mem_map_of_mem (List.mem_filter.1 hp).1

/-- The large payloads of a capture are what it gives to `put_blob`. -/
theorem blobDigests_new {id : ClipId} {payloads : List (ClipFormat × Bytes)} {source : ClipSource}
    {hlc : Hlc} {d : ContentHash}
    (h : d ∈ (Clip.new id (payloads.map payloadOf) source hlc).blobDigests) :
    d ∈ (spill payloads).map ContentHash.of := by
  obtain ⟨p, hp, rfl⟩ := List.mem_map.1 h
  obtain ⟨hmem, hblob⟩ := List.mem_filter.1 hp
  obtain ⟨⟨format, bytes⟩, hq, rfl⟩ :=
    List.mem_map.1 ((List.perm_insertionSort _ _).mem_iff.1 hmem)
  have hlong : inlineMaxBytes < bytes.length := by
    by_contra hle
    rw [payloadOf, if_neg hle, Payload.new, if_pos (Nat.le_of_not_lt hle)] at hblob
    cases hblob
  rw [payloadOf, if_pos hlong]
  refine List.mem_map.2 ⟨bytes, List.mem_filter.2 ⟨List.mem_map_of_mem hq, ?_⟩, rfl⟩
  exact decide_eq_true hlong

/-- A store that has lost no blob. -/
theorem Inv.of_store {store : Store} (h : s.Inv)
    (hmore : ∀ d, s.store.hasBlob d → store.hasBlob d) : Inv { s with store } :=
  ⟨fun thread c hc d hd => (h.stored thread c hc d hd).imp_right (.imp_left (hmore d))⟩

theorem Inv.setRunning {thread : Nat} {c : Option Capturing} (h : s.Inv)
    (hc : ∀ c', c = some c' → ∀ d ∈ c'.clip.blobDigests,
      d ∈ c'.todo.map ContentHash.of ∨ s.store.hasBlob d ∨ d ∈ c'.evicted) :
    (s.setRunning thread c).Inv := by
  refine ⟨fun t c' ht => ?_⟩
  change Function.update s.running thread c t = some c' at ht
  by_cases he : t = thread
  · subst he
    rw [Function.update_self] at ht
    exact hc c' ht
  · rw [Function.update_of_ne he] at ht
    exact h.stored t c' ht

/-- **One call** keeps what is stored of the captures in progress, if it is no purge that does not
spare them. -/
theorem Inv.step (h : s.Inv) (hop : s.Spares op) : (s.step op).Inv := by
  cases op with
  | begin thread id payloads source hlc =>
    rw [Captures.step]
    split
    · refine h.setRunning fun c' he d hd => ?_
      cases he
      exact .inl (blobDigests_new hd)
    · exact h
  | putBlob thread =>
    rw [Captures.step]
    split
    · next clip bytes todo evicted hrun =>
      have hput : ∀ d, (s.store.putBlob (.of bytes) bytes).hasBlob d ↔
          d = .of bytes ∨ s.store.hasBlob d := fun d => Store.hasBlob_putBlob _ _ d _
      refine (h.of_store fun d hd => (hput d).2 (.inr hd)).setRunning fun c' he d hd => ?_
      cases he
      by_cases hnow : d = .of bytes
      · exact .inr (.inl ((hput d).2 (.inl hnow)))
      · rcases h.stored thread _ hrun d hd with htodo | hhas | hev
        · exact .inl ((List.mem_cons.1 htodo).resolve_left hnow)
        · exact .inr (.inl ((hput d).2 (.inr hhas)))
        · exact .inr (.inr (List.mem_filter.2 ⟨hev, decide_eq_true hnow⟩))
    · exact h
  | insert thread =>
    rw [Captures.step]
    split
    · refine (h.of_store fun d hd => ?_).setRunning nofun
      rwa [Store.hasBlob_write]
    · exact h
  | enforceBlobQuota =>
    refine ⟨fun thread c' hc' d hd => ?_⟩
    obtain ⟨c, hc, rfl⟩ := Option.map_eq_some_iff.1 hc'
    rcases h.stored thread c hc d hd with htodo | hhas | hev
    · exact .inl htodo
    · by_cases hstill : s.store.enforceBlobQuota.hasBlob d
      · exact .inr (.inl hstill)
      · refine .inr (.inr (List.mem_append_right _ (List.mem_filter.2 ⟨hd, ?_⟩)))
        simp [hhas, hstill]
    · exact .inr (.inr (List.mem_append_left _ hev))
  | purgeTombstones olderThanMs now =>
    refine ⟨fun thread c hc d hd => ?_⟩
    refine (h.stored thread c hc d hd).imp_right (.imp_left fun hhas => ?_)
    exact Store.hasBlob_purgeTombstones.2
      ⟨hhas, hop thread c hc d (mem_digests_of_blob hd) hhas⟩
  | receive digest bytes =>
    rw [Captures.step]
    split
    · exact h.of_store fun d hd => (Store.hasBlob_putBlob _ _ _ _).2 (.inr hd)
    · exact h
  | write w => exact h.of_store fun d hd => by rwa [Store.hasBlob_write]
  | readBlob digest =>
    rw [Captures.step]
    split
    · next hread => exact h.of_store fun d hd => by rwa [Store.hasBlob_readBlob hread]
    · exact h

/-- **Which purges may fall between** the calls of captures: throughout a run no clip loses its
bytes exactly if every purge spares the captures in progress. -/
theorem purge_spares_iff (store : Store) (ops : List CaptureOp) :
    Stepwise step Kept (idle store) ops ↔ Stepwise step Spares (idle store) ops := by
  constructor
  · refine fun h => h.imp (I := fun _ => True) (fun _ _ _ _ => trivial) (fun s op _ hk => ?_) trivial
    cases op with
    | purgeTombstones olderThanMs now => exact kept_purgeTombstones_iff.1 hk
    | _ => trivial
  · refine fun h => h.imp (I := Inv) (fun _ _ => Inv.step) (fun s op hi hs => ?_) ⟨nofun⟩
    cases op with
    | purgeTombstones olderThanMs now => exact kept_purgeTombstones_iff.2 hs
    | insert thread =>
      intro c hc htodo id store' hins d hd
      rw [← Store.write_eq_of_insert hins, Store.hasBlob_write]
      refine (hi.stored thread c hc d hd).resolve_left ?_
      rw [htodo]
      exact List.not_mem_nil
    | _ => trivial

/-! ## A capture alone -/

/-- One capture is in progress. -/
def busy (store : Store) (thread : Nat) (c : Capturing) : Captures :=
  (idle store).setRunning thread (some c)

omit [Blake3] in
theorem running_busy (store : Store) (thread : Nat) (c : Capturing) :
    (busy store thread c).running thread = some c := Function.update_self ..

omit [Blake3] in
theorem setRunning_busy (store store' : Store) (thread : Nat) (c : Capturing)
    (c' : Option Capturing) :
    { busy store thread c with store := store' }.setRunning thread c' =
      (idle store').setRunning thread c' := by
  simp [busy, setRunning, idle]

theorem step_begin (store : Store) (thread : Nat) (id : ClipId) (payloads : List (ClipFormat × Bytes))
    (source : ClipSource) (hlc : Hlc) :
    (idle store).step (.begin thread id payloads source hlc) =
      busy store thread ⟨.new id (payloads.map payloadOf) source hlc, spill payloads, []⟩ := rfl

theorem step_putBlob (store : Store) (thread : Nat) (clip : Clip) (bytes : Bytes)
    (todo : List Bytes) :
    (busy store thread ⟨clip, bytes :: todo, []⟩).step (.putBlob thread) =
      busy (store.putBlob (.of bytes) bytes) thread ⟨clip, todo, []⟩ := by
  rw [step, running_busy]
  exact setRunning_busy ..

theorem step_insert (store : Store) (thread : Nat) (clip : Clip) :
    (busy store thread ⟨clip, [], []⟩).step (.insert thread) = idle (store.write (.insert clip)) := by
  rw [step, running_busy]
  refine (setRunning_busy ..).trans ?_
  simp [setRunning, idle, busy]

/-- The calls of `store_capture`, with nothing between them. -/
def captureOps (thread : Nat) (id : ClipId) (payloads : List (ClipFormat × Bytes))
    (source : ClipSource) (hlc : Hlc) : List CaptureOp :=
  .begin thread id payloads source hlc ::
    ((spill payloads).map (fun _ => .putBlob thread) ++ [.insert thread, .enforceBlobQuota])

theorem foldl_putBlob (store : Store) (thread : Nat) (clip : Clip) (todo : List Bytes) :
    (todo.map fun _ => CaptureOp.putBlob thread).foldl step (busy store thread ⟨clip, todo, []⟩) =
      busy (todo.foldl (fun s bytes => s.putBlob (.of bytes) bytes) store) thread ⟨clip, [], []⟩ := by
  induction todo generalizing store with
  | nil => rfl
  | cons bytes todo ih => rw [List.map_cons, List.foldl_cons, step_putBlob, ih, List.foldl_cons]

/-- **Alone**, the calls do to the store what `storeCapture` does. -/
theorem storeCapture_alone {ctx ctx' : SyncContext} {id : ClipId} {capture : Capture}
    {outcome : InsertOutcome} (h : ctx.storeCapture id capture = .ok (outcome, ctx'))
    (thread : Nat) :
    (captureOps thread id capture.payloads (ctx.now.2.clipSource capture.app) ctx.now.1).foldl step
      (idle ctx.store) = idle ctx'.store := by
  rw [captureOps, List.foldl_cons, step_begin, List.foldl_append, foldl_putBlob, List.foldl_cons,
    step_insert, List.foldl_cons, List.foldl_nil]
  unfold SyncContext.storeCapture at h
  dsimp only at h
  have hnow : ctx.now.2.store = ctx.store := rfl
  rw [hnow] at h
  split at h
  · cases h
  next outcome' store hins =>
    rw [Store.write_eq_of_insert hins]
    have hstore : ctx'.store = store.enforceBlobQuota := by
      split at h
      · cases h
        rfl
      · split at h
        · cases h
          rfl
        · cases h
          rfl
      · cases h
        rfl
    rw [hstore]
    rfl

end

/-! ## A purge between the calls -/

section
attribute [local instance] Blake3.examples

/-- A picture is copied. -/
def copied : List (ClipFormat × Bytes) := [(.png, bigImage)]

def onDesktop : ClipSource := { device := .repeated 1, deviceLabel := "desktop", app := none }

def picture : Clip := .new ⟨0⟩ (copied.map payloadOf) onDesktop ⟨0, 0, .repeated 1⟩

/-- Its bytes have been stored, and there is a purge. -/
def purged : Store :=
  ((Store.open_ 1000000).putBlob (.of bigImage) bigImage).purgeTombstones 0 0

theorem spill_copied : spill copied = [bigImage] := by
  have hlong : inlineMaxBytes < bigImage.length := by
    rw [length_bigImage]
    decide
  simp [spill, copied, hlong]

theorem mem_blobDigests_picture : ContentHash.of bigImage ∈ picture.blobDigests := by
  have hlong : inlineMaxBytes < bigImage.length := by
    rw [length_bigImage]
    decide
  simp [picture, Clip.blobDigests, Clip.new, Clip.sortPayloads, copied, payloadOf, hlong,
    Payload.blob, Payload.isBlob]

theorem hasBlob_purged : purged.hasBlob (.of bigImage) = false := by
  rw [Bool.eq_false_iff, purged, ne_eq, Store.hasBlob_purgeTombstones]
  rintro ⟨-, hkeep⟩
  obtain ⟨r, hr, -⟩ := hkeep (by simp [Store.recorded_putBlob])
  cases hr

theorem insert_purged : ∃ store, purged.insert picture = .ok (.inserted ⟨0⟩, store) := by
  have hrows : ∀ r, r ∉ purged.rows := by
    intro r hr
    rw [purged, Store.rows_purgeTombstones] at hr
    cases List.mem_of_mem_filter hr
  have hcanonical : picture.Canonical := Clip.new_canonical _ _ _ (List.nodup_singleton _)
  obtain ⟨store, hins, -⟩ := Store.insert_fresh hcanonical
    (fun r hr => absurd hr (hrows r)) (fun r hr => absurd hr (hrows r))
  exact ⟨store, hins⟩

/-- The capture is inserted, and its bytes are gone. -/
theorem not_purge_spares :
    ¬ ∀ (store : Store) (ops : List CaptureOp), Stepwise step Kept (idle store) ops := by
  intro h
  obtain ⟨-, -, -, hkept, -⟩ := h (.open_ 1000000)
    [.begin 0 ⟨0⟩ copied onDesktop ⟨0, 0, .repeated 1⟩, .putBlob 0, .purgeTombstones 0 0, .insert 0]
  rw [step_begin, spill_copied, step_putBlob] at hkept
  obtain ⟨store, hins⟩ := insert_purged
  rcases hkept _ rfl rfl _ _ hins _ mem_blobDigests_picture with hhas | hev
  · rw [← Store.write_eq_of_insert hins, Store.hasBlob_write] at hhas
    rw [hasBlob_purged] at hhas
    cases hhas
  · cases hev

end

end Captures
end Clipse
