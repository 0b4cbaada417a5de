import Clipse.Daemon.History
import Clipse.Daemon.Proof.Captures
import Clipse.Net.Proof.Size
import Clipse.Store.Proof.Paging
import Clipse.Store.Proof.Search
import Mathlib.Algebra.Order.BigOperators.Group.List

/-!
# Which pages of the history fit

A page is answered if and only if its clips, with inline bytes of 0x80 or more counted twice, come to
no more than a frame may hold (`pages_answered_iff`). Nothing else bounds a page: 150 clips with two
representations of 64 KiB do not fit.
-/

namespace Clipse

open MessagePack

/-- The clips of a page, or the error of a search. -/
def HistoryRequest.page [Fts5] (store : Store) : HistoryRequest → Except String (List Clip)
  | .history query => .ok (store.recent (toStoreQuery query))
  | .search text query => store.search text (toStoreQuery query)

/-- The bytes of a page, or of the error, and those of the frame around it. -/
def pageSize (id : UInt64) : Except String (List Clip) → Nat
  | .ok clips => 26 + uintSize id.toNat + seqSize clips.length + (clips.map clipSize).sum
  | .error e => 49 + uintSize id.toNat + strSize ("sqlite error: " ++ e)

theorem sum_le_pageSize (id : UInt64) (clips : List Clip) :
    (clips.map clipSize).sum ≤ pageSize id (.ok clips) := Nat.le_add_left _ _

theorem length_packResponse [Fts5] (id : UInt64) (store : Store) (request : HistoryRequest) :
    (packResponse id (request.handle store)).length = pageSize id (request.page store) := by
  have hid : strSize "id" = 3 := rfl
  have hbody : strSize "body" = 5 := rfl
  have hresponse : strSize "Response" = 9 := rfl
  have hclips : ∀ clips, (packResponse id (.clips clips)).length = pageSize id (.ok clips) := by
    intro clips
    have hsum : (clips.map fun c => (packClip c).length) = clips.map clipSize :=
      List.map_congr_left fun c _ => length_packClip c
    have hname : strSize "Clips" = 6 := rfl
    simp only [packResponse, packHistoryResponse, length_packFields, length_packVariant, List.map_cons,
      List.map_nil, List.sum_cons, List.sum_nil, length_packUint, length_packSeq, hsum, pageSize]
    omega
  cases request with
  | history query => exact hclips _
  | search text query =>
    simp only [HistoryRequest.handle, HistoryRequest.page]
    cases store.search text (toStoreQuery query) with
    | ok clips => exact hclips clips
    | error e =>
      have hname : strSize "Error" = 6 := rfl
      have hcode : strSize "code" = 5 := rfl
      have hinternal : strSize "Internal" = 9 := rfl
      have hmessage : strSize "message" = 8 := rfl
      simp only [packResponse, packHistoryResponse, packIpcError, packErrorCode, length_packFields,
        length_packVariant, List.map_cons, List.map_nil, List.sum_cons, List.sum_nil,
        length_packUint, length_packStr, pageSize]
      omega

theorem writeFrame_of_le {body : Bytes} (h : body.length ≤ Ipc.maxFrameBytes) :
    writeFrame body = .ok (le32 body.length ++ body) := by
  unfold Ipc.maxFrameBytes at h
  rw [writeFrame, if_neg (by omega), if_neg (by unfold Ipc.maxFrameBytes; omega)]

theorem writeFrame_of_lt {body : Bytes} (h : Ipc.maxFrameBytes < body.length) :
    ∃ e, writeFrame body = .error e := by
  rw [writeFrame, if_pos h]
  split
  · exact ⟨_, rfl⟩
  · exact ⟨_, rfl⟩

namespace IpcConnection

variable [Fts5] {E : Type} [Broadcast E]

/-- The page that is asked for fits a frame. -/
def Asked.Fits (a : Asked) : Prop := pageSize a.id (a.request.page a.store) ≤ Ipc.maxFrameBytes

/-- The frame that answers a request. -/
def Asked.response (a : Asked) : Frame HistoryRequest HistoryResponse E :=
  .response a.id (a.request.handle a.store)

/-- Waiting for a request. -/
structure Idle (c : IpcConnection HistoryRequest HistoryResponse E) : Prop where
  phase : c.phase = .select
  requests : c.requests = []
  reading : c.reading = true

theorem serve_cons_of_fits {c : IpcConnection HistoryRequest HistoryResponse E} (hc : c.Idle)
    {a : Asked} (ha : a.Fits) (asked : List Asked) :
    ∃ c' : IpcConnection HistoryRequest HistoryResponse E,
      c'.Idle ∧ c'.written = c.written ++ [a.response] ∧ c.serve (a :: asked) = c'.serve asked := by
  obtain ⟨hphase, hrequests, hreading⟩ := hc
  have hlen : (packResponse a.id (a.request.handle a.store)).length ≤ Ipc.maxFrameBytes :=
    length_packResponse a.id a.store a.request ▸ ha
  have hwrite := writeFrame_of_le hlen
  refine ⟨_, ?_, ?_, by rw [serve]⟩
  · constructor <;> simp [step, takeFrame, answer, hphase, hrequests, hreading, hwrite]
  · simp [step, takeFrame, answer, hphase, hrequests, hreading, hwrite, Asked.response]

omit [Fts5] in
theorem step_ended {c : IpcConnection HistoryRequest HistoryResponse E} (hc : c.phase = .ended)
    {op : ConnectionOp HistoryRequest HistoryResponse E} : (c.step op).phase = .ended := by
  cases op with
  | read frame =>
    simp only [step]
    split <;> exact hc
  | emit | hangUp | request | respond | event | flushed | broken => simp [step, hc]

theorem serve_ended {c : IpcConnection HistoryRequest HistoryResponse E} (hc : c.phase = .ended)
    (asked : List Asked) : (c.serve asked).phase = .ended := by
  induction asked generalizing c with
  | nil => exact hc
  | cons a asked ih =>
    refine ih ?_
    unfold answer
    split
    · exact step_ended (step_ended (step_ended (step_ended hc)))
    · exact step_ended (step_ended (step_ended (step_ended hc)))

theorem serve_cons_of_not_fits {c : IpcConnection HistoryRequest HistoryResponse E} (hc : c.Idle)
    {a : Asked} (ha : ¬ a.Fits) (asked : List Asked) :
    (c.serve (a :: asked)).phase = .ended := by
  obtain ⟨hphase, hrequests, hreading⟩ := hc
  have hlen : Ipc.maxFrameBytes < (packResponse a.id (a.request.handle a.store)).length :=
    length_packResponse a.id a.store a.request ▸ Nat.lt_of_not_le ha
  obtain ⟨e, hwrite⟩ := writeFrame_of_lt hlen
  rw [serve]
  refine serve_ended ?_ asked
  simp [step, takeFrame, answer, hphase, hrequests, hreading, hwrite]

/-- Every request is answered, one after the other, exactly if every page that is asked for fits. -/
theorem serve_iff {c : IpcConnection HistoryRequest HistoryResponse E} (hc : c.Idle)
    (asked : List Asked) :
    (c.serve asked).phase = .select ∧
        (c.serve asked).written = c.written ++ asked.map Asked.response ↔
      ∀ a ∈ asked, a.Fits := by
  induction asked generalizing c with
  | nil => simp [serve, hc.phase]
  | cons a asked ih =>
    by_cases ha : a.Fits
    · obtain ⟨c', hc', hwritten, hserve⟩ := serve_cons_of_fits hc ha asked
      have := ih hc'
      rw [hwritten, List.append_assoc, List.singleton_append] at this
      rw [hserve, List.map_cons, this, List.forall_mem_cons, and_iff_right ha]
    · refine iff_of_false (fun h => ?_) fun h => ha (h a List.mem_cons_self)
      have := serve_cons_of_not_fits hc ha asked
      rw [h.1] at this
      cases this

end IpcConnection

open IpcConnection

/-- Every page fits a frame, and every request is answered. -/
def PagesAnswered [Fts5] {E : Type} [Broadcast E] (channel : Broadcast.Channel E)
    (asked : List Asked) : Prop :=
  (∀ a ∈ asked, (packResponse a.id (a.request.handle a.store)).length ≤ Ipc.maxFrameBytes) ∧
    ((accepted channel).serve asked).phase = .select ∧
    ((accepted channel).serve asked).written = asked.map Asked.response

/-- **Pages are answered if and only if their clips fit.** -/
theorem pages_answered_iff [Fts5] {E : Type} [Broadcast E] (channel : Broadcast.Channel E)
    (asked : List Asked) : PagesAnswered channel asked ↔ ∀ a ∈ asked, a.Fits := by
  have hidle : (accepted channel : IpcConnection HistoryRequest HistoryResponse E).Idle :=
    ⟨rfl, rfl, rfl⟩
  have hserve := serve_iff hidle asked
  rw [show (accepted channel : IpcConnection HistoryRequest HistoryResponse E).written = [] from rfl,
    List.nil_append] at hserve
  rw [PagesAnswered, hserve]
  refine ⟨fun h => h.2, fun h => ⟨fun a ha => ?_, h⟩⟩
  rw [length_packResponse]
  exact h a ha

/-- A query of the user interface, whose numbers have 32 bits. -/
theorem page_toStoreQuery {α : Type} (query : IpcHistoryQuery) (rows : List α) :
    (toStoreQuery query).page rows = (rows.drop query.offset.toNat).take query.limit.toNat := by
  have ho : (toStoreQuery query).offset.toNat = query.offset.toNat := by simp [toStoreQuery]
  have hl : (toStoreQuery query).limit.toNat = query.limit.toNat := by simp [toStoreQuery]
  have hlo := query.offset.toNat_lt
  have hll := query.limit.toNat_lt
  rw [Store.page_eq (by omega) (by omega), ho, hl]

/-! ## Captures that fill more than a frame -/

theorem bodySize_le_clipSize (c : Clip) :
    ((c.payloads.map (·.body)).map bodySize).sum ≤ clipSize c := by
  have hle : ((c.payloads.map (·.body)).map bodySize).sum ≤ (c.payloads.map payloadSize).sum := by
    rw [List.map_map]
    exact List.sum_le_sum fun p _ => by
      rw [payloadSize, Function.comp_apply]
      omega
  unfold clipSize
  omega

theorem body_toPayload_of (p : Payload) : (PayloadRow.of p).toPayload.body = p.body := by
  cases h : p.body <;> simp [PayloadRow.toPayload, PayloadRow.of, Payload.inlineBytes, h]

/-- A row is loaded with the bodies it was inserted with. -/
theorem bodies_toClip_of (c : Clip) :
    ((ClipRow.of c).toClip.payloads.map (·.body)).Perm (c.payloads.map (·.body)) := by
  change (((c.payloads.map PayloadRow.of).insertionSort
    (fun a b => a.formatLabel ≤ b.formatLabel)).map PayloadRow.toPayload |>.map (·.body)).Perm _
  rw [List.map_map]
  refine ((List.perm_insertionSort _ _).map _).trans (.of_eq ?_)
  rw [List.map_map]
  exact List.map_congr_left fun p _ => body_toPayload_of p

section
variable [Blake3]

/-- The payloads of a capture are on the page of its clip. -/
theorem bodySize_le_of_becomes {clip : Clip} {c : ClipId × Capture}
    (h : SyncContext.Becomes clip c) :
    (c.2.payloads.map fun p => bodySize (SyncContext.payloadOf p).body).sum ≤
      clipSize (ClipRow.of clip).toClip := by
  refine le_trans (le_of_eq ?_) (bodySize_le_clipSize _)
  obtain ⟨source, hlc, rfl⟩ := h
  have hsort : ((Clip.sortPayloads (c.2.payloads.map SyncContext.payloadOf)).map (·.body)).Perm
      (c.2.payloads.map fun p => (SyncContext.payloadOf p).body) := by
    refine ((List.perm_insertionSort _ _).map _).trans (.of_eq ?_)
    rw [List.map_map]
    rfl
  have hload := bodies_toClip_of (Clip.new c.1 (c.2.payloads.map SyncContext.payloadOf) source hlc)
  rw [((hload.trans hsort).map bodySize).sum_eq, List.map_map]
  rfl

/-- So many letters outside ASCII. -/
def accents (k : Nat) : Bytes := (List.replicate k [0xC3, 0xA9]).flatten

/-- 32768 letters outside ASCII, the last of which tells the text. -/
def letters (n : Nat) : Bytes :=
  accents 32767 ++ [UInt8.ofNat (0xC4 + n / 64), UInt8.ofNat (0x80 + n % 64)]

/-- A copy of them, with its HTML. -/
def lettersCopy (n : Nat) : ClipId × Capture :=
  (⟨n⟩, { payloads := [(.text, letters n), (.html, letters n)], app := none })

omit [Blake3] in
theorem length_accents (k : Nat) : (accents k).length = k * 2 := by
  simp [accents, List.length_flatten]

omit [Blake3] in
theorem accents_add (j k : Nat) : accents (j + k) = accents j ++ accents k := by
  rw [accents, List.replicate_add, List.flatten_append]
  rfl

omit [Blake3] in
theorem length_letters (n : Nat) : (letters n).length = 65536 := by
  rw [letters, List.length_append, length_accents]
  rfl

omit [Blake3] in
theorem le_of_mem_accents {k : Nat} : ∀ b ∈ accents k, 0x80 ≤ b := by
  intro b hb
  obtain ⟨l, hl, hb⟩ := List.mem_flatten.mp hb
  have hall : ∀ b ∈ ([0xC3, 0xA9] : Bytes), 0x80 ≤ b := by
    rw [List.forall_mem_cons, List.forall_mem_singleton]
    exact ⟨by decide, by decide⟩
  exact hall b (List.eq_of_mem_replicate hl ▸ hb)

omit [Blake3] in
theorem le_of_mem_letters {n : Nat} (hn : n < 150) : ∀ b ∈ letters n, 0x80 ≤ b := by
  intro b hb
  have hle : ∀ m, 128 ≤ m → m < 256 → 0x80 ≤ UInt8.ofNat m := fun m hm hlt => by
    rw [UInt8.le_iff_toNat_le, UInt8.toNat_ofNat_of_lt' hlt]
    exact hm
  rw [letters, List.mem_append] at hb
  rcases hb with hb | hb
  · exact le_of_mem_accents b hb
  · simp only [List.mem_cons, List.not_mem_nil, or_false] at hb
    rcases hb with rfl | rfl
    · exact hle _ (by omega) (by omega)
    · exact hle _ (by omega) (by omega)

omit [Blake3] in
theorem countP_letters {n : Nat} (hn : n < 150) : (letters n).countP (0x80 ≤ ·) = 65536 := by
  rw [← length_letters n, List.countP_eq_length]
  exact fun b hb => decide_eq_true (le_of_mem_letters hn b hb)

theorem body_payloadOf_of_le {f : ClipFormat} {bytes : Bytes} (h : bytes.length ≤ inlineMaxBytes) :
    (SyncContext.payloadOf (f, bytes)).body = .inline bytes := by
  rw [SyncContext.payloadOf, if_neg (Nat.not_lt.mpr h), Payload.new]
  exact if_pos h

/-- Text and HTML of 64 KiB outside ASCII take a quarter of a mebibyte. -/
theorem le_clipSize_of_becomes {clip : Clip} {id : ClipId} {bytes : Bytes}
    (hlen : bytes.length = inlineMaxBytes) (hcount : bytes.countP (0x80 ≤ ·) = inlineMaxBytes)
    (h : SyncContext.Becomes clip (id, { payloads := [(.text, bytes), (.html, bytes)], app := none })) :
    262144 ≤ clipSize (ClipRow.of clip).toClip := by
  refine le_trans ?_ (bodySize_le_of_becomes h)
  have hbody : ∀ f : ClipFormat, 131072 ≤ bodySize (SyncContext.payloadOf (f, bytes)).body := by
    intro f
    rw [body_payloadOf_of_le (le_of_eq hlen), bodySize, hlen, hcount]
    decide
  have htext := hbody .text
  have hhtml := hbody .html
  simp only [List.map_cons, List.map_nil, List.sum_cons, List.sum_nil]
  omega

theorem becomes_lettersCopy {clips : List Clip} {n : Nat}
    (hforall : List.Forall₂ SyncContext.Becomes clips ((List.range n).map lettersCopy)) :
    clips.length = n ∧ ∀ c ∈ clips, ∃ k < n, SyncContext.Becomes c (lettersCopy k) := by
  have hlen : clips.length = n := by
    rw [hforall.length_eq, List.length_map, List.length_range]
  refine ⟨hlen, fun c hc => ?_⟩
  obtain ⟨i, hi, rfl⟩ := List.getElem_of_mem hc
  have h := (List.forall₂_iff_get.mp hforall).2 i hi (hforall.length_eq ▸ hi)
  exact ⟨i, hlen ▸ hi, by simpa using h⟩

omit [Blake3] in
/-- The first page of a store of live clips, if they are not more than it may have. -/
theorem recent_perm {s : Store} {clips : List Clip} (hrows : s.rows = clips.map .of)
    (hlive : ∀ c ∈ clips, c.deleted = false) (limit : UInt32) (hlen : clips.length ≤ limit.toNat) :
    (s.recent (toStoreQuery { limit })).Perm (clips.map fun c => (ClipRow.of c).toClip) := by
  have hlisting : (s.listing (toStoreQuery { limit })).Perm s.rows := by
    refine (List.perm_insertionSort _ _).trans (.of_eq (List.filter_eq_self.mpr fun r hr => ?_))
    rw [hrows] at hr
    obtain ⟨c, hc, rfl⟩ := List.mem_map.mp hr
    simp [toStoreQuery, ClipRow.of, hlive c hc]
  have hlength : (s.listing (toStoreQuery { limit })).length = clips.length := by
    rw [hlisting.length_eq, hrows, List.length_map]
  rw [Store.recent_eq, page_toStoreQuery, List.take_of_length_le]
  · refine (hlisting.map _).trans (.of_eq ?_)
    rw [hrows, List.map_map]
    rfl
  · change ((s.listing _).drop 0).length ≤ limit.toNat
    rw [List.drop_zero, hlength]
    exact hlen

/-- A page of such copies does not fit. -/
theorem not_fits_letters [Fts5] {clips : List Clip}
    (hforall : List.Forall₂ SyncContext.Becomes clips ((List.range 150).map lettersCopy))
    {s : Store} (hrows : s.rows = clips.map .of) :
    ¬ (Asked.mk 1 (.history { limit := 150 }) s).Fits := by
  obtain ⟨hlen, hbecomes⟩ := becomes_lettersCopy hforall
  have hperm := recent_perm hrows
    (fun c hc => by obtain ⟨_, -, _, _, rfl⟩ := hbecomes c hc; rfl) 150 (le_of_eq hlen)
  have hsum : 150 * 262144 ≤ ((s.recent (toStoreQuery { limit := 150 })).map clipSize).sum := by
    rw [(hperm.map clipSize).sum_eq, List.map_map]
    have h := List.card_nsmul_le_sum (clips.map (clipSize ∘ fun c => (ClipRow.of c).toClip)) 262144
      (fun x hx => by
        obtain ⟨c, hc, rfl⟩ := List.mem_map.mp hx
        obtain ⟨n, hn, hb⟩ := hbecomes c hc
        exact le_clipSize_of_becomes (length_letters n) (countP_letters hn) hb)
    rwa [List.length_map, hlen] at h
  intro hfits
  exact absurd (hsum.trans ((sum_le_pageSize 1 _).trans hfits)) (by decide)

/-- Copies of such texts whose hashes differ, one after the other. -/
theorem storeCaptures_lettersCopy (quota : UInt64) (device : DeviceId) (time : Nat → UInt64) {n : Nat}
    (hhash : (((List.range n).map lettersCopy).map (SyncContext.captureHash ·.2)).Nodup) :
    ∃ ctx clips, (SyncContext.start (.open_ quota) device time).storeCaptures
        ((List.range n).map lettersCopy) = .ok ctx ∧
      List.Forall₂ SyncContext.Becomes clips ((List.range n).map lettersCopy) ∧
      ctx.store.rows = clips.map .of := by
  refine SyncContext.storeCaptures_of_fresh (fun c hc => ?_) ?_ hhash
  · obtain ⟨k, -, rfl⟩ := List.mem_map.mp hc
    exact ⟨show ["text/plain", "text/html"].Nodup by decide, nofun, nofun⟩
  · rw [List.map_map]
    exact List.nodup_range.map fun k l h => congrArg ClipId.uuid h

theorem pages_not_answered [Fts5] {E : Type} [Broadcast E] (channel : Broadcast.Channel E)
    (quota : UInt64) (device : DeviceId) (time : Nat → UInt64)
    (hhash : (((List.range 150).map lettersCopy).map (SyncContext.captureHash ·.2)).Nodup) :
    ∃ ctx, (SyncContext.start (.open_ quota) device time).storeCaptures
        ((List.range 150).map lettersCopy) = .ok ctx ∧
      ¬ PagesAnswered channel [⟨1, .history { limit := 150 }, ctx.store⟩] := by
  obtain ⟨ctx, clips, hcaptures, hforall, hrows⟩ :=
    storeCaptures_lettersCopy quota device time hhash
  refine ⟨ctx, hcaptures, fun h => ?_⟩
  exact not_fits_letters hforall hrows ((pages_answered_iff channel _).mp h _ List.mem_cons_self)

theorem digest_payloadOf (p : ClipFormat × Bytes) : (SyncContext.payloadOf p).digest = .of p.2 := by
  unfold SyncContext.payloadOf
  split <;> rfl

/-- What is hashed of a copy with text and HTML ends with the digest of the text. -/
theorem captureHash_eq (bytes html : Bytes) (app : Option String) :
    ∃ before, SyncContext.captureHash { payloads := [(.text, bytes), (.html, html)], app } =
      Blake3.hash (before ++ (ContentHash.of bytes).bytes.toList) := by
  have hsort : Clip.sortPayloads [SyncContext.payloadOf (.text, bytes), SyncContext.payloadOf (.html, html)] =
      [SyncContext.payloadOf (.html, html), SyncContext.payloadOf (.text, bytes)] := by
    have hle : ¬ (SyncContext.payloadOf (.text, bytes)).label ≤
        (SyncContext.payloadOf (.html, html)).label := by
      rw [SyncContext.label_payloadOf, SyncContext.label_payloadOf]
      exact show ¬ "text/plain" ≤ "text/html" by decide
    simp [Clip.sortPayloads, List.insertionSort, List.orderedInsert, hle]
  refine ⟨ContentHash.framed "text/html" (ContentHash.of html).bytes.toList ++
    (le64 (UInt64.ofNat (utf8 "text/plain").length) ++ utf8 "text/plain" ++
      le64 (UInt64.ofNat (ContentHash.of bytes).bytes.toList.length)), ?_⟩
  rw [SyncContext.captureHash, List.map_cons, List.map_cons, List.map_nil, hsort, Clip.computeHash,
    List.map_cons, List.map_cons, List.map_nil, SyncContext.label_payloadOf,
    SyncContext.label_payloadOf, digest_payloadOf, digest_payloadOf, ContentHash.ofParts, partsInput,
    List.flatMap_cons, List.flatMap_cons, List.flatMap_nil, List.append_nil, List.append_assoc]
  rfl

end

/-- A hash that tells inputs apart by their last 32 bytes. -/
@[reducible] def Blake3.lastBytes : Blake3 where
  hash bytes := { bytes := .ofFn fun i => bytes.getD (bytes.length - 32 + i) 0 }

section
attribute [local instance] Blake3.lastBytes

theorem lastBytes_append {before last : Bytes} (h : last.length = 32) :
    (Blake3.hash (before ++ last)).bytes.toList = last := by
  refine List.ext_getElem (by simp [h]) fun i hi hi' => ?_
  simp [Blake3.hash, List.getD, h]

theorem captureHash_lettersCopy (n : Nat) :
    (SyncContext.captureHash (lettersCopy n).2).bytes.toList =
      accents 15 ++ [UInt8.ofNat (0xC4 + n / 64), UInt8.ofNat (0x80 + n % 64)] := by
  have hsplit : letters n = accents 32752 ++
      (accents 15 ++ [UInt8.ofNat (0xC4 + n / 64), UInt8.ofNat (0x80 + n % 64)]) := by
    rw [letters, ← List.append_assoc, ← accents_add]
  have hlast : (ContentHash.of (letters n)).bytes.toList =
      accents 15 ++ [UInt8.ofNat (0xC4 + n / 64), UInt8.ofNat (0x80 + n % 64)] := by
    rw [hsplit]
    exact lastBytes_append (by rw [List.length_append, length_accents]; rfl)
  obtain ⟨before, h⟩ := captureHash_eq (letters n) (letters n) none
  rw [lettersCopy, h, lastBytes_append (by simp), hlast]

theorem captureHash_lettersCopy_inj {m n : Nat} (hm : m < 3840) (hn : n < 3840)
    (h : SyncContext.captureHash (lettersCopy m).2 = SyncContext.captureHash (lettersCopy n).2) :
    m = n := by
  have hbytes := congrArg (fun hash => hash.bytes.toList) h
  simp only [captureHash_lettersCopy, List.append_cancel_left_eq, List.cons.injEq, and_true] at hbytes
  have hinj : ∀ {a b : Nat}, a < 256 → b < 256 → UInt8.ofNat a = UInt8.ofNat b → a = b := by
    intro a b ha hb hab
    rw [← UInt8.toNat_ofNat_of_lt' ha, hab, UInt8.toNat_ofNat_of_lt' hb]
  have hhigh := hinj (by omega) (by omega) hbytes.1
  have hlow := hinj (by omega) (by omega) hbytes.2
  omega

theorem nodup_captureHash {k : Nat} (hk : k ≤ 3840) :
    (((List.range k).map lettersCopy).map (SyncContext.captureHash ·.2)).Nodup := by
  rw [List.map_map]
  refine List.Nodup.map_on (fun m hm n hn h => ?_) List.nodup_range
  exact captureHash_lettersCopy_inj ((List.mem_range.mp hm).trans_le hk)
    ((List.mem_range.mp hn).trans_le hk) h

section
attribute [local instance] Fts5.examples Broadcast.ofLists

/-- 150 copies of such texts, and the page of the history window. -/
theorem not_pages_answered :
    ∃ ctx, (SyncContext.start (.open_ 0) (.repeated 1) fun n => n.toUInt64).storeCaptures
        ((List.range 150).map lettersCopy) = .ok ctx ∧
      ¬ PagesAnswered (Broadcast.channel eventBuffer : Broadcast.Channel Nat)
        [⟨1, .history { limit := 150 }, ctx.store⟩] :=
  pages_not_answered _ _ _ _ (nodup_captureHash (by decide))

end

end

end Clipse
