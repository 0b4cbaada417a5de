import Clipse.Lib.Throughout
import Clipse.Sync.Proof.Newest

/-!
# What a peer can write

A peer chooses every message of its side of a session. `insert` checks that a clip's hash covers
the digests that its payloads declare; that the bytes in a payload have this digest and this
length is checked nowhere, while the bytes of a blob are.

`Merging s₀`: at every point of a session that began with the store `s₀`, the rows are those of
`s₀` and one for each of `newClips` of the pushes that have been merged, which are all that were
received but perhaps the last (`throughout_run`).

* `authentic_iff`: the rows that a session adds are authentic exactly when the new clips are.
-/

namespace Clipse

open Duplex

/-! ## Authentic payloads -/

section
variable [Blake3]

/-- The bytes are those that a digest and a size declare. -/
def Declared (digest : ContentHash) (size : UInt64) (bytes : Bytes) : Prop :=
  ContentHash.of bytes = digest ∧ bytes.length = size.toNat

/-- The bytes that the clip carries are those that it declares. -/
def Clip.Authentic (c : Clip) : Prop :=
  ∀ p ∈ c.payloads, ∀ bytes, p.inlineBytes = some bytes → Declared p.digest p.size bytes

/-- The bytes in the row are those that it declares. -/
def ClipRow.Authentic (r : ClipRow) : Prop :=
  ∀ p ∈ r.payloads, ∀ bytes, p.inlineBytes = some bytes → Declared p.digest p.size bytes

theorem ClipRow.authentic_of {c : Clip} : (ClipRow.of c).Authentic ↔ c.Authentic := by
  unfold ClipRow.Authentic Clip.Authentic ClipRow.of
  simp only [List.forall_mem_map]
  rfl

/-- A capture is authentic as long as no payload has `2 ^ 64` bytes. -/
theorem Clip.new_authentic (id : ClipId) {payloads : List Payload} (source : ClipSource) (hlc : Hlc)
    (h : ∀ p ∈ payloads, ∃ format bytes, p = .new format bytes ∧ bytes.length < 2 ^ 64) :
    (Clip.new id payloads source hlc).Authentic := by
  intro p hp bytes hb
  obtain ⟨format, bytes', rfl, hlen⟩ := h p ((List.mem_insertionSort _).1 hp)
  have he : bytes' = bytes := by
    unfold Payload.inlineBytes Payload.new at hb
    dsimp only at hb
    split_ifs at hb
    · exact Option.some.inj hb
  subst he
  refine ⟨rfl, ?_⟩
  show bytes'.length = (UInt64.ofNat bytes'.length).toNat
  rw [UInt64.toNat_ofNat', Nat.mod_eq_of_lt hlen]

end

/-- What no write changes in a row. -/
def ClipRow.content (r : ClipRow) : ClipId × ContentHash × List PayloadRow :=
  (r.id, r.hash, r.payloads)

namespace Session

section
variable [Blake3]

/-! ## The pushes merged so far -/

/-- The store `s` after the clips `done` were merged into `s₀`. -/
structure Merged (s₀ : Store) (done : List Clip) (s : Store) : Prop where
  rows : s.rows.map ClipRow.content = s₀.rows.map ClipRow.content ++
    (newClips s₀ done).map fun c => (ClipRow.of c).content
  blobs : ∀ f ∈ s.files.rows, f ∈ s₀.files.rows ∨ ContentHash.of f.bytes = f.digest

/-- The clips that were received on the way. -/
def pushesOf (log : List (Traffic SyncMessage Bytes)) : List Clip :=
  pushesIn (Traffic.receivedMsgs log)

/-- All the pushes received are merged, but perhaps the last. -/
def Merging (s₀ : Store) : Point syncWire := fun ctx log =>
  ∃ done, Merged s₀ done ctx.store ∧ (pushesOf log = done ∨ ∃ c, pushesOf log = done ++ [c])

/-- All the pushes received are merged. -/
def AllMerged (s₀ : Store) : Point syncWire := fun ctx log => Merged s₀ (pushesOf log) ctx.store

variable {s₀ s s' : Store} {done : List Clip} {ctx : SyncContext} {c : Clip}
  {log : List (Traffic SyncMessage Bytes)}

theorem AllMerged.merging (h : AllMerged s₀ ctx log) : Merging s₀ ctx log := ⟨_, h, .inl rfl⟩

theorem Merged.refl (s : Store) : Merged s [] s :=
  ⟨(List.append_nil _).symm, fun _ hf => .inl hf⟩

/-- A content is unknown where it was unknown before and no new clip has it. -/
theorem Merged.rep_eq_none (h : Merged s₀ done s) (hash : ContentHash) :
    s.rep hash = none ↔ s₀.rep hash = none ∧ ∀ c ∈ newClips s₀ done, c.hash ≠ hash := by
  have hall : ∀ s : Store, (∀ r ∈ s.rows, r.hash ≠ hash) ↔
      ∀ x ∈ s.rows.map ClipRow.content, x.2.1 ≠ hash := by
    intro s
    simp only [List.forall_mem_map]
    rfl
  rw [Store.rep_eq_none, Store.rep_eq_none, hall s, hall s₀, h.rows]
  simp only [List.forall_mem_append, List.forall_mem_map]
  rfl

/-- Writes to the metadata change nothing. -/
theorem Merged.of_map {f : ClipRow → ClipRow} (h : Merged s₀ done s)
    (hr : s'.rows = s.rows.map f) (hf : ∀ r, (f r).content = r.content)
    (hb : s'.files = s.files) : Merged s₀ done s' := by
  refine ⟨?_, hb ▸ h.blobs⟩
  rw [hr, List.map_map, ← h.rows]
  exact List.map_congr_left fun r _ => hf r

/-- A push that is refused, or that finds its content known, adds no row. -/
theorem Merged.skip (h : Merged s₀ done s)
    (hc : c.hashMatches = false ∨ s.rep c.hash ≠ none) : Merged s₀ (done ++ [c]) s := by
  have hn : newClips s₀ (done ++ [c]) = newClips s₀ done := by
    rw [newClips_snoc, if_neg]
    intro hn
    simp only [Bool.and_eq_true, Option.isNone_iff_eq_none, List.all_eq_true,
      decide_eq_true_eq] at hn
    rcases hc with hc | hc
    · rw [hc] at hn
      exact absurd hn.1.1 Bool.false_ne_true
    · exact hc ((h.rep_eq_none _).2 ⟨hn.1.2, hn.2⟩)
  exact ⟨hn ▸ h.rows, h.blobs⟩

/-- A genuine push of unknown content adds its row. -/
theorem Merged.insert (h : Merged s₀ done s) (hm : c.hashMatches) (hr : s.rep c.hash = none)
    (hrows : s'.rows = s.rows ++ [.of c]) (hb : s'.files = s.files) :
    Merged s₀ (done ++ [c]) s' := by
  obtain ⟨h₀, hall⟩ := (h.rep_eq_none _).1 hr
  have hn : newClips s₀ (done ++ [c]) = newClips s₀ done ++ [c] := by
    rw [newClips_snoc, hm, h₀, if_pos]
    simpa using hall
  refine ⟨?_, hb ▸ h.blobs⟩
  rw [hrows, List.map_append, h.rows, hn, List.map_append, List.append_assoc]
  rfl

theorem Merged.putBlob {digest : ContentHash} {bytes : Bytes} (h : Merged s₀ done s)
    (hd : ContentHash.of bytes = digest) : Merged s₀ done (s.putBlob digest bytes) := by
  refine ⟨h.rows, fun f hf => ?_⟩
  change f ∈ ((s.files.insert? ⟨digest, bytes⟩).getD s.files).rows at hf
  cases hi : s.files.insert? ⟨digest, bytes⟩ with
  | none =>
    rw [hi] at hf
    exact h.blobs f hf
  | some files =>
    rw [hi, Option.getD_some, (Table.insert?_eq_some.1 hi).2] at hf
    rcases List.mem_append.1 hf with hf | hf
    · exact h.blobs f hf
    · rw [List.mem_singleton.1 hf]
      exact .inr hd

/-! ## Merging one clip -/

omit [Blake3] in
theorem SyncContext.onStore_eq_ok {α : Type} {ctx ctx' : SyncContext} {a : α}
    {r : Except StoreError (α × Store)} (h : ctx.onStore r = .ok (a, ctx')) :
    ∃ s, r = .ok (a, s) ∧ ctx'.store = s := by
  cases r with
  | error e => cases h
  | ok r =>
    cases h
    exact ⟨_, rfl, rfl⟩

theorem steady_setPinned (id : ClipId) (pinned : Bool) (hlc : Hlc) :
    Steady (fun ctx : SyncContext => Merged s₀ done ctx.store) (setPinned id pinned hlc) := by
  refine steady_attempt fun ctx _ ctx' hm h => ?_
  obtain ⟨s, hs, hst⟩ := SyncContext.onStore_eq_ok h
  cases hp : ctx.store.setPinned id pinned hlc with
  | error e =>
    rw [hp] at hs
    cases hs
  | ok s₁ =>
    rw [hp] at hs
    cases hs
    obtain ⟨hr, hb⟩ := Store.setPinned_eq_ok hp
    rw [hst]
    refine hm.of_map hr (fun r => ?_) hb.files
    split <;> rfl

theorem steady_delete (id : ClipId) (hlc : Hlc) :
    Steady (fun ctx : SyncContext => Merged s₀ done ctx.store) (delete id hlc) := by
  refine steady_attempt fun ctx _ ctx' hm h => ?_
  obtain ⟨s, hs, hst⟩ := SyncContext.onStore_eq_ok h
  cases hp : ctx.store.delete id hlc (ctx.time 0) with
  | error e =>
    rw [hp] at hs
    cases hs
  | ok s₁ =>
    rw [hp] at hs
    cases hs
    obtain ⟨hr, hb⟩ := Store.delete_eq_ok hp
    rw [hst]
    refine hm.of_map hr (fun r => ?_) hb.files
    split <;> rfl

theorem steady_emit (event : Event) :
    Steady (fun ctx : SyncContext => Merged s₀ done ctx.store) (emit event) :=
  steady_act fun _ h => h

theorem steady_record (clip : Clip) :
    Steady (fun ctx : SyncContext => Merged s₀ done ctx.store) (record clip) :=
  steady_act fun _ h => h

theorem steady_updateMetadata (existing clip : Clip) (pinned deleted : Bool) :
    Steady (fun ctx : SyncContext => Merged s₀ done ctx.store)
      (updateMetadata existing clip pinned deleted) := by
  refine (steady_setPinned _ _ _).bind fun _ => ?_
  cases deleted with
  | true =>
    exact (steady_delete _ _).bind fun _ => (steady_emit _).bind fun _ =>
      (steady_record _).bind fun _ => trivial
  | false =>
    refine steady_read.bind fun updated => ?_
    cases updated with
    | some updated =>
      exact (steady_emit _).bind fun _ => (steady_record _).bind fun _ => trivial
    | none => exact (steady_record _).bind fun _ => trivial

/-- **Merging one clip**, the last that was received. -/
theorem throughout_takePush (t : Taken) (hm : Merged s₀ done ctx.store)
    (hl : pushesOf log = done ++ [c]) :
    Throughout (Merging s₀) (fun _ ctx' log' => Merged s₀ (done ++ [c]) ctx'.store ∧ log' = log)
      (takePush t c) ctx log := by
  have hbefore : Merging s₀ ctx log := ⟨done, hm, .inr ⟨c, hl⟩⟩
  have hafter : ∀ ctx' : SyncContext, Merged s₀ (done ++ [c]) ctx'.store → Merging s₀ ctx' log :=
    fun ctx' h => ⟨_, h, .inl hl⟩
  refine Throughout.bind (P := fun _ ctx' log' => Merged s₀ (done ++ [c]) ctx'.store ∧ log' = log)
    ?_ fun a ctx' log' hj h => ⟨hj, h⟩
  rw [apply]
  refine throughout_read hbefore ?_
  rw [Store.byHashIncludingDeleted_eq]
  cases hmatch : c.hashMatches with
  | false =>
    simp only [merge, hmatch, Bool.not_false, ↓reduceIte]
    have hskip := hm.skip (.inl hmatch)
    exact ⟨hafter _ hskip, hskip, rfl⟩
  | true =>
    cases hr : ctx.store.rep c.hash with
    | none =>
      simp only [merge, hmatch, Option.map_none, Bool.not_true, Bool.false_eq_true, ↓reduceIte]
      refine throughout_attempt hbefore fun o ctx' h => ?_
      obtain ⟨s, hs, rfl⟩ := SyncContext.onStore_eq_ok h
      have hne := Store.rep_eq_none.1 hr
      have hins : Merged s₀ (done ++ [c]) ctx'.store := by
        rcases Store.insert_cases hs with ⟨-, -, hm'⟩ | ⟨e, he, -, -, hh, -⟩ |
          ⟨-, -, -, -, hrows, hb⟩
        · rw [hmatch] at hm'
          cases hm'
        · exact absurd hh (hne e he)
        · exact hm.insert hmatch hr hrows hb.files
      exact throughout_steady ((steady_emit _).bind fun _ => (steady_record _).bind fun _ => trivial)
        hins hafter
    | some r =>
      have hskip := hm.skip (c := c) (.inr (by rw [hr]; exact Option.some_ne_none r))
      simp only [merge, hmatch, Option.map_some, Bool.not_true, Bool.false_eq_true, ↓reduceIte]
      split_ifs
      · exact throughout_steady (steady_updateMetadata _ _ _ _) hskip hafter
      · exact ⟨hafter _ hskip, hskip, rfl⟩

/-! ## The programs of a session -/

/-- Traffic that brings no clip. -/
theorem AllMerged.append {log' : List (Traffic SyncMessage Bytes)} (h : AllMerged s₀ ctx log)
    (hl : NoPush log') : AllMerged s₀ ctx (log ++ log') := by
  unfold NoPush at hl
  unfold AllMerged pushesOf
  rw [Traffic.receivedMsgs_append, pushesIn_append, hl, List.append_nil]
  exact h

theorem AllMerged.hear (h : AllMerged s₀ ctx log) (m : SyncMessage) (hm : pushesIn [m] = []) :
    AllMerged s₀ ctx (log ++ [.received m]) := h.append hm

theorem AllMerged.tell (h : AllMerged s₀ ctx log) (m : SyncMessage) :
    AllMerged s₀ ctx (log ++ [.sent m]) := h.append rfl

/-- A message was received; if it is a push, it is not merged yet. -/
theorem AllMerged.received (h : AllMerged s₀ ctx log) (m : SyncMessage) :
    Merging s₀ ctx (log ++ [.received m]) := by
  refine ⟨pushesOf log, h, ?_⟩
  unfold pushesOf
  rw [Traffic.receivedMsgs_append, pushesIn_append]
  cases m with
  | push c => exact .inr ⟨c, rfl⟩
  | hello | summary | want | blobOffer | blobWant | blobChunk | blobEnd | ack | bye =>
    exact .inl (List.append_nil _)

/-- The program merges what it is sent before it receives more. -/
abbrev Merges {α : Type} (s₀ : Store) (p : Session α) (ctx : SyncContext)
    (log : List (Traffic SyncMessage Bytes)) : Prop :=
  Throughout (Merging s₀) (fun _ => AllMerged s₀) p ctx log

section
variable {α : Type}

/-- Calls that keep the rows and add genuine blobs only. -/
theorem merges_of_steady {p : Session α} (h : AllMerged s₀ ctx log)
    (hp : ∀ done, Steady (fun ctx : SyncContext => Merged s₀ done ctx.store) p) :
    Merges s₀ p ctx log := by
  refine (throughout_steady (hp (pushesOf log)) h fun ctx' h' => ⟨_, h', .inl rfl⟩).mono
    fun _ ctx' log' h' => ?_
  obtain ⟨h', rfl⟩ := h'
  exact h'

theorem merges_unexpected (h : AllMerged s₀ ctx log) (expected : String) (m : SyncMessage) :
    Merges s₀ (@unexpected α expected m) ctx (log ++ [.received m]) := h.received m

theorem merges_sendAll (ms : List SyncMessage) (h : AllMerged s₀ ctx log) :
    Merges s₀ (sendAll ms) ctx log := by
  induction ms generalizing log with
  | nil => exact ⟨h.merging, h⟩
  | cons m ms ih => exact throughout_tell h.merging (ih (h.append rfl))

theorem merges_sendHello (epoch : UInt64) (h : AllMerged s₀ ctx log) :
    Merges s₀ (sendHello epoch) ctx log := by
  refine throughout_read h.merging ⟨h.merging, ?_⟩
  have h' := h.tell (.hello ctx.clock.device epoch protocolVersion ctx.store.maxHlc ctx.label
    ctx.platform)
  exact ⟨h'.merging, h'⟩

theorem merges_receiveHello (peer : DeviceId) (h : AllMerged s₀ ctx log) :
    Merges s₀ (receiveHello peer) ctx log := by
  refine throughout_hear h.merging fun m => ?_
  cases m with
  | hello device epoch protocol maxHlc label platform =>
    have h' := h.hear (.hello device epoch protocol maxHlc label platform) rfl
    show Merges s₀ (if _ then _ else if _ then _ else _) ctx _
    split_ifs
    · exact h'.merging
    · exact h'.merging
    · exact ⟨h'.merging, h'⟩
  | summary | want | push | blobOffer | blobWant | blobChunk | blobEnd | ack | bye =>
    exact merges_unexpected h _ _

theorem merges_recvWant (expected : String) (h : AllMerged s₀ ctx log) :
    Merges s₀ (recvWant expected) ctx log := by
  refine throughout_hear h.merging fun m => ?_
  cases m with
  | want hashes =>
    have h' := h.hear (.want hashes) rfl
    exact ⟨h'.merging, h'⟩
  | hello | summary | push | blobOffer | blobWant | blobChunk | blobEnd | ack | bye =>
    exact merges_unexpected h _ _

theorem merges_recvAck (h : AllMerged s₀ ctx log) : Merges s₀ recvAck ctx log := by
  refine throughout_hear h.merging fun m => ?_
  cases m with
  | ack hlc =>
    have h' := h.hear (.ack hlc) rfl
    exact ⟨h'.merging, h'⟩
  | hello | summary | push | blobOffer | blobWant | blobChunk | blobEnd | want | bye =>
    exact merges_unexpected h _ _

theorem merges_pushFound (found : List (Option Clip)) (o : SyncOutcome)
    (h : AllMerged s₀ ctx log) : Merges s₀ (pushFound found o) ctx log := by
  induction found generalizing o log with
  | nil => exact ⟨h.merging, h⟩
  | cons clip found ih =>
    cases clip with
    | none => exact ih o h
    | some clip => exact throughout_tell h.merging (ih _ (h.append rfl))

theorem merges_sendBlobs (digests : List ContentHash) (o : SyncOutcome)
    (h : AllMerged s₀ ctx log) : Merges s₀ (sendBlobs digests o) ctx log := by
  induction digests generalizing o ctx log with
  | nil => exact ⟨h.merging, h⟩
  | cons digest digests ih =>
    rw [sendBlobs]
    refine Throughout.bind (merges_of_steady h fun done => steady_act fun ctx hm => ?_)
      fun r ctx' log' _ h' => ?_
    · unfold Store.readBlob
      cases ctx.store.files.find? digest <;> exact ⟨hm.rows, hm.blobs⟩
    · cases r with
      | ok bytes => exact throughout_tellStream h'.merging (ih _ (h'.append rfl))
      | error e => exact throughout_tellStream h'.merging (ih _ (h'.append rfl))

theorem merges_offerOurHistory (o : SyncOutcome) (h : AllMerged s₀ ctx log) :
    Merges s₀ (offerOurHistory o) ctx log := by
  have hserve : ∀ (hashes : List ContentHash) done,
      Steady (fun ctx : SyncContext => Merged s₀ done ctx.store) (serve hashes) := by
    intro hashes done
    induction hashes with
    | nil => trivial
    | cons hash hashes ih => exact steady_read.bind fun _ => ih.bind fun _ => trivial
  have hclips : Merges s₀ (offerClips o) ctx log := by
    refine Throughout.bind (throughout_read h.merging (merges_sendAll _ h)) fun _ _ _ _ h => ?_
    refine (merges_recvWant _ h).bind fun _ _ _ _ h => ?_
    refine (merges_of_steady h (hserve _)).bind fun _ _ _ _ h => ?_
    exact merges_pushFound _ _ h
  refine hclips.bind fun _ _ _ _ h => ?_
  refine (merges_recvWant _ h).bind fun _ _ _ _ h => ?_
  refine (merges_sendBlobs _ _ h).bind fun _ _ _ _ h => ?_
  exact (merges_recvAck h).bind fun _ _ _ hj h => ⟨hj, h⟩

theorem merges_recvSummaries (h : AllMerged s₀ ctx log) : Merges s₀ recvSummaries ctx log := by
  -- every message that keeps the loop going is a summary page
  have hpages : ∀ (ms : List SyncMessage) (acc acc' : List ClipSummary),
      ms.foldlM moreSummaries acc = some acc' → NoPush (ms.map .received) := by
    intro ms
    induction ms with
    | nil => exact fun _ _ _ => rfl
    | cons m ms ih =>
      intro acc acc' hf
      rw [List.foldlM_cons] at hf
      obtain ⟨acc₁, h₁, h₂⟩ := Option.bind_eq_some_iff.1 hf
      unfold moreSummaries at h₁
      split at h₁
      · exact ih _ _ h₂
      · cases h₁
  refine throughout_hearWhile fun ms acc' hf => ?_
  have h' := h.append (hpages ms _ acc' hf)
  refine ⟨h'.merging, fun m _ => ?_⟩
  cases m with
  | summary page complete =>
    have h'' := h'.hear (.summary page complete) rfl
    exact ⟨h''.merging, h''⟩
  | hello | want | push | blobOffer | blobWant | blobChunk | blobEnd | ack | bye =>
    exact merges_unexpected h' _ _

theorem merges_takePushes (n : Nat) (t : Taken) (h : AllMerged s₀ ctx log) :
    Merges s₀ (takePushes n t) ctx log := by
  induction n generalizing t ctx log with
  | zero => exact ⟨h.merging, h⟩
  | succ n ih =>
    refine throughout_hear h.merging fun m => ?_
    cases m with
    | push c =>
      have hl : pushesOf (log ++ [.received (.push c)]) = pushesOf log ++ [c] := by
        unfold pushesOf
        rw [Traffic.receivedMsgs_append, pushesIn_append]
        rfl
      refine (throughout_takePush t h hl).bind fun t' ctx' log' _ h' => ?_
      obtain ⟨h', rfl⟩ := h'
      refine ih t' ?_
      unfold AllMerged
      rw [hl]
      exact h'
    | hello | summary | want | blobOffer | blobWant | blobChunk | blobEnd | ack | bye =>
      exact merges_unexpected h _ _

theorem merges_takeBlobs (needed : List ContentHash) (o : SyncOutcome) (h : AllMerged s₀ ctx log) :
    Merges s₀ (takeBlobs needed o) ctx log := by
  induction needed generalizing o ctx log with
  | nil => exact ⟨h.merging, h⟩
  | cons digest needed ih =>
    refine throughout_hearStream h.merging fun bytes => ?_
    have h' : AllMerged s₀ ctx (log ++ [.receivedStream bytes]) := h.append rfl
    by_cases hd : ContentHash.of bytes = digest
    · rw [if_neg (not_not.2 hd)]
      exact throughout_act h'.merging (ih _ (h'.putBlob hd))
    · rw [if_pos hd]
      exact ih _ h'

theorem merges_takeTheirHistory (o : SyncOutcome) (h : AllMerged s₀ ctx log) :
    Merges s₀ (takeTheirHistory o) ctx log := by
  have hcompare : ∀ (entries : List ClipSummary) done,
      Steady (fun ctx : SyncContext => Merged s₀ done ctx.store) (compare entries) := by
    intro entries done
    induction entries with
    | nil => trivial
    | cons entry entries ih => exact steady_read.bind fun _ => ih.bind fun _ => trivial
  have hneeded : ∀ (missing needed : List ContentHash) done,
      Steady (fun ctx : SyncContext => Merged s₀ done ctx.store) (neededBlobs missing needed) := by
    intro missing
    induction missing with
    | nil => exact fun _ _ => trivial
    | cons digest missing ih => exact fun needed done => steady_read.bind fun _ => ih _ done
  have hack : ∀ done, Steady (fun ctx : SyncContext => Merged s₀ done ctx.store) ackHlc := by
    refine fun done => steady_read.bind fun hlc => ?_
    cases hlc with
    | some hlc => trivial
    | none => exact steady_act fun _ hm => hm
  have hclips : Merges s₀ (takeClips o) ctx log := by
    refine (merges_recvSummaries h).bind fun _ _ _ _ h => ?_
    refine (merges_of_steady h (hcompare _)).bind fun _ _ _ _ h => ?_
    exact throughout_tell h.merging (merges_takePushes _ _ (h.append rfl))
  refine hclips.bind fun _ _ _ _ h => ?_
  refine (merges_of_steady h (hneeded _ _)).bind fun _ _ _ _ h => ?_
  refine throughout_tell h.merging ?_
  refine (merges_takeBlobs _ _ (h.tell _)).bind fun _ _ _ _ h => ?_
  refine (merges_of_steady h hack).bind fun hlc _ _ _ h => ?_
  have h' := h.tell (.ack hlc)
  exact throughout_tell h.merging ⟨h'.merging, h'⟩

/-- **A session, in either role and against any peer**, merges one push after the other. -/
theorem merges_run (peer : DeviceId) (epoch : UInt64) (role : Role) (ctx : SyncContext) :
    Merges ctx.store (run peer epoch role) ctx [] := by
  have h : AllMerged ctx.store ctx [] := Merged.refl _
  cases role with
  | dialler =>
    refine (merges_sendHello epoch h).bind fun _ _ _ _ h => ?_
    refine (merges_receiveHello peer h).bind fun _ _ _ _ h => ?_
    exact (merges_offerOurHistory _ h).bind fun _ _ _ _ h => merges_takeTheirHistory _ h
  | responder =>
    refine (merges_receiveHello peer h).bind fun _ _ _ _ h => ?_
    refine (merges_sendHello epoch h).bind fun _ _ _ _ h => ?_
    exact (merges_takeTheirHistory _ h).bind fun _ _ _ _ h => merges_offerOurHistory _ h

end

/-! ## What a session adds -/

/-- The rows that are not in `before` carry what they declare. -/
def AddedAuthentic (before after : Store) : Prop :=
  ∀ r ∈ after.rows, (∀ r' ∈ before.rows, r'.id ≠ r.id) → r.Authentic

/-- The blobs that are not in `before` have the digest that they are stored under. -/
def AddedBlobsGenuine (before after : Store) : Prop :=
  ∀ f ∈ after.files.rows, f ∈ before.files.rows ∨ ContentHash.of f.bytes = f.digest

theorem authentic_of_content {r r' : ClipRow} (h : r.content = r'.content) :
    r.Authentic ↔ r'.Authentic := by
  have hp : r.payloads = r'.payloads := congrArg (fun x => x.2.2) h
  unfold ClipRow.Authentic
  rw [hp]

/-- The rows added are those of the new clips. -/
theorem Merged.addedAuthentic_iff (h : Merged s₀ done s) :
    AddedAuthentic s₀ s ↔ ∀ c ∈ newClips s₀ done, c.Authentic := by
  constructor
  · intro ha c hc
    have hmem : (ClipRow.of c).content ∈ s.rows.map ClipRow.content := by
      rw [h.rows]
      exact List.mem_append_right _ (List.mem_map.2 ⟨c, hc, rfl⟩)
    obtain ⟨r, hr, he⟩ := List.mem_map.1 hmem
    have hid : r.id = c.id := congrArg (·.1) he
    -- no two rows share an id, so none of the rows before has that of a new one
    have hn : (s.rows.map ClipRow.id).Nodup := s.clip.nodup
    have hids : s.rows.map ClipRow.id =
        s₀.rows.map ClipRow.id ++ (newClips s₀ done).map Clip.id := by
      have hm := congrArg (List.map (·.1)) h.rows
      rw [List.map_append, List.map_map, List.map_map, List.map_map] at hm
      exact hm
    rw [hids, List.nodup_append] at hn
    refine ClipRow.authentic_of.1 ((authentic_of_content he).1 (ha r hr fun r' hr' he' => ?_))
    exact hn.2.2 _ (List.mem_map_of_mem hr') _ (List.mem_map_of_mem hc) (he'.trans hid)
  · intro ha r hr hne
    have hmem : r.content ∈ s.rows.map ClipRow.content := List.mem_map_of_mem hr
    rw [h.rows] at hmem
    rcases List.mem_append.1 hmem with hmem | hmem
    · obtain ⟨r', hr', he⟩ := List.mem_map.1 hmem
      exact absurd (congrArg (·.1) he) (hne r' hr')
    · obtain ⟨c, hc, he⟩ := List.mem_map.1 hmem
      exact (authentic_of_content he).1 (ClipRow.authentic_of.2 (ha c hc))

theorem newClips_subset_snoc (s : Store) (pushes : List Clip) (c : Clip) :
    newClips s pushes ⊆ newClips s (pushes ++ [c]) := by
  rw [newClips_snoc]
  split
  · exact List.subset_append_left _ _
  · exact List.Subset.refl _

section
variable {peer : DeviceId} {epoch : UInt64} {role : Role} {ms : List SyncMessage}
  {bs : List Bytes} {e : End syncWire SyncOutcome}

theorem throughout_session
    (h : Solo (End.deliver { proc := run peer epoch role, state := ctx } ms bs) e) :
    Merges ctx.store e.proc e.state e.log :=
  Throughout.solo (e := End.deliver { proc := run peer epoch role, state := ctx } ms bs)
    (merges_run peer epoch role ctx) h

/-- At any point of a session, authentic new clips have left authentic rows. -/
theorem addedAuthentic_of
    (h : Solo (End.deliver { proc := run peer epoch role, state := ctx } ms bs) e)
    (ha : ∀ c ∈ newClips ctx.store (pushedClips e), c.Authentic) :
    AddedAuthentic ctx.store e.state.store := by
  obtain ⟨done, hm, hl⟩ := (throughout_session h).point
  refine hm.addedAuthentic_iff.2 fun c hc => ha c ?_
  change c ∈ newClips ctx.store (pushesOf e.log)
  rcases hl with hl | ⟨c', hl⟩
  · rwa [hl]
  · rw [hl]
    exact newClips_subset_snoc _ _ _ hc

theorem blobsGenuine_session
    (h : Solo (End.deliver { proc := run peer epoch role, state := ctx } ms bs) e) :
    AddedBlobsGenuine ctx.store e.state.store := by
  obtain ⟨done, hm, -⟩ := (throughout_session h).point
  exact hm.blobs

/-- A session that has returned has merged all the clips. -/
theorem addedAuthentic_iff_of_done {o : SyncOutcome}
    (h : Solo (End.deliver { proc := run peer epoch role, state := ctx } ms bs) e)
    (ho : e.proc = .done o) :
    AddedAuthentic ctx.store e.state.store ↔
      ∀ c ∈ newClips ctx.store (pushedClips e), c.Authentic := by
  have ht := throughout_session h
  rw [ho] at ht
  exact ht.2.addedAuthentic_iff

/-- **What a peer adds is what it declares**: blobs always, rows when the first genuine clip of
each content that the store does not know carries the bytes that it declares. A session that
returns has added a row for each of these, and so it meets this only then. -/
theorem authentic_iff
    (h : Solo (End.deliver { proc := run peer epoch role, state := ctx } ms bs) e) :
    AddedBlobsGenuine ctx.store e.state.store ∧
      ((∀ c ∈ newClips ctx.store (pushedClips e), c.Authentic) →
        AddedAuthentic ctx.store e.state.store) ∧
      ((∃ o, e.proc = .done o) → (AddedAuthentic ctx.store e.state.store ↔
        ∀ c ∈ newClips ctx.store (pushedClips e), c.Authentic)) :=
  ⟨blobsGenuine_session h, addedAuthentic_of h, fun ⟨_, ho⟩ => addedAuthentic_iff_of_done h ho⟩

end

end

section
attribute [local instance] Blake3.examples

/-- The text `hi` with the bytes of another text. -/
def forged : Clip :=
  { Clip.hi 0 (.repeated 1) ⟨0, 0, .repeated 1⟩ with
    payloads := [{ Payload.new .text (utf8 "hi") with body := .inline (utf8 "bye") }] }

theorem forged_canonical : forged.Canonical := ⟨List.pairwise_singleton _ _, decide_eq_true rfl⟩

theorem forged_loaded : (ClipRow.of forged).toClip.payloads = forged.payloads := by
  change (ClipRow.of forged).loadPayloads = _
  rw [ClipRow.loadPayloads_of forged_canonical.sorted]
  rfl

/-- The clip declares two bytes and carries three. -/
theorem not_authentic_forged : ¬ (ClipRow.of forged).toClip.Authentic := by
  unfold Clip.Authentic
  rw [forged_loaded]
  intro h
  have hd := h _ (List.mem_singleton_self _) (utf8 "bye") rfl
  have hl : (utf8 "bye").length = (utf8 "hi").length := hd.2
  exact absurd hl (by decide +kernel)

/-- A device that a clip was stored on. -/
theorem stored_forged : ∃ s, Store.Reachable s ∧ s.rows = [.of forged] := by
  obtain ⟨s, h, hr⟩ := Store.insert_fresh (s := Store.open_ 0) forged_canonical
    (fun r hr => by cases hr) fun r hr => by cases hr
  exact ⟨s, (Store.Reachable.open_ 0).insert forged_canonical h, hr⟩

/-- A peer that pushes other bytes under the hash of `hi` gets them stored. -/
theorem not_authentic :
    ¬ ∀ (peer : DeviceId) (epoch : UInt64) (role : Role) (ctx : SyncContext)
      (ms : List SyncMessage) (bs : List Bytes) (e : End syncWire SyncOutcome),
      Solo (End.deliver { proc := run peer epoch role, state := ctx } ms bs) e →
      AddedBlobsGenuine ctx.store e.state.store ∧ AddedAuthentic ctx.store e.state.store := by
  intro h
  obtain ⟨s, hreach, hrows⟩ := stored_forged
  have hhi : Only Clip.hiContent s := by
    intro r hr
    rw [hrows] at hr
    rw [List.mem_singleton.1 hr]
    rfl
  obtain ⟨p, F, o, hs, ho, hp⟩ := newcomer_returns (a := .start s (.repeated 1) fun _ => 0)
    hreach hhi hrows
  obtain ⟨ms, bs, hsolo⟩ := solo_of_steps hs
  have hadded := (addedAuthentic_iff_of_done hsolo ho).1 (h _ _ _ _ _ _ _ hsolo).2
  rw [hp, newClips_newcomer (ClipRow.toClip_of_canonical forged_canonical).hash] at hadded
  exact not_authentic_forged (hadded _ (List.mem_singleton_self _))

/-- A text that was copied is stored as it is. -/
theorem authentic_iff_copied :
    ∃ (ms : List SyncMessage) (bs : List Bytes) (e : End syncWire SyncOutcome),
      Solo (End.deliver { proc := run (.repeated 1) 0 .responder, state := newcomer } ms bs) e ∧
      pushedClips e ≠ [] ∧ AddedAuthentic newcomer.store e.state.store := by
  obtain ⟨hreach, hrows⟩ := Store.copied_spec 1 (.repeated 1) ⟨1, 0, .repeated 1⟩
  obtain ⟨p, F, o, hs, ho, hp⟩ := newcomer_returns (a := copier 1 1) hreach
    (onlyHi_copied _ _ _) hrows
  obtain ⟨ms, bs, hsolo⟩ := solo_of_steps hs
  refine ⟨ms, bs, F.1, hsolo, by rw [hp]; exact List.cons_ne_nil _ _, ?_⟩
  refine (authentic_iff hsolo).2.1 fun c hc => ?_
  have hc' := (mem_newClips hc).1
  rw [hp] at hc'
  obtain rfl := List.mem_singleton.1 hc'
  have hload : (ClipRow.of (.hi 1 (.repeated 1) ⟨1, 0, .repeated 1⟩)).toClip.payloads =
      (Clip.hi 1 (.repeated 1) ⟨1, 0, .repeated 1⟩).payloads := by
    change ClipRow.loadPayloads _ = _
    rw [ClipRow.loadPayloads_of (Clip.hi_canonical _ _ _).sorted]
    rfl
  unfold Clip.Authentic
  rw [hload]
  refine Clip.new_authentic _ _ _ fun q hq => ⟨.text, utf8 "hi", List.mem_singleton.1 hq, ?_⟩
  decide +kernel

end

end Session
end Clipse
