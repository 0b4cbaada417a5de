import Clipse.Sync.Proof.Apply
import Clipse.Sync.Proof.History

/-!
# One turn, loop by loop

What the loops of `offerOurHistory` and `takeTheirHistory` compute, and the runs through them:
from the side of one end against any peer (`ends_…`, for results about whatever a peer sends) and
for two honest ends (`steps_…`).
-/

namespace Clipse

open Duplex

namespace Store

/-- The filter of the receiving end: the content is unknown here, or older. -/
def lacks (s : Store) (e : ClipSummary) : Bool :=
  match s.rep e.hash with
  | none => true
  | some r => decide (r.hlc < e.hlc)

/-- The hashes that the receiving end asks for. -/
def wanted (s : Store) (entries : List ClipSummary) : List ContentHash :=
  (entries.filter s.lacks).map (·.hash)

/-- The blobs that the receiving end asks for. -/
def neededFrom (s : Store) : List ContentHash → List ContentHash → List ContentHash
  | [], needed => needed
  | digest :: missing, needed =>
    s.neededFrom missing (if !s.hasBlob digest && digest ∉ needed then needed ++ [digest] else needed)

theorem mem_neededFrom {s : Store} {missing needed : List ContentHash} {digest : ContentHash} :
    digest ∈ s.neededFrom missing needed ↔
      digest ∈ needed ∨ digest ∈ missing ∧ s.hasBlob digest = false := by
  induction missing generalizing needed with
  | nil => simp [neededFrom]
  | cons d missing ih =>
    rw [neededFrom, ih]
    by_cases hb : s.hasBlob d
    · have hne : s.hasBlob digest = false → digest ≠ d := by
        rintro h rfl
        rw [hb] at h
        cases h
      simp only [hb, Bool.not_true, Bool.false_and, Bool.false_eq_true, ↓reduceIte, List.mem_cons]
      tauto
    · by_cases hn : d ∈ needed
      · simp only [hb, hn, not_true_eq_false, decide_false, Bool.and_false, Bool.false_eq_true,
          ↓reduceIte, List.mem_cons]
        refine or_congr_right' fun hd => ⟨fun h => ⟨.inr h.1, h.2⟩, fun h => ⟨?_, h.2⟩⟩
        exact h.1.resolve_left fun he => hd (he ▸ hn)
      · simp only [hb, hn, not_false_eq_true, decide_true, Bool.not_false, Bool.and_self,
          ↓reduceIte, List.mem_append, List.mem_cons, List.not_mem_nil, or_false]
        constructor
        · rintro ((h | rfl) | h)
          · exact .inl h
          · exact .inr ⟨.inl rfl, by simpa using hb⟩
          · exact .inr ⟨.inr h.1, h.2⟩
        · rintro (h | ⟨rfl | h, hb'⟩)
          · exact .inl (.inl h)
          · exact .inl (.inr rfl)
          · exact .inr ⟨h, hb'⟩

/-- Each blob is asked for once. -/
theorem nodup_neededFrom {s : Store} {missing needed : List ContentHash} (h : needed.Nodup) :
    (s.neededFrom missing needed).Nodup := by
  induction missing generalizing needed with
  | nil => exact h
  | cons d missing ih =>
    rw [neededFrom]
    refine ih ?_
    split
    · next hd =>
      simp only [Bool.and_eq_true, decide_eq_true_eq] at hd
      rw [List.nodup_append]
      refine ⟨h, List.nodup_singleton _, fun a ha b hb hab => hd.2 ?_⟩
      rwa [← List.mem_singleton.1 hb, ← hab]
    · exact h

/-- The bytes that the sending end streams for a digest: nothing when the blob is gone. -/
def blobOf (s : Store) (digest : ContentHash) : Bytes :=
  ((s.files.find? digest).map (·.bytes)).getD []

/-- Two stores are the same up to when their blobs were used. -/
structure SameData (s s' : Store) : Prop where
  rows : s'.rows = s.rows
  files : s'.files = s.files
  quota : s'.blobQuotaBytes = s.blobQuotaBytes
  sizes : s'.blobMeta.rows.map (fun m => (m.digest, m.size)) =
    s.blobMeta.rows.map (fun m => (m.digest, m.size))

theorem SameData.refl (s : Store) : SameData s s := ⟨rfl, rfl, rfl, rfl⟩

theorem SameData.trans {s s' s'' : Store} (h : SameData s s') (h' : SameData s' s'') :
    SameData s s'' :=
  ⟨h'.rows.trans h.rows, h'.files.trans h.files, h'.quota.trans h.quota, h'.sizes.trans h.sizes⟩

theorem sameData_touchBlob (s : Store) (digest : ContentHash) :
    SameData s (s.touchBlob digest) := by
  refine ⟨rfl, rfl, rfl, ?_⟩
  unfold touchBlob
  rw [Table.rows_modify, List.map_map]
  refine List.map_congr_left fun m _ => ?_
  simp only [Function.comp_apply]
  split <;> rfl

theorem SameData.rep {s s' : Store} (h : SameData s s') (hash : ContentHash) :
    s'.rep hash = s.rep hash := by
  rw [rep_eq, rep_eq, rowsOf_of_rows_eq h.rows]

/-! ### Received blobs -/

section
variable [Blake3]

/-- The store after the receiving loop has taken these streams. -/
def receiveBlobs (s : Store) : List (ContentHash × Bytes) → Store
  | [] => s
  | (digest, bytes) :: blobs =>
    (if ContentHash.of bytes = digest then s.putBlob digest bytes else s).receiveBlobs blobs

theorem rows_receiveBlobs (s : Store) (blobs : List (ContentHash × Bytes)) :
    (s.receiveBlobs blobs).rows = s.rows := by
  induction blobs generalizing s with
  | nil => rfl
  | cons b blobs ih =>
    obtain ⟨digest, bytes⟩ := b
    rw [receiveBlobs, ih]
    split <;> rfl

theorem hasBlob_receiveBlobs {s : Store} {blobs : List (ContentHash × Bytes)} {d : ContentHash} :
    (s.receiveBlobs blobs).hasBlob d ↔
      s.hasBlob d ∨ ∃ bytes, (d, bytes) ∈ blobs ∧ ContentHash.of bytes = d := by
  induction blobs generalizing s with
  | nil => simp [receiveBlobs]
  | cons b blobs ih =>
    obtain ⟨digest, bytes⟩ := b
    rw [receiveBlobs, ih]
    by_cases he : ContentHash.of bytes = digest
    · rw [if_pos he, hasBlob_putBlob]
      constructor
      · rintro ((rfl | h) | ⟨b, hb, hd⟩)
        · exact .inr ⟨bytes, List.mem_cons_self, he⟩
        · exact .inl h
        · exact .inr ⟨b, List.mem_cons_of_mem _ hb, hd⟩
      · rintro (h | ⟨b, hb, hd⟩)
        · exact .inl (.inr h)
        · rcases List.mem_cons.1 hb with hb | hb
          · cases hb
            exact .inl (.inl rfl)
          · exact .inr ⟨b, hb, hd⟩
    · rw [if_neg he]
      refine or_congr_right ⟨fun ⟨b, hb, hd⟩ => ⟨b, List.mem_cons_of_mem _ hb, hd⟩, ?_⟩
      rintro ⟨b, hb, hd⟩
      rcases List.mem_cons.1 hb with hb | hb
      · cases hb
        exact absurd hd he
      · exact ⟨b, hb, hd⟩

end

end Store

namespace Session

/-! ## Calls between messages -/

theorem eval_serve (hashes : List ContentHash) (ctx : SyncContext) :
    (serve hashes).eval ctx =
      some (.ok (hashes.map ctx.store.byHashIncludingDeleted), ctx) := by
  induction hashes with
  | nil => rfl
  | cons hash hashes ih =>
    rw [serve, Proc.eval_bind_ok (Proc.eval_read _ _ _), Proc.eval_bind_ok ih]
    rfl

theorem compare_silent (entries : List ClipSummary) : (compare entries).Silent := by
  induction entries with
  | nil => trivial
  | cons entry entries ih =>
    exact (Proc.silent_read _ _).bind fun _ => ih.bind fun _ => trivial

theorem eval_compare (entries : List ClipSummary) (ctx : SyncContext) :
    (compare entries).eval ctx = some (.ok (ctx.store.wanted entries), ctx) := by
  induction entries with
  | nil => rfl
  | cons entry entries ih =>
    rw [compare, Proc.eval_bind_ok (Proc.eval_read _ _ _), Proc.eval_bind_ok ih,
      Store.byHashIncludingDeleted_eq, Proc.eval_pure, Store.wanted, Store.wanted,
      List.filter_cons]
    cases hr : ctx.store.rep entry.hash with
    | none => simp [Store.lacks, hr]
    | some r =>
      by_cases hlt : r.hlc < entry.hlc <;> simp [Store.lacks, hr, hlt, ClipRow.toClip]

theorem neededBlobs_silent (missing needed : List ContentHash) :
    (neededBlobs missing needed).Silent := by
  induction missing generalizing needed with
  | nil => trivial
  | cons digest missing ih => exact (Proc.silent_read _ _).bind fun _ => ih _

theorem eval_neededBlobs (missing needed : List ContentHash) (ctx : SyncContext) :
    (neededBlobs missing needed).eval ctx =
      some (.ok (ctx.store.neededFrom missing needed), ctx) := by
  induction missing generalizing needed with
  | nil => rfl
  | cons digest missing ih =>
    rw [neededBlobs, Proc.eval_bind_ok (Proc.eval_read _ _ _), ih]
    rfl

theorem ackHlc_silent : ackHlc.Silent := by
  refine (Proc.silent_read _ _).bind fun hlc => ?_
  cases hlc with
  | some hlc => trivial
  | none => exact Proc.silent_act _ _

theorem eval_ackHlc (ctx : SyncContext) :
    ∃ hlc ctx', ackHlc.eval ctx = some (.ok hlc, ctx') ∧ ctx'.store = ctx.store ∧
      ctx'.clock.device = ctx.clock.device := by
  rw [ackHlc, Proc.eval_bind_ok (Proc.eval_read _ _ _)]
  cases ctx.store.maxHlc with
  | some hlc => exact ⟨hlc, ctx, rfl, rfl, rfl⟩
  | none => exact ⟨_, _, rfl, rfl, HlcClock.now_device _ _⟩

theorem eval_readBlob (digest : ContentHash) (ctx : SyncContext) :
    ∃ r ctx', (readBlob digest).eval ctx = some (.ok r, ctx') ∧
      Store.SameData ctx.store ctx'.store ∧ ctx'.clock = ctx.clock ∧
      ((∃ e, r = .error e ∧ ctx.store.hasBlob digest = false ∧ ctx.store.blobOf digest = []) ∨
        r = .ok (ctx.store.blobOf digest) ∧ ctx.store.hasBlob digest) := by
  rw [readBlob, Proc.eval_act]
  unfold Store.readBlob Store.blobOf Store.hasBlob
  cases ctx.store.files.find? digest with
  | none => exact ⟨_, _, rfl, .refl _, rfl, .inl ⟨_, rfl, rfl, rfl⟩⟩
  | some file => exact ⟨_, _, rfl, Store.sameData_touchBlob _ _, rfl, .inr ⟨rfl, rfl⟩⟩

/-! ## The loops, against any peer -/

section
variable {α β : Type} {ctx : SyncContext} {inbox : List SyncMessage} {streams : List Bytes}
  {log : List (Traffic SyncMessage Bytes)} {F : End syncWire α}

theorem ends_recvSummaries {q : List ClipSummary → Session α}
    (h : Ends ⟨recvSummaries >>= q, ctx, inbox, streams, log⟩ F) :
    ∃ (pages : List (List ClipSummary × Bool)) (entries : List ClipSummary) (rest : List SyncMessage),
      inbox = pages.map (fun p => SyncMessage.summary p.1 p.2) ++ rest ∧
      Ends ⟨q entries, ctx, rest, streams,
        log ++ (pages.map fun p => SyncMessage.summary p.1 p.2).map .received⟩ F := by
  rw [recvSummaries, bind_assoc] at h
  obtain ⟨ms, m, rest, entries, rfl, hf, hm, hE⟩ := ends_hearWhile h
  -- every message that keeps the loop going is a summary page
  have hms : ∃ pages : List (List ClipSummary × Bool),
      ms = pages.map fun p => SyncMessage.summary p.1 p.2 := by
    clear hE h hm
    generalize ([] : List ClipSummary) = acc at hf
    induction ms generalizing acc with
    | nil => exact ⟨[], rfl⟩
    | cons m₀ ms ih =>
      rw [List.foldlM_cons] at hf
      obtain ⟨acc₁, h₁, h₂⟩ := Option.bind_eq_some_iff.1 hf
      obtain ⟨pages, rfl⟩ := ih acc₁ h₂
      unfold moreSummaries at h₁
      split at h₁
      · next page => exact ⟨(page, false) :: pages, rfl⟩
      · cases h₁
  obtain ⟨pages, rfl⟩ := hms
  cases m with
  | summary page complete =>
    refine ⟨pages ++ [(page, complete)], entries ++ page, rest, by simp, ?_⟩
    simpa using hE
  | hello | want | push | blobOffer | blobWant | blobChunk | blobEnd | ack | bye =>
    exact absurd hE (not_ends_of_error (t := unexpected "Summary" _) rfl)

variable [Blake3]

/-- Merge the clips in order, as the receiving loop does. -/
def takeAll (clips : List Clip) (t : Taken) : Session Taken := clips.foldlM takePush t

theorem takePush_silent (t : Taken) (clip : Clip) : (takePush t clip).Silent :=
  (apply_silent clip).bind fun _ => trivial

theorem takePush_ok {t t' : Taken} {c : Clip} {ctx ctx' : SyncContext}
    (h : (takePush t c).eval ctx = some (.ok t', ctx')) :
    ∃ a, (apply c).eval ctx = some (.ok a, ctx') ∧ t' = t.note c a := by
  rw [takePush, Proc.eval_bind] at h
  obtain ⟨⟨r, ctx₁⟩, hr⟩ := (apply_silent c).eval ctx
  rw [hr] at h
  cases r with
  | error e => cases h
  | ok a =>
    cases h
    exact ⟨a, hr, rfl⟩

theorem takeAll_nil (t : Taken) (ctx : SyncContext) :
    (takeAll [] t).eval ctx = some (.ok t, ctx) := rfl

theorem takeAll_cons {t t₁ : Taken} {clip : Clip} {ctx ctx₁ : SyncContext} (clips : List Clip)
    (h : (takePush t clip).eval ctx = some (.ok t₁, ctx₁)) :
    (takeAll (clip :: clips) t).eval ctx = (takeAll clips t₁).eval ctx₁ := by
  rw [takeAll, List.foldlM_cons, Proc.eval_bind_ok h]
  rfl

theorem takeAll_cons_ok {clips : List Clip} {t t' : Taken} {clip : Clip} {ctx ctx' : SyncContext}
    (h : (takeAll (clip :: clips) t).eval ctx = some (.ok t', ctx')) :
    ∃ t₁ ctx₁, (takePush t clip).eval ctx = some (.ok t₁, ctx₁) ∧
      (takeAll clips t₁).eval ctx₁ = some (.ok t', ctx') := by
  obtain ⟨⟨r, ctx₁⟩, hr⟩ := (takePush_silent t clip).eval ctx
  cases r with
  | error e =>
    rw [takeAll, List.foldlM_cons, Proc.eval_bind, hr] at h
    cases h
  | ok t₁ =>
    rw [takeAll_cons clips hr] at h
    exact ⟨t₁, ctx₁, hr, h⟩

theorem takeAll_silent (clips : List Clip) (t : Taken) : (takeAll clips t).Silent := by
  induction clips generalizing t with
  | nil => trivial
  | cons clip clips ih =>
    rw [takeAll, List.foldlM_cons]
    exact (takePush_silent t clip).bind fun t₁ => ih t₁

theorem ends_takePushes {q : Taken → Session α} {n : Nat} {t : Taken}
    (h : Ends ⟨takePushes n t >>= q, ctx, inbox, streams, log⟩ F) :
    ∃ clips rest t' ctx', clips.length = n ∧ inbox = clips.map .push ++ rest ∧
      (takeAll clips t).eval ctx = some (.ok t', ctx') ∧
      Ends ⟨q t', ctx', rest, streams, log ++ (clips.map SyncMessage.push).map .received⟩ F := by
  induction n generalizing t ctx inbox log with
  | zero => exact ⟨[], inbox, t, ctx, rfl, rfl, rfl, by simpa [takePushes] using h⟩
  | succ n ih =>
    rw [takePushes, bind_assoc] at h
    obtain ⟨m, rest, rfl, hE⟩ := ends_hear h
    cases m with
    | push clip =>
      simp only [bind_assoc] at hE
      obtain ⟨⟨r, ctx₁⟩, hr⟩ := (takePush_silent t clip).eval ctx
      cases r with
      | error e => exact absurd hE (not_ends_of_error hr)
      | ok t₁ =>
        have hE₁ := ends_eval hr hE
        obtain ⟨clips, rest', t', ctx', hl, rfl, ht, hE'⟩ := ih hE₁
        refine ⟨clip :: clips, rest', t', ctx', by simp [hl], rfl, ?_, ?_⟩
        · rw [takeAll_cons clips hr, ht]
        · simpa using hE'
    | hello | summary | want | blobOffer | blobWant | blobChunk | blobEnd | ack | bye =>
      exact absurd hE (not_ends_of_error (t := unexpected "Push" _) rfl)

theorem ends_takeBlobs {q : SyncOutcome → Session α} {needed : List ContentHash}
    {o : SyncOutcome} (h : Ends ⟨takeBlobs needed o >>= q, ctx, inbox, streams, log⟩ F) :
    ∃ bs rest o' ctx', streams = bs ++ rest ∧ bs.length = needed.length ∧
      ctx'.store = ctx.store.receiveBlobs (needed.zip bs) ∧
      Ends ⟨q o', ctx', inbox, rest, log ++ bs.map .receivedStream⟩ F := by
  induction needed generalizing o ctx streams log with
  | nil => exact ⟨[], streams, o, ctx, rfl, rfl, rfl, by simpa [takeBlobs] using h⟩
  | cons digest needed ih =>
    rw [takeBlobs, bind_assoc] at h
    obtain ⟨b, rest, rfl, hE⟩ := ends_hearStream h
    by_cases hd : ContentHash.of b ≠ digest
    · simp only [hd, ne_eq, not_false_eq_true, ↓reduceIte] at hE
      obtain ⟨bs, rest', o', ctx', rfl, hl, hs, hE'⟩ := ih hE
      refine ⟨b :: bs, rest', o', ctx', rfl, by simp [hl], ?_, by simpa using hE'⟩
      rw [hs, List.zip_cons_cons, Store.receiveBlobs, if_neg hd]
    · simp only [hd, ↓reduceIte, bind_assoc] at hE
      have hE₁ := ends_eval (Proc.eval_act _ _ _) hE
      obtain ⟨bs, rest', o', ctx', rfl, hl, hs, hE'⟩ := ih hE₁
      refine ⟨b :: bs, rest', o', ctx', rfl, by simp [hl], ?_, by simpa using hE'⟩
      rw [hs, List.zip_cons_cons, Store.receiveBlobs, if_pos (not_not.1 hd)]

omit [Blake3]

theorem ends_sendAll {q : Unit → Session α} {ms : List SyncMessage}
    (h : Ends ⟨sendAll ms >>= q, ctx, inbox, streams, log⟩ F) :
    Ends ⟨q (), ctx, inbox, streams, log ++ ms.map .sent⟩ F := by
  induction ms generalizing log with
  | nil => simpa [sendAll] using h
  | cons m ms ih =>
    rw [sendAll, bind_assoc] at h
    rw [List.map_cons, List.append_cons]
    exact ih (ends_tell h)

theorem ends_recvWant {expected : String} {q : List ContentHash → Session α}
    (h : Ends ⟨recvWant expected >>= q, ctx, inbox, streams, log⟩ F) :
    ∃ hashes rest, inbox = .want hashes :: rest ∧
      Ends ⟨q hashes, ctx, rest, streams, log ++ [.received (.want hashes)]⟩ F := by
  rw [recvWant, bind_assoc] at h
  obtain ⟨m, rest, rfl, hE⟩ := ends_hear h
  cases m with
  | want hashes => exact ⟨hashes, rest, rfl, hE⟩
  | hello | summary | push | blobOffer | blobWant | blobChunk | blobEnd | ack | bye =>
    exact absurd hE (not_ends_of_error (t := unexpected expected _) rfl)

theorem ends_recvAck {q : Unit → Session α}
    (h : Ends ⟨recvAck >>= q, ctx, inbox, streams, log⟩ F) :
    ∃ hlc rest, inbox = .ack hlc :: rest ∧
      Ends ⟨q (), ctx, rest, streams, log ++ [.received (.ack hlc)]⟩ F := by
  rw [recvAck, bind_assoc] at h
  obtain ⟨m, rest, rfl, hE⟩ := ends_hear h
  cases m with
  | ack hlc => exact ⟨hlc, rest, rfl, hE⟩
  | hello | summary | want | push | blobOffer | blobWant | blobChunk | blobEnd | bye =>
    exact absurd hE (not_ends_of_error (t := unexpected "Ack" _) rfl)

theorem ends_pushFound {q : SyncOutcome → Session α} {found : List (Option Clip)}
    {o : SyncOutcome} (h : Ends ⟨pushFound found o >>= q, ctx, inbox, streams, log⟩ F) :
    ∃ (clips : List Clip) (o' : SyncOutcome), o'.newestReceived = o.newestReceived ∧
      Ends ⟨q o', ctx, inbox, streams, log ++ (clips.map SyncMessage.push).map .sent⟩ F := by
  induction found generalizing o log with
  | nil => exact ⟨[], o, rfl, by simpa [pushFound] using h⟩
  | cons clip found ih =>
    cases clip with
    | none => exact ih h
    | some clip =>
      rw [pushFound, bind_assoc] at h
      obtain ⟨clips, o', ho, hE⟩ := ih (ends_tell h)
      exact ⟨clip :: clips, o', ho, by rwa [List.append_assoc] at hE⟩

theorem ends_sendBlobs {q : SyncOutcome → Session α} {digests : List ContentHash}
    {o : SyncOutcome} (h : Ends ⟨sendBlobs digests o >>= q, ctx, inbox, streams, log⟩ F) :
    ∃ (bs : List Bytes) (o' : SyncOutcome) (ctx' : SyncContext),
      o'.newestReceived = o.newestReceived ∧ Store.SameData ctx.store ctx'.store ∧
      Ends ⟨q o', ctx', inbox, streams, log ++ bs.map .sentStream⟩ F := by
  induction digests generalizing o ctx log with
  | nil => exact ⟨[], o, ctx, rfl, .refl _, by simpa [sendBlobs] using h⟩
  | cons digest digests ih =>
    obtain ⟨r, ctx₁, hr, hsame, -, -⟩ := eval_readBlob digest ctx
    rw [sendBlobs, bind_assoc] at h
    have hE := ends_eval hr h
    cases r with
    | ok bytes =>
      simp only [bind_assoc] at hE
      obtain ⟨bs, o', ctx', ho, hs, hE'⟩ := ih (ends_tellStream hE)
      exact ⟨bytes :: bs, o', ctx', ho, hsame.trans hs, by rwa [List.append_assoc] at hE'⟩
    | error e =>
      simp only [bind_assoc] at hE
      obtain ⟨bs, o', ctx', ho, hs, hE'⟩ := ih (ends_tellStream hE)
      exact ⟨[] :: bs, o', ctx', ho, hsame.trans hs, by rwa [List.append_assoc] at hE'⟩

end

/-! ## Two honest ends -/

section
variable {α β : Type} {p : End syncWire α} {ctx ctx' : SyncContext} {inbox : List SyncMessage}
  {streams : List Bytes} {log : List (Traffic SyncMessage Bytes)}

theorem steps_recvWant {q : List ContentHash → Session α} (expected : String)
    (hashes : List ContentHash) :
    Steps (⟨recvWant expected >>= q, ctx, .want hashes :: inbox, streams, log⟩, p)
      (⟨q hashes, ctx, inbox, streams, log ++ [.received (.want hashes)]⟩, p) := by
  rw [recvWant, bind_assoc]
  exact steps_hear (W := syncWire) _

theorem steps_recvAck {q : Unit → Session α} (hlc : Hlc) :
    Steps (⟨recvAck >>= q, ctx, .ack hlc :: inbox, streams, log⟩, p)
      (⟨q (), ctx, inbox, streams, log ++ [.received (.ack hlc)]⟩, p) := by
  rw [recvAck, bind_assoc]
  exact steps_hear (W := syncWire) _

theorem steps_pushFound {q : SyncOutcome → Session α} (clips : List Clip) (o : SyncOutcome) :
    Steps (⟨pushFound (clips.map some) o >>= q, ctx, inbox, streams, log⟩, p)
      (⟨q { o with sent := o.sent + clips.length }, ctx, inbox, streams,
        log ++ (clips.map SyncMessage.push).map .sent⟩, p.deliver (clips.map .push) []) := by
  induction clips generalizing o log p with
  | nil =>
    simp only [List.map_nil, List.append_nil]
    rw [deliver_nil]
    exact .refl
  | cons clip clips ih =>
    have hd : p.deliver (.push clip :: clips.map .push) [] =
        (p.deliver [.push clip] []).deliver (clips.map .push) [] := by
      rw [deliver_deliver]
      rfl
    have hs := @ih (p.deliver [.push clip] []) (log ++ [.sent (.push clip)])
      { o with sent := o.sent + 1 }
    rw [List.map_cons, pushFound, bind_assoc, List.map_cons, List.map_cons, List.append_cons, hd,
      List.length_cons, Nat.add_comm clips.length, ← Nat.add_assoc]
    exact (steps_tell (W := syncWire) _).trans hs

theorem steps_sendBlobs (digests : List ContentHash) (ctx : SyncContext) (o : SyncOutcome) :
    ∃ o' ctx', Store.SameData ctx.store ctx'.store ∧ ctx'.clock = ctx.clock ∧
      ∀ (p : End syncWire α) (q : SyncOutcome → Session α) (inbox : List SyncMessage)
        (streams : List Bytes) (log : List (Traffic SyncMessage Bytes)),
        Steps (⟨sendBlobs digests o >>= q, ctx, inbox, streams, log⟩, p)
          (⟨q o', ctx', inbox, streams, log ++ (digests.map ctx.store.blobOf).map .sentStream⟩,
            p.deliver [] (digests.map ctx.store.blobOf)) := by
  induction digests generalizing o ctx with
  | nil =>
    refine ⟨o, ctx, .refl _, rfl, fun p q inbox streams log => ?_⟩
    simp only [List.map_nil, List.append_nil]
    rw [deliver_nil]
    exact .refl
  | cons digest digests ih =>
    obtain ⟨r, ctx₁, hr, hsame, hclock, hcase⟩ := eval_readBlob digest ctx
    have hblob : ctx₁.store.blobOf = ctx.store.blobOf := by
      funext d
      rw [Store.blobOf, Store.blobOf, hsame.files]
    have hd : ∀ p : End syncWire α, p.deliver [] ((digest :: digests).map ctx.store.blobOf) =
        (p.deliver [] [ctx.store.blobOf digest]).deliver [] (digests.map ctx.store.blobOf) := by
      intro p
      rw [deliver_deliver]
      rfl
    rcases hcase with ⟨e, rfl, -, hnil⟩ | ⟨rfl, -⟩
    · obtain ⟨o', ctx', hs', hc', hsteps⟩ := ih ctx₁ o
      refine ⟨o', ctx', hsame.trans hs', hc'.trans hclock, fun p q inbox streams log => ?_⟩
      rw [sendBlobs, bind_assoc, hd, List.map_cons, List.map_cons, List.append_cons, hnil]
      refine (steps_eval hr).trans ?_
      simp only [bind_assoc]
      exact (steps_tellStream (W := syncWire) _).trans (hblob ▸ hsteps _ _ _ _ _)
    · obtain ⟨o', ctx', hs', hc', hsteps⟩ := ih ctx₁ { o with blobsSent := o.blobsSent + 1 }
      refine ⟨o', ctx', hsame.trans hs', hc'.trans hclock, fun p q inbox streams log => ?_⟩
      rw [sendBlobs, bind_assoc, hd, List.map_cons, List.map_cons, List.append_cons]
      refine (steps_eval hr).trans ?_
      simp only [bind_assoc]
      exact (steps_tellStream (W := syncWire) _).trans (hblob ▸ hsteps _ _ _ _ _)

variable [Blake3]

theorem steps_takePushes {q : Taken → Session α} {clips : List Clip} {t t' : Taken}
    {inbox' : List SyncMessage} (hin : inbox' = clips.map .push ++ inbox)
    (h : (takeAll clips t).eval ctx = some (.ok t', ctx')) :
    Steps (⟨takePushes clips.length t >>= q, ctx, inbox', streams, log⟩, p)
      (⟨q t', ctx', inbox, streams, log ++ (clips.map SyncMessage.push).map .received⟩, p) := by
  subst hin
  induction clips generalizing t ctx log with
  | nil =>
    rw [takeAll_nil] at h
    cases h
    simp only [List.map_nil, List.append_nil]
    exact .refl
  | cons clip clips ih =>
    obtain ⟨t₁, ctx₁, hr, h⟩ := takeAll_cons_ok h
    rw [List.length_cons, takePushes, bind_assoc, List.map_cons, List.map_cons, List.append_cons]
    refine (steps_hear (W := syncWire) _).trans ?_
    simp only [bind_assoc]
    exact (steps_eval hr).trans (ih h)

theorem steps_takePushes_error {q : Taken → Session α} {clips : List Clip} {t : Taken}
    {e : SyncError} {inbox' : List SyncMessage} (hin : inbox' = clips.map .push ++ inbox)
    (h : (takeAll clips t).eval ctx = some (.error e, ctx')) :
    ∃ E : End syncWire α, E.proc = .fail e ∧
      Steps (⟨takePushes clips.length t >>= q, ctx, inbox', streams, log⟩, p) (E, p) := by
  subst hin
  induction clips generalizing t ctx log with
  | nil =>
    rw [takeAll_nil] at h
    cases h
  | cons clip clips ih =>
    rw [List.length_cons, takePushes, bind_assoc, List.map_cons]
    obtain ⟨⟨r, ctx₁⟩, hr⟩ := (takePush_silent t clip).eval ctx
    cases r with
    | error e' =>
      rw [takeAll, List.foldlM_cons, Proc.eval_bind, hr] at h
      cases h
      refine ⟨⟨.fail e, ctx', clips.map .push ++ inbox, streams, log ++ [.received (.push clip)]⟩,
        rfl, (steps_hear (W := syncWire) _).trans ?_⟩
      simp only [bind_assoc]
      exact steps_eval_error hr
    | ok t₁ =>
      rw [takeAll_cons clips hr] at h
      obtain ⟨E, hE, hs⟩ := @ih ctx₁ (log ++ [.received (.push clip)]) t₁ h
      refine ⟨E, hE, (steps_hear (W := syncWire) _).trans ?_⟩
      simp only [bind_assoc]
      exact (steps_eval hr).trans hs

theorem steps_takeBlobs (blobs : List (ContentHash × Bytes)) (ctx : SyncContext)
    (o : SyncOutcome) :
    ∃ o' ctx', ctx'.store = ctx.store.receiveBlobs blobs ∧ ctx'.clock = ctx.clock ∧
      ∀ (p : End syncWire α) (q : SyncOutcome → Session α) (inbox : List SyncMessage)
        (streams streams' : List Bytes) (log : List (Traffic SyncMessage Bytes)),
        streams' = blobs.map (·.2) ++ streams →
        Steps (⟨takeBlobs (blobs.map (·.1)) o >>= q, ctx, inbox, streams', log⟩, p)
          (⟨q o', ctx', inbox, streams, log ++ (blobs.map (·.2)).map .receivedStream⟩, p) := by
  induction blobs generalizing o ctx with
  | nil =>
    refine ⟨o, ctx, rfl, rfl, fun p q inbox streams streams' log hin => ?_⟩
    subst hin
    simp only [List.map_nil, List.append_nil]
    exact .refl
  | cons b blobs ih =>
    obtain ⟨digest, bytes⟩ := b
    by_cases hd : ContentHash.of bytes = digest
    · obtain ⟨o', ctx', hst, hc, hsteps⟩ := ih
        { ctx with store := ctx.store.putBlob digest bytes }
        { o with blobsReceived := o.blobsReceived + 1 }
      refine ⟨o', ctx', ?_, hc, fun p q inbox streams streams' log hin => ?_⟩
      · rw [hst, Store.receiveBlobs, if_pos hd]
      · subst hin
        rw [List.map_cons, List.map_cons, List.map_cons, takeBlobs, bind_assoc,
          List.append_cons log]
        refine (steps_hearStream (W := syncWire) _).trans ?_
        simp only [hd, ne_eq, not_true_eq_false, ↓reduceIte, bind_assoc]
        exact (steps_eval (Proc.eval_act _ _ _)).trans (hsteps _ _ _ _ _ _ rfl)
    · obtain ⟨o', ctx', hst, hc, hsteps⟩ := ih ctx { o with blobsRejected := o.blobsRejected + 1 }
      refine ⟨o', ctx', ?_, hc, fun p q inbox streams streams' log hin => ?_⟩
      · rw [hst, Store.receiveBlobs, if_neg hd]
      · subst hin
        rw [List.map_cons, List.map_cons, List.map_cons, takeBlobs, bind_assoc,
          List.append_cons log]
        refine (steps_hearStream (W := syncWire) _).trans ?_
        simp only [hd, ne_eq, not_false_eq_true, ↓reduceIte]
        exact hsteps _ _ _ _ _ _ rfl

end

/-! ## The turn -/

/-- The clips that `a` pushes in a turn with `b`. -/
def pushedBy (a b : Store) : List Clip :=
  (b.wanted a.summaries).filterMap a.byHashIncludingDeleted

/-- What is asked for was in the summary, so the store still has it. -/
theorem found_eq (a b : Store) :
    (b.wanted a.summaries).map a.byHashIncludingDeleted = (pushedBy a b).map some := by
  have hall : ∀ hash ∈ b.wanted a.summaries, ∃ c, a.byHashIncludingDeleted hash = some c := by
    intro hash hh
    obtain ⟨e, he, rfl⟩ := List.mem_map.1 hh
    have hmem := List.mem_of_mem_filter he
    rw [Store.summaries_eq] at hmem
    obtain ⟨r, hr, rfl⟩ := List.mem_map.1 hmem
    have hrow : r ∈ a.rows := (Store.byHlc_perm _).mem_iff.1 (List.mem_of_mem_take hr)
    rw [Store.byHashIncludingDeleted_eq]
    cases hrep : a.rep r.summary.hash with
    | none => exact absurd rfl (Store.rep_eq_none.1 hrep r hrow)
    | some r' => exact ⟨_, rfl⟩
  rw [pushedBy]
  generalize b.wanted a.summaries = hashes at hall
  induction hashes with
  | nil => rfl
  | cons hash hashes ih =>
    obtain ⟨c, hc⟩ := hall hash List.mem_cons_self
    rw [List.map_cons, List.filterMap_cons, hc, ih fun h hh => hall h (List.mem_cons_of_mem _ hh)]
    rfl

theorem pushedBy_length (a b : Store) :
    (pushedBy a b).length = (b.wanted a.summaries).length := by
  have h := congrArg List.length (found_eq a b)
  simpa using h.symm

section
variable [Blake3] {α : Type} {a b : SyncContext} {qa qb : SyncOutcome → Session α}
  {la lb : List (Traffic SyncMessage Bytes)}

/-- The blobs that travel in a turn, when the receiving end is at `b` after the pushes. -/
def blobsSent (a b : Store) (t : Taken) : List (ContentHash × Bytes) :=
  (b.neededFrom t.missingBlobs []).map fun digest => (digest, a.blobOf digest)

/-- The clips of a turn up to the point where `a` looks up what `b` wants. -/
theorem steps_wanted {qb : Taken → Session α} (oa ob : SyncOutcome) :
    Steps (⟨offerClips oa >>= qa, a, [], [], la⟩, ⟨takeClips ob >>= qb, b, [], [], lb⟩)
      (⟨serve (b.store.wanted a.store.summaries) >>= fun found => pushFound found oa >>= qa, a,
        [], [], la ++ (summaryPages a.store.summaries).map .sent ++
          [.received (.want (b.store.wanted a.store.summaries))]⟩,
      ⟨takePushes (b.store.wanted a.store.summaries).length { outcome := ob } >>= qb, b, [], [],
        lb ++ (summaryPages a.store.summaries).map .received ++
          [.sent (.want (b.store.wanted a.store.summaries))]⟩) := by
  simp only [offerClips, takeClips, bind_assoc]
  refine steps_summaries.trans ?_
  refine (steps_eval (eval_compare _ _)).swap.trans ?_
  refine (steps_tell (W := syncWire) _).swap.trans ?_
  exact steps_recvWant _ _

/-- The clips of a turn up to the point where `b` has them all in its inbox. -/
theorem steps_offerClips {qb : Taken → Session α} (oa ob : SyncOutcome) :
    Steps (⟨offerClips oa >>= qa, a, [], [], la⟩, ⟨takeClips ob >>= qb, b, [], [], lb⟩)
      (⟨qa { oa with sent := oa.sent + (pushedBy a.store b.store).length }, a, [], [],
        la ++ (summaryPages a.store.summaries).map .sent ++
          [.received (.want (b.store.wanted a.store.summaries))] ++
          ((pushedBy a.store b.store).map SyncMessage.push).map .sent⟩,
      ⟨takePushes (pushedBy a.store b.store).length { outcome := ob } >>= qb, b,
        (pushedBy a.store b.store).map .push, [],
        lb ++ (summaryPages a.store.summaries).map .received ++
          [.sent (.want (b.store.wanted a.store.summaries))]⟩) := by
  refine (steps_wanted oa ob).trans ((steps_eval (eval_serve _ _)).trans ?_)
  rw [found_eq, ← pushedBy_length]
  exact steps_pushFound _ _

omit [Blake3] in
theorem blobsSent_digests (a b : Store) (t : Taken) :
    (blobsSent a b t).map (·.1) = b.neededFrom t.missingBlobs [] := by
  rw [blobsSent, List.map_map]
  exact List.map_id _

omit [Blake3] in
theorem blobsSent_bytes (a b : Store) (t : Taken) :
    (blobsSent a b t).map (·.2) = (b.neededFrom t.missingBlobs []).map a.blobOf := by
  rw [blobsSent, List.map_map]
  rfl

/-- The blobs of a turn, after the clips, up to the point where `b` has them all in its streams. -/
theorem steps_offerBlobs (oa : SyncOutcome) (t : Taken) :
    ∃ a' oa', Store.SameData a.store a'.store ∧ a'.clock = a.clock ∧
      Steps (⟨offerBlobs oa >>= qa, a, [], [], la⟩, ⟨takeMissing t >>= qb, b, [], [], lb⟩)
        (⟨recvAck >>= fun _ => qa oa', a', [], [],
          la ++ [.received (.want (b.store.neededFrom t.missingBlobs []))] ++
            ((blobsSent a.store b.store t).map (·.2)).map .sentStream⟩,
        ⟨takeBlobs (b.store.neededFrom t.missingBlobs []) t.outcome >>= fun o =>
            ackHlc >>= fun hlc => Proc.tell (W := syncWire) (.ack hlc) >>= fun _ =>
              qb { o with newestReceived := t.newest.map (·.2) },
          b, [], (blobsSent a.store b.store t).map (·.2),
          lb ++ [.sent (.want (b.store.neededFrom t.missingBlobs []))]⟩) := by
  obtain ⟨oa', a', hsame, ha, hsend⟩ :=
    steps_sendBlobs (α := α) (b.store.neededFrom t.missingBlobs []) a oa
  refine ⟨a', oa', hsame, ha, ?_⟩
  rw [blobsSent_bytes]
  simp only [offerBlobs, takeMissing, bind_assoc]
  refine (steps_eval (eval_neededBlobs _ _ _)).swap.trans ?_
  refine (steps_tell (W := syncWire) _).swap.trans ?_
  refine (steps_recvWant _ _).trans ?_
  exact hsend _ _ _ _ _

/-- The blobs of a turn, after the clips. -/
theorem steps_blobs (oa : SyncOutcome) (t : Taken) :
    ∃ a' b' oa' ob' hlc, Store.SameData a.store a'.store ∧ a'.clock = a.clock ∧
      b'.store = b.store.receiveBlobs (blobsSent a.store b.store t) ∧
      b'.clock.device = b.clock.device ∧
      Steps (⟨offerBlobs oa >>= qa, a, [], [], la⟩, ⟨takeMissing t >>= qb, b, [], [], lb⟩)
        (⟨qa oa', a', [], [],
          la ++ [.received (.want (b.store.neededFrom t.missingBlobs []))] ++
            ((blobsSent a.store b.store t).map (·.2)).map .sentStream ++ [.received (.ack hlc)]⟩,
        ⟨qb ob', b', [], [],
          lb ++ [.sent (.want (b.store.neededFrom t.missingBlobs []))] ++
            ((blobsSent a.store b.store t).map (·.2)).map .receivedStream ++
            [.sent (.ack hlc)]⟩) := by
  obtain ⟨a', oa', hsame, ha, hsend⟩ := @steps_offerBlobs _ α a b qa qb la lb oa t
  obtain ⟨ob', b₁, hst, hb, htake⟩ :=
    steps_takeBlobs (α := α) (blobsSent a.store b.store t) b t.outcome
  obtain ⟨hlc, b', hack, hst', hdev⟩ := eval_ackHlc b₁
  refine ⟨a', b', oa', { ob' with newestReceived := t.newest.map (·.2) }, hlc, hsame, ha,
    hst'.trans hst, hdev.trans (congrArg _ hb), ?_⟩
  -- the streams are with `b`, whose HLC travels back to `a`
  refine hsend.trans ?_
  rw [← blobsSent_digests]
  refine (htake _ _ _ _ _ _ (List.append_nil _).symm).swap.trans ?_
  refine (steps_eval hack).swap.trans ?_
  refine (steps_tell (W := syncWire) _).swap.trans ?_
  exact steps_recvAck _

end

end Session
end Clipse
