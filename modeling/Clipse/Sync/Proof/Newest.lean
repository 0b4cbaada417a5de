import Clipse.Sync.Proof.Complete
import Mathlib.Data.List.Induction

/-!
# What a session hands to the clipboard

`newest_received` is the new content with the greatest HLC, and the daemon puts that clip on the
clipboard. A tombstone for content that this device never had is new content too.

* `newClips`, `effective`: of the pushed clips, those that become rows, and those that take effect
  on one content.
* `TakeInv`: the invariant of the receiving loop, kept by every push (`takeInv_push`).
* `newest_live_iff`: `newest_received` names a live clip exactly when no push that takes effect on
  the greatest new content is a tombstone.
-/

namespace Clipse

open Duplex

namespace Session

section
variable [Blake3]

/-- The clips of the `Push` messages among `msgs`. -/
def pushesIn (msgs : List SyncMessage) : List Clip :=
  msgs.filterMap fun
    | .push clip => some clip
    | _ => none

/-- The lists of the `Want` messages, in order. -/
def wantsIn (ms : List SyncMessage) : List (List ContentHash) :=
  ms.filterMap fun
    | .want hashes => some hashes
    | _ => none

/-- The blobs that an end has asked for: its second `Want`. -/
def blobWant (e : End syncWire SyncOutcome) : List ContentHash := (wantsIn e.sent)[1]?.getD []

/-- The streams that an end has received. -/
def receivedStreams (e : End syncWire SyncOutcome) : List Bytes := Traffic.receivedBytes e.log

/-- The clips of the `Push` messages that an end has received. -/
def pushedClips {α : Type} (e : End syncWire α) : List Clip := pushesIn e.received

omit [Blake3] in
@[simp] theorem pushesIn_push (clips : List Clip) : pushesIn (clips.map .push) = clips := by
  simp [pushesIn, List.filterMap_map]

omit [Blake3] in
@[simp] theorem pushesIn_summary (pages : List (List ClipSummary × Bool)) :
    pushesIn (pages.map fun p => .summary p.1 p.2) = [] := by
  simp [pushesIn, List.filterMap_map]

omit [Blake3] in
@[simp] theorem pushesIn_append (ms ms' : List SyncMessage) :
    pushesIn (ms ++ ms') = pushesIn ms ++ pushesIn ms' :=
  List.filterMap_append

omit [Blake3] in
theorem pushesIn_summaryPages (entries : List ClipSummary) : pushesIn (summaryPages entries) = [] := by
  obtain ⟨front, last, hp, -⟩ := summaryPages_paged entries
  rw [hp, pushesIn_append]
  simp [pushesIn, List.filterMap_map]

omit [Blake3] in
theorem wantsIn_append (ms ms' : List SyncMessage) :
    wantsIn (ms ++ ms') = wantsIn ms ++ wantsIn ms' := List.filterMap_append

omit [Blake3] in
theorem wantsIn_summaryPages (summaries : List ClipSummary) :
    wantsIn (summaryPages summaries) = [] := by
  refine List.filterMap_eq_nil_iff.2 fun m hm => ?_
  unfold summaryPages at hm
  split at hm
  · rw [List.mem_singleton.1 hm]
  · obtain ⟨i, -, rfl⟩ := List.mem_mapIdx.1 hm
    rfl

omit [Blake3] in
theorem wantsIn_push (clips : List Clip) : wantsIn (clips.map .push) = [] :=
  List.filterMap_eq_nil_iff.2 fun m hm => by
    obtain ⟨c, -, rfl⟩ := List.mem_map.1 hm
    rfl

/-! ## New content -/

/-- The first genuine push of each content that the store does not know. -/
def newClips (s : Store) (pushes : List Clip) : List Clip :=
  pushes.foldl (fun new c =>
    if c.hashMatches && (s.rep c.hash).isNone && new.all (·.hash ≠ c.hash) then new ++ [c] else new)
    []

/-- The genuine pushes of one content, each newer than all before it. -/
def effective (hash : ContentHash) (pushes : List Clip) : List Clip :=
  pushes.foldl (fun eff c =>
    if c.hashMatches && c.hash = hash && eff.all (·.hlc < c.hlc) then eff ++ [c] else eff) []

/-- The first clip with the greatest HLC. -/
def greatest (clips : List Clip) : Option Clip :=
  clips.foldl (fun best c =>
    match best with
    | none => some c
    | some b => if b.hlc < c.hlc then some c else some b) none

theorem newClips_snoc (s : Store) (pushes : List Clip) (c : Clip) :
    newClips s (pushes ++ [c]) =
      if c.hashMatches && (s.rep c.hash).isNone && (newClips s pushes).all (·.hash ≠ c.hash) then
        newClips s pushes ++ [c]
      else newClips s pushes := by
  simp [newClips, List.foldl_append]

theorem effective_snoc (hash : ContentHash) (pushes : List Clip) (c : Clip) :
    effective hash (pushes ++ [c]) =
      if c.hashMatches && c.hash = hash && (effective hash pushes).all (·.hlc < c.hlc) then
        effective hash pushes ++ [c]
      else effective hash pushes := by
  simp [effective, List.foldl_append]

omit [Blake3] in
theorem greatest_snoc (clips : List Clip) (c : Clip) :
    greatest (clips ++ [c]) =
      match greatest clips with
      | none => some c
      | some b => if b.hlc < c.hlc then some c else some b := by
  simp [greatest, List.foldl_append]

omit [Blake3] in
theorem greatest_spec (clips : List Clip) :
    (greatest clips = none ↔ clips = []) ∧
      ∀ m, greatest clips = some m → m ∈ clips ∧ ∀ c ∈ clips, c.hlc ≤ m.hlc := by
  induction clips using List.reverseRecOn with
  | nil => simp [greatest]
  | append_singleton clips c ih =>
    rw [greatest_snoc]
    cases hg : greatest clips with
    | none =>
      obtain rfl := ih.1.1 hg
      simp
    | some b =>
      obtain ⟨hb, hmax⟩ := ih.2 b hg
      by_cases hlt : b.hlc < c.hlc
      · simp only [hlt, ↓reduceIte, Option.some.injEq, forall_eq', List.mem_append,
          List.mem_singleton]
        refine ⟨by simp, by simp, ?_⟩
        rintro d (hd | rfl)
        · exact (hmax d hd).trans (le_of_lt hlt)
        · exact le_rfl
      · simp only [hlt, ↓reduceIte, Option.some.injEq, forall_eq', List.mem_append,
          List.mem_singleton]
        refine ⟨by simp, .inl hb, ?_⟩
        rintro d (hd | rfl)
        · exact hmax d hd
        · exact not_lt.1 hlt

theorem newClips_hashes (s : Store) (pushes : List Clip) :
    ((newClips s pushes).map (·.hash)).Nodup := by
  induction pushes using List.reverseRecOn with
  | nil => exact .nil
  | append_singleton pushes c ih =>
    rw [newClips_snoc]
    split
    · next h =>
      simp only [Bool.and_eq_true, List.all_eq_true, decide_eq_true_eq] at h
      rw [List.map_append, List.map_singleton, List.nodup_append]
      refine ⟨ih, List.nodup_singleton _, fun a ha b hb hab => ?_⟩
      obtain ⟨d, hd, rfl⟩ := List.mem_map.1 ha
      obtain rfl := List.mem_singleton.1 hb
      exact h.2 d hd hab
    · exact ih

theorem mem_newClips {s : Store} {pushes : List Clip} {c : Clip} (h : c ∈ newClips s pushes) :
    c ∈ pushes ∧ s.rep c.hash = none := by
  induction pushes using List.reverseRecOn with
  | nil => cases h
  | append_singleton pushes d ih =>
    rw [newClips_snoc] at h
    split at h
    · next hd =>
      simp only [Bool.and_eq_true, Option.isNone_iff_eq_none] at hd
      rcases List.mem_append.1 h with h | h
      · exact ⟨List.mem_append_left _ (ih h).1, (ih h).2⟩
      · obtain rfl := List.mem_singleton.1 h
        exact ⟨List.mem_append_right _ (List.mem_singleton_self _), hd.1.2⟩
    · exact ⟨List.mem_append_left _ (ih h).1, (ih h).2⟩

/-! ## The receiving loop -/

/-- After the pushes `pushes` on a device that began with the store `s₀`. -/
structure TakeInv (s₀ : Store) (pushes : List Clip) (t : Taken) (s : Store) : Prop where
  newest : t.newest = (greatest (newClips s₀ pushes)).map fun c => (c.hlc, c.id)
  count : s.rows.length = s₀.rows.length + (newClips s₀ pushes).length
  known : ∀ hash, s.rep hash = none ↔
    s₀.rep hash = none ∧ ∀ c ∈ newClips s₀ pushes, c.hash ≠ hash
  row : ∀ c ∈ newClips s₀ pushes, ∃ r, s.rowsOf c.hash = [r] ∧ r.id = c.id ∧
    (∀ b ∈ effective c.hash pushes, b.hlc ≤ r.hlc) ∧
    (∃ b ∈ effective c.hash pushes, b.hlc = r.hlc) ∧
    (r.deleted ↔ ∃ b ∈ effective c.hash pushes, b.deleted)

/-- A content with effective pushes was known before or has become a row. -/
theorem effective_known (s : Store) (pushes : List Clip) (hash : ContentHash)
    (h : effective hash pushes ≠ []) :
    s.rep hash ≠ none ∨ ∃ c ∈ newClips s pushes, c.hash = hash := by
  induction pushes using List.reverseRecOn with
  | nil => exact absurd rfl h
  | append_singleton pushes c ih =>
    have hsub : ∀ d ∈ newClips s pushes, d ∈ newClips s (pushes ++ [c]) := by
      intro d hd
      rw [newClips_snoc]
      split
      · exact List.mem_append_left _ hd
      · exact hd
    by_cases he : effective hash pushes = []
    · rw [effective_snoc, he] at h
      by_cases hc : c.hashMatches && c.hash = hash
      · simp only [Bool.and_eq_true, decide_eq_true_eq] at hc
        obtain ⟨hm, rfl⟩ := hc
        by_cases hs : s.rep c.hash = none
        · refine .inr ?_
          rw [newClips_snoc]
          by_cases ha : (newClips s pushes).all (·.hash ≠ c.hash)
          · rw [hm, hs, ha]
            exact ⟨c, by simp, rfl⟩
          · simp only [List.all_eq_true, decide_eq_true_eq, not_forall, ne_eq, not_not] at ha
            obtain ⟨d, hd, hh⟩ := ha
            split
            · exact ⟨d, List.mem_append_left _ hd, hh⟩
            · exact ⟨d, hd, hh⟩
        · exact .inl hs
      · simp [hc] at h
    · rcases ih he with h' | ⟨d, hd, hh⟩
      · exact .inl h'
      · exact .inr ⟨d, hsub d hd, hh⟩

theorem takeInv_nil (s : Store) (o : SyncOutcome) : TakeInv s [] { outcome := o } s where
  newest := rfl
  count := rfl
  known hash := by simp [newClips]
  row c hc := by cases hc

/-- A push of content that has a row makes no new row. -/
theorem newClips_of_rep {s₀ s : Store} {pushes : List Clip} {t : Taken} {c : Clip} {r : ClipRow}
    (h : TakeInv s₀ pushes t s) (hr : s.rep c.hash = some r) :
    newClips s₀ (pushes ++ [c]) = newClips s₀ pushes := by
  rw [newClips_snoc, if_neg]
  intro hn
  simp only [Bool.and_eq_true, Option.isNone_iff_eq_none, List.all_eq_true, decide_eq_true_eq] at hn
  have hnone := (h.known c.hash).2 ⟨hn.1.2, hn.2⟩
  rw [hr] at hnone
  cases hnone

section
variable {s₀ s s' : Store} {pushes : List Clip} {t : Taken} {c : Clip}

/-- A refused push becomes no row and takes no effect. -/
theorem takeInv_refused (h : TakeInv s₀ pushes t s)
    (hcase : c.hashMatches = false ∨ ∃ r, s.rep c.hash = some r ∧ ¬ r.hlc < c.hlc) :
    TakeInv s₀ (pushes ++ [c]) (t.note c .refused) s := by
  have hnew : newClips s₀ (pushes ++ [c]) = newClips s₀ pushes := by
    rcases hcase with hm | ⟨r, hr, -⟩
    · rw [newClips_snoc, hm]
      rfl
    · exact newClips_of_rep h hr
  have heff : ∀ d ∈ newClips s₀ pushes,
      effective d.hash (pushes ++ [c]) = effective d.hash pushes := by
    intro d hd
    rw [effective_snoc, if_neg]
    intro hn
    simp only [Bool.and_eq_true, decide_eq_true_eq, List.all_eq_true] at hn
    obtain ⟨⟨hm, hh⟩, hall⟩ := hn
    rcases hcase with hm' | ⟨r, hr, hnlt⟩
    · rw [hm] at hm'
      cases hm'
    · obtain ⟨r', hrow, -, -, ⟨b, hb, hbr⟩, -⟩ := h.row d hd
      rw [hh, Store.rep_eq, hrow, repOf_singleton] at hr
      cases hr
      exact hnlt (hbr ▸ hall b hb)
  refine ⟨?_, ?_, ?_, ?_⟩
  · rw [hnew]
    exact h.newest
  · rw [hnew]
    exact h.count
  · rw [hnew]
    exact h.known
  · rw [hnew]
    intro d hd
    rw [heff d hd]
    exact h.row d hd

/-- An inserted push is a new content, whose only effective push it is. -/
theorem takeInv_inserted (h : TakeInv s₀ pushes t s) (hm : c.hashMatches)
    (hr : s.rep c.hash = none) (hrows : s'.rows = s.rows ++ [.of c]) :
    TakeInv s₀ (pushes ++ [c]) (t.note c (.inserted c.id)) s' := by
  obtain ⟨hs₀, hall⟩ := (h.known c.hash).1 hr
  have hnew : newClips s₀ (pushes ++ [c]) = newClips s₀ pushes ++ [c] := by
    rw [newClips_snoc, hm, hs₀, if_pos]
    simpa using hall
  have heff : effective c.hash pushes = [] := by
    by_contra hne
    rcases effective_known s₀ pushes c.hash hne with h' | ⟨d, hd, hh⟩
    · exact h' hs₀
    · exact hall d hd hh
  have hempty : s.rowsOf c.hash = [] := repOf_eq_none.1 (Store.rep_eq _ _ ▸ hr)
  refine ⟨?_, ?_, ?_, ?_⟩
  · rw [hnew, greatest_snoc]
    simp only [Taken.note, h.newest]
    cases greatest (newClips s₀ pushes) with
    | none => rfl
    | some b => by_cases hlt : b.hlc < c.hlc <;> simp [hlt]
  · rw [hnew, hrows, List.length_append, h.count, List.length_append]
    rfl
  · intro hash
    rw [Store.rep_eq, Store.rowsOf_append hrows, hnew]
    by_cases hc : c.hash = hash
    · subst hc
      simp [hempty]
    · simp only [hc, ↓reduceIte, ← Store.rep_eq, h.known hash, List.mem_append,
        List.mem_singleton, ne_eq]
      refine and_congr_right fun _ => ⟨fun hk d hd => ?_, fun hk d hd => hk d (.inl hd)⟩
      rcases hd with hd | rfl
      · exact hk d hd
      · exact hc
  · rw [hnew]
    intro d hd
    rcases List.mem_append.1 hd with hd | hd
    · have hne : c.hash ≠ d.hash := fun he => hall d hd he.symm
      rw [Store.rowsOf_append hrows, effective_snoc]
      simpa [hne] using h.row d hd
    · obtain rfl := List.mem_singleton.1 hd
      refine ⟨.of d, ?_, rfl, ?_⟩
      · rw [Store.rowsOf_append hrows, hempty]
        simp
      · rw [effective_snoc, heff, hm]
        simp [ClipRow.of]

/-- An updating push takes effect on the row of its content. -/
theorem takeInv_updated {r : ClipRow} {now : UInt64} (h : TakeInv s₀ pushes t s)
    (hm : c.hashMatches) (hr : s.rep c.hash = some r) (hlt : r.hlc < c.hlc)
    (hrows : s'.rows = absorbed c now r.id s.rows) :
    TakeInv s₀ (pushes ++ [c]) (t.note c .updated) s' := by
  have hnew := newClips_of_rep h hr
  obtain ⟨hmem, hhash⟩ := Store.mem_of_rep hr
  have hrowsOf := Store.rowsOf_absorbed hmem hrows
  refine ⟨?_, ?_, ?_, ?_⟩
  · rw [hnew]
    exact h.newest
  · rw [hnew, hrows, absorbed, List.length_map]
    exact h.count
  · intro hash
    rw [hnew, ← h.known hash, Store.rep_eq, Store.rep_eq, hrowsOf, repOf_eq_none, repOf_eq_none]
    split
    · simp [absorbed]
    · rfl
  · rw [hnew]
    intro d hd
    obtain ⟨r', hrow, hid, hle, hex, hdel⟩ := h.row d hd
    by_cases hh : c.hash = d.hash
    · rw [hh, Store.rep_eq, hrow, repOf_singleton] at hr
      cases hr
      have heff : effective d.hash (pushes ++ [c]) = effective d.hash pushes ++ [c] := by
        rw [effective_snoc, hm, if_pos]
        simp only [hh, decide_true, Bool.and_self, Bool.true_and, List.all_eq_true,
          decide_eq_true_eq]
        exact fun b hb => lt_of_le_of_lt (hle b hb) hlt
      refine ⟨absorb c now r, ?_, ?_⟩
      · rw [hrowsOf, hrow]
        simp [hhash, hh, absorbed]
      · rw [heff]
        refine ⟨by simpa using hid, ?_, ⟨c, by simp⟩, ?_⟩
        · intro b hb
          rw [absorb_hlc]
          rcases List.mem_append.1 hb with hb | hb
          · exact (hle b hb).trans (le_of_lt hlt)
          · rw [List.mem_singleton.1 hb]
        · simp only [absorb_deleted, Bool.or_eq_true, List.mem_append, List.mem_singleton]
          constructor
          · rintro (h₁ | h₁)
            · obtain ⟨b, hb, hbd⟩ := hdel.1 h₁
              exact ⟨b, .inl hb, hbd⟩
            · exact ⟨c, .inr rfl, h₁⟩
          · rintro ⟨b, hb | rfl, hbd⟩
            · exact .inl (hdel.2 ⟨b, hb, hbd⟩)
            · exact .inr hbd
    · rw [hrowsOf, effective_snoc]
      simp only [hhash, hh, decide_false, Bool.and_false, Bool.false_and, Bool.false_eq_true,
        ↓reduceIte]
      exact ⟨r', hrow, hid, hle, hex, hdel⟩

end

/-- **Every push keeps the invariant.** -/
theorem takeInv_push {s₀ : Store} {pushes : List Clip} {t t' : Taken} {c : Clip}
    {ctx ctx' : SyncContext} (h : TakeInv s₀ pushes t ctx.store)
    (he : (takePush t c).eval ctx = some (.ok t', ctx')) :
    TakeInv s₀ (pushes ++ [c]) t' ctx'.store := by
  obtain ⟨a, ha, rfl⟩ := takePush_ok he
  rcases apply_cases ha with ⟨rfl, rfl, hcase⟩ | ⟨rfl, hm, hr, -, hrows, -, -⟩ |
    ⟨r, now, rfl, hm, hr, hlt, hrows, -, -⟩
  · exact takeInv_refused h hcase
  · exact takeInv_inserted h hm hr hrows
  · exact takeInv_updated h hm hr hlt hrows

theorem takeInv_takeAll {s₀ : Store} {clips pushes : List Clip} {t t' : Taken}
    {ctx ctx' : SyncContext} (h : TakeInv s₀ pushes t ctx.store)
    (he : (takeAll clips t).eval ctx = some (.ok t', ctx')) :
    TakeInv s₀ (pushes ++ clips) t' ctx'.store := by
  induction clips generalizing pushes t ctx with
  | nil =>
    rw [takeAll_nil] at he
    cases he
    simpa using h
  | cons c clips ih =>
    obtain ⟨t₁, ctx₁, hr, he⟩ := takeAll_cons_ok he
    have hi := ih (takeInv_push h hr) he
    rwa [List.append_assoc] at hi

/-! ## The session's result -/

section
variable {α : Type} {ctx : SyncContext} {inbox : List SyncMessage} {streams : List Bytes}
  {log : List (Traffic SyncMessage Bytes)} {F : End syncWire α} {o : SyncOutcome}
  {q : SyncOutcome → Session α}

/-- Traffic that brings no clip. -/
def NoPush (log : List (Traffic SyncMessage Bytes)) : Prop :=
  pushesIn (Traffic.receivedMsgs log) = []

/-- Traffic that neither brings a clip or a blob nor asks for one. -/
structure Aside (log : List (Traffic SyncMessage Bytes)) : Prop where
  push : NoPush log
  want : wantsIn (Traffic.sentMsgs log) = []
  stream : Traffic.receivedBytes log = []

omit [Blake3] in
theorem Aside.append {log log' : List (Traffic SyncMessage Bytes)} (h : Aside log)
    (h' : Aside log') : Aside (log ++ log') where
  push := by
    rw [NoPush, Traffic.receivedMsgs_append, pushesIn_append, h.push, h'.push]
    rfl
  want := by
    rw [Traffic.sentMsgs_append, wantsIn_append, h.want, h'.want]
    rfl
  stream := by
    rw [Traffic.receivedBytes_append, h.stream, h'.stream]
    rfl

omit [Blake3] in
/-- Offering changes neither the rows nor what is reported for the clipboard. -/
theorem ends_offerOurHistory
    (h : Ends ⟨offerOurHistory o >>= q, ctx, inbox, streams, log⟩ F) :
    ∃ o' ctx' rest log', o'.newestReceived = o.newestReceived ∧
      Store.SameData ctx.store ctx'.store ∧ Aside log' ∧
      Ends ⟨q o', ctx', rest, streams, log ++ log'⟩ F := by
  simp only [offerOurHistory, offerClips, offerBlobs, offerSummaries, bind_assoc] at h
  have h := ends_eval (Proc.eval_read _ _ _) h
  have h := ends_sendAll h
  obtain ⟨wanted, rest, -, h⟩ := ends_recvWant h
  have h := ends_eval (eval_serve _ _) h
  obtain ⟨clips, o₁, ho₁, h⟩ := ends_pushFound h
  obtain ⟨digests, rest', -, h⟩ := ends_recvWant h
  obtain ⟨bs, o₂, ctx', ho₂, hsame, h⟩ := ends_sendBlobs h
  obtain ⟨hlc, rest₂, -, h⟩ := ends_recvAck h
  simp only [List.append_assoc] at h
  refine ⟨o₂, ctx', rest₂, _, ho₂.trans ho₁, hsame, ⟨?_, ?_, ?_⟩, h⟩
  · simp only [NoPush, Traffic.receivedMsgs_append, Traffic.receivedMsgs_sent,
      Traffic.receivedMsgs_one, Traffic.receivedMsgs_sentStream, List.nil_append]
    rfl
  · simp only [Traffic.sentMsgs_append, Traffic.sentMsgs_sent, Traffic.sentMsgs_received_one,
      Traffic.sentMsgs_sentStream, wantsIn_append, wantsIn_summaryPages, wantsIn_push,
      List.nil_append]
    rfl
  · simp only [Traffic.receivedBytes_append, Traffic.receivedBytes_sent,
      Traffic.receivedBytes_received_one, Traffic.receivedBytes_sentStream, List.nil_append]

/-- What the taking end does with the clips and blobs that it receives. -/
theorem ends_takeTheirHistory
    (h : Ends ⟨takeTheirHistory o >>= q, ctx, inbox, streams, log⟩ F) :
    ∃ wanted needed t ctx₁ o' ctx' rest rest' log',
      (takeAll (pushesIn (Traffic.receivedMsgs log')) { outcome := o }).eval ctx =
        some (.ok t, ctx₁) ∧ o'.newestReceived = t.newest.map (·.2) ∧
      needed = ctx₁.store.neededFrom t.missingBlobs [] ∧
      (Traffic.receivedBytes log').length = needed.length ∧
      ctx'.store = ctx₁.store.receiveBlobs (needed.zip (Traffic.receivedBytes log')) ∧
      wantsIn (Traffic.sentMsgs log') = [wanted, needed] ∧
      Ends ⟨q o', ctx', rest, rest', log ++ log'⟩ F := by
  simp only [takeTheirHistory, takeClips, takeMissing, bind_assoc] at h
  obtain ⟨pages, entries, rest, -, h⟩ := ends_recvSummaries h
  have h := ends_eval (eval_compare entries ctx) h
  have h := ends_tell h
  obtain ⟨clips, rest', t, ctx₁, -, -, ht, h⟩ := ends_takePushes h
  have h := ends_eval (eval_neededBlobs t.missingBlobs [] ctx₁) h
  have h := ends_tell h
  obtain ⟨bs, rest₂, o', ctx₂, -, hl, hs, h⟩ := ends_takeBlobs h
  obtain ⟨hlc, ctx₃, hack, hst, -⟩ := eval_ackHlc ctx₂
  have h := ends_eval hack h
  have h := ends_tell h
  simp only [List.append_assoc] at h
  refine ⟨ctx.store.wanted entries, _, t, ctx₁, _, ctx₃, _, _, _, ?_, rfl, rfl, ?_, ?_, ?_, h⟩
  · rw [← ht]
    congr 2
    simp only [Traffic.receivedMsgs_append, Traffic.receivedMsgs_received,
      Traffic.receivedMsgs_sent_one, Traffic.receivedMsgs_receivedStream, List.nil_append,
      List.append_nil, pushesIn_append, pushesIn_summary, pushesIn_push]
  · simp only [Traffic.receivedBytes_append, Traffic.receivedBytes_received,
      Traffic.receivedBytes_sent_one, Traffic.receivedBytes_receivedStream, List.nil_append,
      List.append_nil]
    exact hl
  · simp only [Traffic.receivedBytes_append, Traffic.receivedBytes_received,
      Traffic.receivedBytes_sent_one, Traffic.receivedBytes_receivedStream, List.nil_append,
      List.append_nil]
    exact hst.trans hs
  · simp only [Traffic.sentMsgs_append, Traffic.sentMsgs_received, Traffic.sentMsgs_one,
      Traffic.sentMsgs_receivedStream, List.nil_append]
    rfl

omit [Blake3] in
theorem ends_receiveHello {peer : DeviceId} {q : Option Hlc → Session α}
    (h : Ends ⟨receiveHello peer >>= q, ctx, inbox, streams, log⟩ F) :
    ∃ hlc rest log', Aside log' ∧ Ends ⟨q hlc, ctx, rest, streams, log ++ log'⟩ F := by
  rw [receiveHello, bind_assoc] at h
  obtain ⟨m, rest, rfl, hE⟩ := ends_hear h
  cases m with
  | hello device epoch protocol maxHlc label platform =>
    simp only at hE
    split at hE
    · exact absurd hE (not_ends_of_error (t := .fail _) rfl)
    split at hE
    · exact absurd hE (not_ends_of_error (t := .fail _) rfl)
    · exact ⟨maxHlc, rest, [.received (.hello device epoch protocol maxHlc label platform)],
        ⟨rfl, rfl, rfl⟩, hE⟩
  | summary | want | push | blobOffer | blobWant | blobChunk | blobEnd | ack | bye =>
    exact absurd hE (not_ends_of_error (t := unexpected "Hello" _) rfl)

omit [Blake3] in
theorem ends_sendHello {epoch : UInt64} {q : Unit → Session α}
    (h : Ends ⟨sendHello epoch >>= q, ctx, inbox, streams, log⟩ F) :
    ∃ log', Aside log' ∧ Ends ⟨q (), ctx, inbox, streams, log ++ log'⟩ F := by
  rw [sendHello, bind_assoc] at h
  have h := ends_eval (Proc.eval_read _ _ _) h
  have h := ends_tell h
  exact ⟨[.sent _], ⟨rfl, rfl, rfl⟩, h⟩

end

section
omit [Blake3]
variable {log log' : List (Traffic SyncMessage Bytes)} (h : Aside log) (h' : Aside log')
  (mid : List (Traffic SyncMessage Bytes))
include h h'

/-- Traffic aside leaves the received clips to the rest. -/
theorem pushesIn_of_aside :
    pushesIn (Traffic.receivedMsgs (log ++ mid ++ log')) = pushesIn (Traffic.receivedMsgs mid) := by
  have hp := h.push
  have hp' := h'.push
  rw [NoPush] at hp hp'
  rw [Traffic.receivedMsgs_append, Traffic.receivedMsgs_append, pushesIn_append, pushesIn_append,
    hp, hp', List.nil_append, List.append_nil]

theorem wantsIn_of_aside :
    wantsIn (Traffic.sentMsgs (log ++ mid ++ log')) = wantsIn (Traffic.sentMsgs mid) := by
  rw [Traffic.sentMsgs_append, Traffic.sentMsgs_append, wantsIn_append, wantsIn_append, h.want,
    h'.want, List.nil_append, List.append_nil]

theorem receivedBytes_of_aside :
    Traffic.receivedBytes (log ++ mid ++ log') = Traffic.receivedBytes mid := by
  rw [Traffic.receivedBytes_append, Traffic.receivedBytes_append, h.stream, h'.stream,
    List.nil_append, List.append_nil]

end

/-- **The end of a session**, in either role and whatever the peer sends: all the clips and blobs
that it received went through the receiving loops, and the store is as those left it. -/
theorem run_returns_data {role : Role} {peer : DeviceId} {epoch : UInt64} {ctx : SyncContext}
    {p : End syncWire SyncOutcome} {F : Link syncWire SyncOutcome} {outcome : SyncOutcome}
    (h : Steps ({ proc := run peer epoch role, state := ctx }, p) F)
    (hr : F.1.proc = .done outcome) :
    ∃ ctx₀ o t ctx₁, Store.SameData ctx.store ctx₀.store ∧
      (takeAll (pushedClips F.1) { outcome := o }).eval ctx₀ = some (.ok t, ctx₁) ∧
      outcome.newestReceived = t.newest.map (·.2) ∧
      blobWant F.1 = ctx₁.store.neededFrom t.missingBlobs [] ∧
      (receivedStreams F.1).length = (blobWant F.1).length ∧
      Store.SameData (ctx₁.store.receiveBlobs ((blobWant F.1).zip (receivedStreams F.1)))
        F.1.state.store := by
  obtain ⟨ms, bs, hE⟩ := ends_of_steps h hr
  change Ends ⟨run peer epoch role, ctx, [] ++ ms, [] ++ bs, []⟩ F.1 at hE
  cases role with
  | dialler =>
    rw [run] at hE
    obtain ⟨l₁, hl₁, hE⟩ := ends_sendHello hE
    obtain ⟨hlc, rest, l₂, hl₂, hE⟩ := ends_receiveHello hE
    obtain ⟨o, ctx₀, rest', l₃, -, hsame, hl₃, hE⟩ := ends_offerOurHistory hE
    rw [← bind_pure (takeTheirHistory o)] at hE
    obtain ⟨wanted, needed, t, ctx₁, o', ctx₂, rest'', bs', l₄, ht, ho, hn, hl, hs, hw, hE⟩ :=
      ends_takeTheirHistory hE
    have hF := hE.stuck rfl
    rw [← hF] at hr
    cases hr
    have hlog : F.1.log = ([] ++ l₁ ++ l₂ ++ l₃) ++ l₄ ++ [] := by
      rw [← hF, List.append_nil]
    have ha : Aside ([] ++ l₁ ++ l₂ ++ l₃) := (hl₁.append hl₂).append hl₃
    have hnil : Aside [] := ⟨rfl, rfl, rfl⟩
    have hpush : pushedClips F.1 = pushesIn (Traffic.receivedMsgs l₄) := by
      rw [pushedClips, End.received, hlog, pushesIn_of_aside ha hnil]
    have hwant : blobWant F.1 = needed := by
      rw [blobWant, End.sent, hlog, wantsIn_of_aside ha hnil, hw]
      rfl
    have hstreams : receivedStreams F.1 = Traffic.receivedBytes l₄ := by
      rw [receivedStreams, hlog, receivedBytes_of_aside ha hnil]
    refine ⟨ctx₀, o, t, ctx₁, hsame, hpush ▸ ht, ho, hwant.trans hn, ?_, ?_⟩
    · rw [hstreams, hwant, hl]
    · rw [hwant, hstreams, ← hs, ← hF]
      exact .refl _
  | responder =>
    rw [run] at hE
    obtain ⟨hlc, rest, l₁, hl₁, hE⟩ := ends_receiveHello hE
    obtain ⟨l₂, hl₂, hE⟩ := ends_sendHello hE
    obtain ⟨wanted, needed, t, ctx₁, o, ctx₂, rest', bs', l₃, ht, ho, hn, hl, hs, hw, hE⟩ :=
      ends_takeTheirHistory hE
    rw [← bind_pure (offerOurHistory o)] at hE
    obtain ⟨o', ctx₃, rest₃, l₄, ho', hsame, hl₄, hE⟩ := ends_offerOurHistory hE
    have hF := hE.stuck rfl
    rw [← hF] at hr
    cases hr
    have hlog : F.1.log = ([] ++ l₁ ++ l₂) ++ l₃ ++ l₄ := by
      rw [← hF]
    have ha : Aside ([] ++ l₁ ++ l₂) := hl₁.append hl₂
    have hpush : pushedClips F.1 = pushesIn (Traffic.receivedMsgs l₃) := by
      rw [pushedClips, End.received, hlog, pushesIn_of_aside ha hl₄]
    have hwant : blobWant F.1 = needed := by
      rw [blobWant, End.sent, hlog, wantsIn_of_aside ha hl₄, hw]
      rfl
    have hstreams : receivedStreams F.1 = Traffic.receivedBytes l₃ := by
      rw [receivedStreams, hlog, receivedBytes_of_aside ha hl₄]
    refine ⟨ctx, {}, t, ctx₁, .refl _, hpush ▸ ht, ho'.trans ho, hwant.trans hn, ?_, ?_⟩
    · rw [hstreams, hwant, hl]
    · rw [hwant, hstreams, ← hs, ← hF]
      exact hsame

/-- What that says of the rows. -/
theorem run_returns {role : Role} {peer : DeviceId} {epoch : UInt64} {ctx : SyncContext}
    {p : End syncWire SyncOutcome} {F : Link syncWire SyncOutcome} {outcome : SyncOutcome}
    (h : Steps ({ proc := run peer epoch role, state := ctx }, p) F)
    (hr : F.1.proc = .done outcome) :
    ∃ ctx₀ o t ctx₁, Store.SameData ctx.store ctx₀.store ∧
      (takeAll (pushedClips F.1) { outcome := o }).eval ctx₀ = some (.ok t, ctx₁) ∧
      outcome.newestReceived = t.newest.map (·.2) ∧
      F.1.state.store.rows = ctx₁.store.rows := by
  obtain ⟨ctx₀, o, t, ctx₁, hsame, ht, hnew, -, -, hend⟩ := run_returns_data h hr
  exact ⟨ctx₀, o, t, ctx₁, hsame, ht, hnew, hend.rows.trans (Store.rows_receiveBlobs _ _)⟩

/-- What `apply_incoming` loads for `id` is there and not deleted. -/
def Live (s : Store) (id : ClipId) : Prop := ∃ clip, s.get id = some clip ∧ clip.deleted = false

/-- `newest` is empty, or names a live clip that the session inserted and that has the greatest
HLC among those. -/
def NewestLive (before after : Store) (pushes : List Clip) (newest : Option ClipId) : Prop :=
  newest = none ∨ ∃ c ∈ newClips before pushes, newest = some c.id ∧ Live after c.id ∧
    ∀ c' ∈ newClips before pushes, Live after c'.id → c'.hlc ≤ c.hlc

omit [Blake3] in
theorem live_iff {s : Store} {r : ClipRow} (hr : r ∈ s.rows) : Live s r.id ↔ r.deleted = false := by
  have hg : s.get r.id = some r.toClip := by
    change (s.clip.find? r.id).map ClipRow.toClip = _
    rw [Table.find?_of_mem hr]
    rfl
  simp [Live, hg, ClipRow.toClip]

theorem newClips_congr {s s' : Store} (h : ∀ hash, s'.rep hash = s.rep hash)
    (pushes : List Clip) : newClips s' pushes = newClips s pushes := by
  rw [newClips, newClips]
  simp only [h]

/-- What the receiving loop leaves for the clipboard. -/
theorem newestLive_iff {s₀ s : Store} {pushes : List Clip} {t : Taken}
    (h : TakeInv s₀ pushes t s) :
    NewestLive s₀ s pushes (t.newest.map (·.2)) ↔
      ∀ m, greatest (newClips s₀ pushes) = some m →
        ∀ d ∈ effective m.hash pushes, d.deleted = false := by
  have hlive : ∀ c ∈ newClips s₀ pushes,
      Live s c.id ↔ ∀ d ∈ effective c.hash pushes, d.deleted = false := by
    intro c hc
    obtain ⟨r, hrow, hid, -, -, hdel⟩ := h.row c hc
    have hmem : r ∈ s.rows := (Store.mem_rowsOf.1 (hrow ▸ List.mem_singleton_self r)).1
    rw [← hid, live_iff hmem, ← Bool.not_eq_true, hdel]
    simp
  rw [h.newest]
  obtain ⟨hnone, hsome⟩ := greatest_spec (newClips s₀ pushes)
  cases hg : greatest (newClips s₀ pushes) with
  | none => simp [NewestLive]
  | some m =>
    obtain ⟨hm, hmax⟩ := hsome m hg
    simp only [NewestLive, Option.map_some, reduceCtorEq, false_or, Option.some.injEq, forall_eq']
    rw [← hlive m hm]
    constructor
    · rintro ⟨c, -, hid, hl, -⟩
      exact hid ▸ hl
    · exact fun hl => ⟨m, hm, rfl, hl, fun c hc _ => hmax c hc⟩

omit [Blake3] in
theorem Live.congr {s s' : Store} (h : s'.rows = s.rows) (id : ClipId) : Live s' id ↔ Live s id := by
  have hg : s'.get id = s.get id := by
    change (s'.clip.find? id).map _ = (s.clip.find? id).map _
    rw [Table.ext h]
  rw [Live, Live, hg]

theorem newestLive_of_returns {ctx ctx₀ ctx₁ : SyncContext} {s : Store} {o : SyncOutcome}
    {t : Taken} {pushes : List Clip} (hsame : Store.SameData ctx.store ctx₀.store)
    (ht : (takeAll pushes { outcome := o }).eval ctx₀ = some (.ok t, ctx₁))
    (hrows : s.rows = ctx₁.store.rows) :
    NewestLive ctx.store s pushes (t.newest.map (·.2)) ↔
      ∀ m, greatest (newClips ctx.store pushes) = some m →
        ∀ d ∈ effective m.hash pushes, d.deleted = false := by
  have hinv := takeInv_takeAll (takeInv_nil ctx₀.store o) ht
  rw [List.nil_append] at hinv
  have hiff := newestLive_iff hinv
  simp only [NewestLive, newClips_congr hsame.rep] at hiff ⊢
  simpa only [Live.congr hrows] using hiff

/-- **What goes to the clipboard is live** exactly when, of the pushes that take effect on the
greatest new content, none is a tombstone. -/
theorem newest_live_iff {role : Role} {peer : DeviceId} {epoch : UInt64} {ctx : SyncContext}
    {p : End syncWire SyncOutcome} {F : Link syncWire SyncOutcome} {outcome : SyncOutcome}
    (h : Steps ({ proc := run peer epoch role, state := ctx }, p) F)
    (hr : F.1.proc = .done outcome) :
    NewestLive ctx.store F.1.state.store (pushedClips F.1) outcome.newestReceived ↔
      ∀ m, greatest (newClips ctx.store (pushedClips F.1)) = some m →
        ∀ d ∈ effective m.hash (pushedClips F.1), d.deleted = false := by
  obtain ⟨ctx₀, o, t, ctx₁, hsame, ht, hnew, hrows⟩ := run_returns h hr
  rw [hnew]
  exact newestLive_of_returns hsame ht hrows

omit [Blake3] in
theorem summaries_singleton {a : Store} {r : ClipRow} (ha : a.rows = [r]) :
    a.summaries = [r.summary] := by
  rw [Store.summaries_eq]
  show ((Store.byHlc a.rows).take historyLimit).map ClipRow.summary = _
  rw [ha]
  rfl

omit [Blake3] in
/-- A store without rows lacks everything. -/
theorem wanted_singleton {b : Store} (hb : b.rows = []) (r : ClipRow) :
    b.wanted [r.summary] = [r.hash] := by
  have hlacks : b.lacks r.summary := by
    have hnone : b.rep r.summary.hash = none := by
      rw [Store.rep_eq_none, hb]
      exact fun _ h => by cases h
    rw [Store.lacks, hnone]
  rw [Store.wanted, List.filter_cons_of_pos hlacks]
  rfl

omit [Blake3] in
/-- A device that has just one row offers it to one that has none. -/
theorem pushedBy_singleton {a b : Store} {r : ClipRow} (ha : a.rows = [r]) (hb : b.rows = []) :
    pushedBy a b = [r.toClip] := by
  have hrep : a.rep r.hash = some r := by
    rw [Store.rep_eq, Store.rowsOf, ha, List.filter_cons_of_pos (by simp)]
    exact repOf_singleton r
  rw [pushedBy, summaries_singleton ha, wanted_singleton hb]
  simp [Store.byHashIncludingDeleted_eq, hrep]

omit [Blake3] in
theorem neededFrom_singleton {s : Store} {d : ContentHash} (h : s.hasBlob d = false) :
    s.neededFrom [d] [] = [d] := by
  rw [Store.neededFrom, Store.neededFrom, h]
  rfl

omit [Blake3] in
/-- A device wants nothing of one that has the same row. -/
theorem wanted_same {b : Store} {r : ClipRow} (hb : b.rows = [r]) : b.wanted [r.summary] = [] := by
  have hrep : b.rep r.summary.hash = some r := by
    have hall : [r].filter (fun x => decide (x.hash = r.summary.hash)) = [r] :=
      List.filter_eq_self.2 fun x hx => by
        rw [List.mem_singleton.1 hx]
        exact decide_eq_true rfl
    rw [Store.rep_eq, Store.rowsOf, hb, hall]
    exact repOf_singleton r
  have hlacks : ¬ b.lacks r.summary := by
    rw [Store.lacks, hrep]
    exact fun h => lt_irrefl r.hlc (of_decide_eq_true h)
  rw [Store.wanted, List.filter_cons_of_neg hlacks]
  rfl

/-- One clip with one blob, offered to a device that has nothing. -/
theorem Turn.of_new {a b b₁ a' b' : SyncContext} {t : Taken} {r : ClipRow} {d : ContentHash}
    (h : Turn a b t b₁ a' b') (ha : a.store.rows = [r]) (hc : r.toClip.Canonical)
    (hd : r.toClip.blobDigests = [d]) (hb : b.store.rows = []) (hf : b.store.hasBlob d = false) :
    b'.store = b₁.store.receiveBlobs [(d, a.store.blobOf d)] ∧
      b₁.store.neededFrom t.missingBlobs [] = [d] ∧ b₁.store.rows = [.of r.toClip] ∧
      Store.SameBlobs b.store b₁.store := by
  obtain ⟨o, hm⟩ := h.merged
  obtain ⟨t', b₂, hm', ht, hrows, hsame⟩ := takeAll_new hc hb o
  rw [pushedBy_singleton ha hb, hm'] at hm
  simp only [Option.some.injEq, Prod.mk.injEq, Except.ok.injEq] at hm
  obtain ⟨rfl, rfl⟩ := hm
  have hneed : b₂.store.neededFrom t'.missingBlobs [] = [d] := by
    rw [ht, hd, neededFrom_singleton (hsame.hasBlob d ▸ hf)]
  refine ⟨?_, hneed, hrows, hsame⟩
  rw [h.stored, blobsSent, hneed]
  rfl

/-- The responder's part of a completed session. -/
theorem responder_returns {a b : SyncContext} {epochA epochB : UInt64}
    {F : Link syncWire SyncOutcome} (h : Completes (sessionLink a b epochA epochB) F) :
    ∃ outcome, Steps ({ proc := run a.clock.device epochB .responder, state := b },
        { proc := run b.clock.device epochA .dialler, state := a }) F.swap ∧
      F.2.proc = .done outcome ∧ pushedClips F.2 = pushedBy a.store b.store := by
  obtain ⟨outcome, hout⟩ := h.2.2
  refine ⟨outcome, h.1.swap, hout, ?_⟩
  obtain ⟨t, b₁, a', b', hlc, t', a₁, hlc', -, -, -, hlog⟩ := completes_session h
  rw [pushedClips, End.received, hlog]
  simp only [Traffic.receivedMsgs_append, receivedMsgs_takeLog, receivedMsgs_offerLog,
    pushesIn_append, pushesIn_push, pushesIn_summaryPages, List.nil_append]
  exact List.append_nil _

end

section
attribute [local instance] Blake3.examples

/-- A device without rows. -/
def newcomer : SyncContext := .start (.open_ 0) (.repeated 2) fun _ => 0

/-- The newcomer's session with a device that has one row. -/
theorem newcomer_returns {a : SyncContext} {r : ClipRow} (ha : Store.Reachable a.store)
    (hhi : Only Clip.hiContent a.store) (hr : a.store.rows = [r]) :
    ∃ p F outcome, Steps ({ proc := run a.clock.device 0 .responder, state := newcomer }, p) F ∧
      F.1.proc = .done outcome ∧ pushedClips F.1 = [r.toClip] := by
  obtain ⟨F, hF⟩ := session_completes ha.sound (Store.Reachable.open_ 0).sound
    (a := a) (b := newcomer) (hhi.compatible fun _ hr => by cases hr) 0 0
  obtain ⟨outcome, hs, hout, hp⟩ := responder_returns hF
  exact ⟨_, F.swap, outcome, hs, hout, hp.trans (pushedBy_singleton hr rfl)⟩

/-- A new content is the first genuine push of it. -/
theorem newClips_newcomer {c : Clip} (hc : c.hashMatches) : newClips newcomer.store [c] = [c] := by
  have hnone : newcomer.store.rep c.hash = none := Store.rep_eq_none.2 fun _ hr => by cases hr
  simp [newClips, hc, hnone]

/-- A text that was copied and deleted before the two devices ever met goes to the clipboard. -/
theorem tombstone_to_clipboard :
    ¬ ∀ (role : Role) (peer : DeviceId) (epoch : UInt64) (ctx : SyncContext)
      (p : End syncWire SyncOutcome) (F : Link syncWire SyncOutcome) (outcome : SyncOutcome),
      Steps ({ proc := run peer epoch role, state := ctx }, p) F → F.1.proc = .done outcome →
      NewestLive ctx.store F.1.state.store (pushedClips F.1) outcome.newestReceived := by
  intro h
  obtain ⟨hreach, hrows⟩ := Store.recopied_spec 1
  obtain ⟨p, F, outcome, hs, hout, hp⟩ := newcomer_returns (a := recopier 1) hreach
    (onlyHi_recopied 1) hrows
  have hlive := h _ _ _ _ _ _ _ hs hout
  obtain ⟨ctx₀, o, t, ctx₁, hsame, ht, hnew, hrows'⟩ := run_returns hs hout
  have hgen : (Store.tombstone 0).toClip.hashMatches :=
    (hreach.sound _ (hrows ▸ List.mem_singleton_self _)).hash
  rw [hnew, newestLive_of_returns hsame ht hrows', hp, newClips_newcomer hgen] at hlive
  have hd := hlive _ rfl (Store.tombstone 0).toClip (by simp [effective, hgen])
  cases hd

/-- A live text that is new to the device goes to the clipboard. -/
theorem newest_live_iff_copied :
    ∃ (p : End syncWire SyncOutcome) (F : Link syncWire SyncOutcome) (outcome : SyncOutcome),
      Steps ({ proc := run (.repeated 1) 0 .responder, state := newcomer }, p) F ∧
      F.1.proc = .done outcome ∧
      NewestLive newcomer.store F.1.state.store (pushedClips F.1) outcome.newestReceived := by
  obtain ⟨hreach, hrows⟩ := Store.copied_spec 1 (.repeated 1) ⟨1, 0, .repeated 1⟩
  obtain ⟨p, F, outcome, hs, hout, hp⟩ := newcomer_returns (a := copier 1 1) hreach
    (onlyHi_copied _ _ _) hrows
  refine ⟨p, F, outcome, hs, hout, (newest_live_iff hs hout).2 fun m hm d hd => ?_⟩
  rw [hp] at hm hd
  have hall : ∀ d ∈ effective m.hash [(ClipRow.of (.hi 1 (.repeated 1) ⟨1, 0, .repeated 1⟩)).toClip],
      d.deleted = false := by
    intro d hd
    rw [effective, List.foldl_cons, List.foldl_nil] at hd
    split at hd
    · rw [List.mem_singleton.1 hd]
      rfl
    · cases hd
  exact hall d hd

end

end Session
end Clipse
