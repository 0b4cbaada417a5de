import Clipse.Clipboard.Proof.Desktop
import Clipse.Clipboard.Proof.Identity
import Clipse.Daemon.Apply
import Clipse.Daemon.Proof.Captures
import Clipse.Store.Proof.Calls
import Clipse.Store.Proof.Reachable
import Clipse.Store.Proof.RoundTrip
import Mathlib.Data.Fintype.EquivFin

/-!
# The echo of a received clip (`clipsed/src/daemon.rs`, `capture.rs`)

A clip that arrives is written to the clipboard, and the watcher sees the write. The store is left
alone exactly if the echo is not captured or its content is there already
(`received_left_alone_iff`).
-/

namespace Clipse

open SyncContext

/-- No clip is new, and the clip `id` keeps its stamp and its source. -/
def Store.LeftAlone (s s' : Store) (id : ClipId) : Prop :=
  (∀ r' ∈ s'.rows, ∃ r ∈ s.rows, r.id = r'.id) ∧
    ∀ r ∈ s.rows, ∀ r' ∈ s'.rows, r.id = id → r'.id = id → r'.hlc = r.hlc ∧ r'.source = r.source

theorem Store.LeftAlone.refl (s : Store) (id : ClipId) : s.LeftAlone s id := by
  refine ⟨fun r hr => ⟨r, hr, rfl⟩, fun r hr r' hr' hid hid' => ?_⟩
  obtain rfl := s.clip.eq_of_key_eq hr hr' (hid.trans hid'.symm)
  exact ⟨rfl, rfl⟩

/-! ## What a capture does to the rows -/

namespace SyncContext

section
variable [Blake3]

/-- The clip that a capture is stored as. -/
def clipOf (ctx : SyncContext) (id : ClipId) (capture : Capture) : Clip :=
  .new id (capture.payloads.map payloadOf) (ctx.clipSource capture.app) ctx.now.1

/-- The store once the large payloads of a capture have been written. -/
def spilled (ctx : SyncContext) (capture : Capture) : Store :=
  (spill capture.payloads).foldl (fun s bytes => s.putBlob (.of bytes) bytes) ctx.store

@[simp] theorem clipOf_hash (ctx : SyncContext) (id : ClipId) (capture : Capture) :
    (ctx.clipOf id capture).hash = captureHash capture := rfl

theorem rows_spilled (ctx : SyncContext) (capture : Capture) :
    (ctx.spilled capture).rows = ctx.store.rows := rows_putBlobs ctx.store _

omit [Blake3] in
theorem clipSource_now (ctx : SyncContext) (app : Option String) :
    ctx.now.2.clipSource app = ctx.clipSource app := by
  simp [clipSource, now, systemTime]

theorem foldl_spill (ctx : SyncContext) (capture : Capture) :
    (spill capture.payloads).foldl (fun s bytes => s.putBlob (.of bytes) bytes) ctx.now.2.store =
      ctx.spilled capture := rfl

/-- `store_capture` inserts the clip, and changes no row beside that. -/
theorem storeCapture_ok {ctx : SyncContext} {id : ClipId} {capture : Capture}
    {outcome : InsertOutcome} {s' : Store}
    (h : (ctx.spilled capture).insert (ctx.clipOf id capture) = .ok (outcome, s')) :
    ∃ ctx', ctx.storeCapture id capture = .ok (outcome, ctx') ∧ ctx'.store.rows = s'.rows := by
  unfold storeCapture
  simp only [clipSource_now]
  rw [← clipOf, foldl_spill, h]
  cases outcome with
  | inserted _ => exact ⟨_, rfl, Store.rows_enforceBlobQuota s'⟩
  | deduplicated old =>
    simp only
    split
    · exact ⟨_, rfl, Store.rows_enforceBlobQuota s'⟩
    · exact ⟨_, rfl, Store.rows_enforceBlobQuota s'⟩
  | rejected => exact ⟨_, rfl, Store.rows_enforceBlobQuota s'⟩

/-! ## When the store is left alone -/

/-- The store has the content of a capture already, live: in another clip, or in the clip `id` with
the very stamp and source that the capture would get. -/
def Holds (ctx : SyncContext) (capture : Capture) (id : ClipId) : Prop :=
  ∃ r ∈ ctx.store.rows, r.hash = captureHash capture ∧ r.deleted = false ∧
    (r.id = id → r.hlc = ctx.now.1 ∧ r.source = ctx.clipSource capture.app)

/-- The clip `id` is not originated anew: whatever the watcher reported, and whatever id a capture
gets, the store is left alone. -/
def NotReoriginated [Regex] (ctx : SyncContext) (paused : Bool) (id : ClipId)
    (event : Option CaptureEvent) : Prop :=
  ∀ e ∈ event, ∀ newId ctx', ctx.onCaptureEvent paused newId e = .ok ctx' →
    ctx.store.LeftAlone ctx'.store id

omit [Blake3] in
/-- Some id is not taken. -/
theorem exists_fresh (s : Store) : ∃ id : ClipId, ∀ r ∈ s.rows, r.id ≠ id := by
  obtain ⟨n, hn⟩ := Infinite.exists_notMem_finset (s.rows.map (·.id.uuid)).toFinset
  refine ⟨⟨n⟩, fun r hr he => hn ?_⟩
  rw [List.mem_toFinset]
  exact List.mem_map.2 ⟨r, hr, congrArg ClipId.uuid he⟩

omit [Blake3] in
/-- Renewing a row leaves the clip `id` alone if it changes nothing there. -/
theorem leftAlone_renew_iff {s s' : Store} {c : Clip} {e : ClipRow} {id : ClipId} (he : e ∈ s.rows)
    (hrows : s'.rows = s.rows.map fun r => if r.id = e.id then Store.renew c r else r) :
    s.LeftAlone s' id ↔ (e.id = id → c.hlc = e.hlc ∧ c.source = e.source) := by
  constructor
  · intro h hid
    have hmem : Store.renew c e ∈ s'.rows := by
      rw [hrows]
      exact List.mem_map.2 ⟨e, he, if_pos rfl⟩
    exact h.2 e he _ hmem hid hid
  · intro h
    refine ⟨fun r' hr' => ?_, fun r hr r' hr' hid hid' => ?_⟩
    · rw [hrows, List.mem_map] at hr'
      obtain ⟨r, hr, rfl⟩ := hr'
      refine ⟨r, hr, ?_⟩
      split <;> rfl
    · rw [hrows, List.mem_map] at hr'
      obtain ⟨q, hq, rfl⟩ := hr'
      split at hid'
      · next hqe =>
        rw [if_pos hqe]
        obtain rfl := s.clip.eq_of_key_eq hq he hqe
        obtain rfl := s.clip.eq_of_key_eq hr hq (hid.trans hid'.symm)
        exact h hid
      · next hqe =>
        rw [if_neg hqe]
        obtain rfl := s.clip.eq_of_key_eq hr hq (hid.trans hid'.symm)
        exact ⟨rfl, rfl⟩

/-- **What a capture leaves alone**: the store holds its content already. -/
theorem leftAlone_capture_iff {ctx : SyncContext} {capture : Capture} {id : ClipId}
    (hn : (capture.payloads.map (·.1.label)).Nodup) :
    (∀ newId outcome ctx', ctx.storeCapture newId capture = .ok (outcome, ctx') →
      ctx.store.LeftAlone ctx'.store id) ↔ ctx.Holds capture id := by
  have hcanonical : ∀ newId, (ctx.clipOf newId capture).Canonical := by
    intro newId
    apply Clip.new_canonical
    have hlabel : Payload.label ∘ payloadOf = (·.1.label) := by
      funext p
      simp only [Function.comp]
      unfold payloadOf
      split <;> rfl
    rw [List.map_map, hlabel]
    exact hn
  by_cases hlive : ∃ e ∈ ctx.store.rows, e.hash = captureHash capture ∧ e.deleted = false
  · obtain ⟨e, he, hh, hd⟩ := hlive
    -- whatever the id, the row is renewed
    have hstored : ∀ newId, ∃ ctx', ctx.storeCapture newId capture = .ok (.deduplicated e.id, ctx') ∧
        ctx'.store.rows = ctx.store.rows.map
          fun r => if r.id = e.id then Store.renew (ctx.clipOf newId capture) r else r := by
      intro newId
      obtain ⟨s', hins, hrows⟩ := Store.insert_live (s := ctx.spilled capture)
        (hcanonical newId).hash ((rows_spilled ctx capture) ▸ he) hh hd
      obtain ⟨ctx', hctx, hrows'⟩ := storeCapture_ok hins
      exact ⟨ctx', hctx, hrows'.trans (hrows.trans (by rw [rows_spilled]))⟩
    have hholds : ctx.Holds capture id ↔
        (e.id = id → ctx.now.1 = e.hlc ∧ ctx.clipSource capture.app = e.source) := by
      constructor
      · rintro ⟨r, hr, hh', hd', h⟩ hid
        obtain rfl := Store.eq_of_live hr he (hh'.trans hh.symm) hd' hd
        exact ⟨(h hid).1.symm, (h hid).2.symm⟩
      · intro h
        exact ⟨e, he, hh, hd, fun hid => ⟨(h hid).1.symm, (h hid).2.symm⟩⟩
    rw [hholds]
    constructor
    · intro h
      obtain ⟨ctx', hctx, hrows⟩ := hstored ⟨0⟩
      exact (leftAlone_renew_iff he hrows).1 (h _ _ _ hctx)
    · intro h newId outcome ctx' hctx
      obtain ⟨ctx'', hctx', hrows⟩ := hstored newId
      cases hctx.symm.trans hctx'
      exact (leftAlone_renew_iff he hrows).2 h
  · -- a free id gets a row of its own
    refine iff_of_false (fun h => ?_) fun ⟨r, hr, hh, hd, _⟩ => hlive ⟨r, hr, hh, hd⟩
    obtain ⟨newId, hfresh⟩ := exists_fresh ctx.store
    obtain ⟨s', hins, hrows⟩ := Store.insert_fresh (s := ctx.spilled capture) (hcanonical newId)
      (by
        rw [rows_spilled]
        intro r hr hh
        by_contra hd
        exact hlive ⟨r, hr, hh, by simpa using hd⟩)
      (by rwa [rows_spilled])
    obtain ⟨ctx', hctx, hrows'⟩ := storeCapture_ok hins
    have hmem : ClipRow.of (ctx.clipOf newId capture) ∈ ctx'.store.rows := by
      rw [hrows', hrows]
      exact List.mem_append_right _ (List.mem_singleton_self _)
    obtain ⟨r, hr, hid⟩ := (h _ _ _ hctx).1 _ hmem
    exact hfresh r hr hid

/-- **When the echo of a list leaves the store alone.** -/
theorem notReoriginated_echo_iff [Regex] {ctx : SyncContext} {d : Desktop} {config : WatchConfig}
    {guard : OwnWriteGuard} {last : RawPoll} {payloads : List (ClipFormat × Bytes)}
    {written now : Nat} {paused : Bool} {id : ClipId} (hp : Named payloads)
    (hnow : now - written ≤ guard.ttl) :
    ctx.NotReoriginated paused id (d.backend.echo config guard last payloads written now) ↔
      paused = true ∨ d.Spared config last payloads ∨ ctx.Holds (d.kept payloads) id := by
  have hlabels : ((d.kept payloads).payloads.map (·.1.label)).Nodup := by
    have hs := (d.kept_sublist payloads).map ClipFormat.label
    rw [List.map_map] at hs
    exact hs.nodup (by decide)
  have hcaptured : ∀ c, d.backend.echo config guard last payloads written now =
      some (.captured c) ↔ c = d.kept payloads ∧ ¬ d.Spared config last payloads :=
    fun c => Desktop.captured_iff hp hnow
  rw [← leftAlone_capture_iff hlabels]
  cases paused with
  | true =>
    refine iff_of_true (fun e _ newId ctx' h => ?_) (.inl rfl)
    have hctx : ctx' = ctx := by
      cases e <;> exact (Except.ok.inj h).symm
    exact hctx ▸ Store.LeftAlone.refl _ _
  | false =>
    rw [or_iff_right Bool.false_ne_true]
    constructor
    · intro h
      by_cases hspared : d.Spared config last payloads
      · exact .inl hspared
      · refine .inr fun newId outcome ctx' hctx => h _ ((hcaptured _).2 ⟨rfl, hspared⟩) newId ctx' ?_
        simp [onCaptureEvent, hctx, Except.map]
    · intro h e he newId ctx' hctx
      cases e with
      | suppressed reason =>
        cases hctx
        exact Store.LeftAlone.refl _ _
      | captured c =>
        obtain ⟨rfl, hspared⟩ := (hcaptured c).1 he
        change (ctx.storeCapture newId (d.kept payloads)).map (·.2) = .ok ctx' at hctx
        cases hstored : ctx.storeCapture newId (d.kept payloads) with
        | error e =>
          rw [hstored] at hctx
          cases hctx
        | ok stored =>
          rw [hstored] at hctx
          cases hctx
          exact h.resolve_left hspared newId stored.1 stored.2 hstored

/-! ## What is applied -/

omit [Blake3] in
theorem mem_of_materialize {s : Store} {ps : List Payload} {p : ClipFormat × Bytes}
    (hp : p ∈ (s.materialize ps).1) : ∃ q ∈ ps, q.format = p.1 := by
  induction ps generalizing s with
  | nil => cases hp
  | cons q ps ih =>
    unfold Store.materialize at hp
    split at hp
    · rcases List.mem_cons.1 hp with rfl | hp
      · exact ⟨q, List.mem_cons_self, rfl⟩
      · obtain ⟨q', hq, he⟩ := ih hp
        exact ⟨q', List.mem_cons_of_mem q hq, he⟩
    · split at hp
      · rcases List.mem_cons.1 hp with rfl | hp
        · exact ⟨q, List.mem_cons_self, rfl⟩
        · obtain ⟨q', hq, he⟩ := ih hp
          exact ⟨q', List.mem_cons_of_mem q hq, he⟩
      · obtain ⟨q', hq, he⟩ := ih hp
        exact ⟨q', List.mem_cons_of_mem q hq, he⟩

omit [Blake3] in
/-- The formats of a list that is applied come from labels in the database. -/
theorem named_of_applyIncoming {ctx ctx' : SyncContext} {paused applies : Bool} {id : ClipId}
    {payloads : List (ClipFormat × Bytes)}
    (h : ctx.applyIncoming paused applies id = (some payloads, ctx')) : Named payloads := by
  unfold applyIncoming at h
  split at h
  · cases h
  unfold apply at h
  split at h
  · cases h
  · next clip hget =>
    obtain ⟨r, -, rfl⟩ := Option.map_eq_some_iff.1 hget
    cases h
    intro p hp
    obtain ⟨q, hq, he⟩ := mem_of_materialize hp
    obtain ⟨row, -, rfl⟩ := List.mem_map.1 hq
    rw [← he]
    exact congrArg ClipFormat.fromLabel (ClipFormat.label_fromLabel row.formatLabel)

/-- **The echo of a received clip**: for whichever clip `apply_incoming` writes, and whatever
happened to the daemon before the watcher comes to look, the clip is originated anew unless capturing
is paused, the platform spares the list or the store has what was kept of it. -/
theorem received_left_alone_iff [Regex] {ctx₀ ctx₁ ctx : SyncContext} {d : Desktop}
    {config : WatchConfig} {guard : OwnWriteGuard} {last : RawPoll}
    {payloads : List (ClipFormat × Bytes)} {written now : Nat} {pausedThen applies paused : Bool}
    {id : ClipId} (hw : ctx₀.applyIncoming pausedThen applies id = (some payloads, ctx₁))
    (hnow : now - written ≤ guard.ttl) :
    ctx.NotReoriginated paused id (d.backend.echo config guard last payloads written now) ↔
      paused = true ∨ d.Spared config last payloads ∨ ctx.Holds (d.kept payloads) id :=
  notReoriginated_echo_iff (named_of_applyIncoming hw) hnow

end

/-! ## Worked echoes -/

/-- BLAKE3 of the markup `<b>hi</b>`. -/
def boldDigest : ContentHash :=
  { bytes :=
    #v[0xd3, 0x01, 0x9e, 0x3c, 0x3e, 0x8c, 0xfd, 0x7f, 0xc3, 0x57, 0x3b, 0x56, 0x0c, 0xbc, 0xdb,
      0x3b, 0xa3, 0x3b, 0xba, 0xcf, 0x7e, 0x58, 0xb7, 0x3b, 0xd2, 0xd3, 0x48, 0x1f, 0x88, 0x59,
      0x4d, 0x9f] }

/-- The content hash of that markup with the text `hi`. -/
def boldHash : ContentHash :=
  { bytes :=
    #v[0x86, 0x13, 0xfa, 0xfb, 0x49, 0x41, 0xf2, 0xb6, 0xcb, 0x36, 0x10, 0xb5, 0xd6, 0x23, 0xc9,
      0x6a, 0xbc, 0x61, 0x7a, 0x1c, 0xcb, 0xf2, 0x3e, 0x11, 0xaa, 0x0d, 0xca, 0x3e, 0xe3, 0x77,
      0xc0, 0xdf] }

/-- The hash of the same two, as they are written to the clipboard. -/
def boldWritten : ContentHash :=
  { bytes :=
    #v[0xb0, 0x1f, 0x8c, 0xe1, 0x0c, 0x53, 0x57, 0x18, 0xd7, 0x8f, 0x57, 0xea, 0x3a, 0x36, 0x81,
      0x7b, 0x53, 0xc4, 0x57, 0x1b, 0x74, 0x7e, 0xf7, 0x84, 0xdd, 0x73, 0x18, 0x59, 0x12, 0x84,
      0x9f, 0x76] }

/-- BLAKE3 on what is hashed below. -/
@[reducible] def blake3 : Blake3 where
  hash bytes :=
    let bold := ContentHash.framed "text/html" boldDigest.bytes.toList
    let text := ContentHash.framed "text/plain" hiDigest.bytes.toList
    if bytes = utf8 "<b>hi</b>" then boldDigest
    else if bytes = bold ++ text then boldHash
    else if bytes = ContentHash.framed "text/html" (utf8 "<b>hi</b>") ++
        ContentHash.framed "text/plain" (utf8 "hi") then boldWritten
    else if bytes = ContentHash.framed "text/plain" (utf8 "hi") then hiRead
    else Blake3.examples.hash bytes

/-- The patterns on the text `hi`, in which none of them matches. -/
@[reducible] def noSecrets : Regex where
  isMatch _ _ := false
  findIter _ _ := []

/-- The text `hi`, and the same in bold. -/
def boldHi : List (ClipFormat × Bytes) := [(.html, utf8 "<b>hi</b>"), (.text, utf8 "hi")]

theorem materialize_new [Blake3] (s : Store) {ps : List (ClipFormat × Bytes)}
    (hsmall : ∀ p ∈ ps, p.2.length ≤ inlineMaxBytes) :
    s.materialize (ps.map fun p => .new p.1 p.2) = (ps, s) := by
  induction ps with
  | nil => rfl
  | cons p ps ih =>
    obtain ⟨hp, hps⟩ := List.forall_mem_cons.1 hsmall
    have hinline : (Payload.new p.1 p.2).inlineBytes = some p.2 := by
      simp [Payload.inlineBytes, Payload.new, hp]
    rw [List.map_cons, Store.materialize, hinline]
    simp only [ih hps]
    rfl

/-- A clip of another device. -/
def received [Blake3] (payloads : List (ClipFormat × Bytes)) : Clip :=
  .new ⟨1⟩ (payloads.map fun p => .new p.1 p.2)
    { device := .repeated 2, deviceLabel := "laptop", app := none } ⟨1, 0, .repeated 2⟩

/-- A store that has received a clip applies it. -/
theorem exists_applied [Blake3] (payloads : List (ClipFormat × Bytes))
    (hsorted : (payloads.map (·.1.label)).Pairwise (· < ·)) (hn : Named payloads)
    (hsmall : ∀ p ∈ payloads, p.2.length ≤ inlineMaxBytes) :
    ∃ s : Store, s.rows = [.of (received payloads)] ∧
      (start s (.repeated 1) fun _ => 0).applyIncoming false true ⟨1⟩ =
        (some payloads, start s (.repeated 1) fun _ => 0) := by
  have hpairs : (payloads.map fun p => Payload.new p.1 p.2).Pairwise
      fun a b => a.label < b.label := by
    rw [List.pairwise_map] at hsorted ⊢
    exact hsorted
  have hle := hpairs.imp fun {a b} h => le_of_lt h
  have hpayloads : (received payloads).payloads = payloads.map fun p => .new p.1 p.2 :=
    hle.insertionSort_eq
  have hc : (received payloads).Canonical :=
    Clip.new_canonical _ _ _ (by
      rw [List.map_map]
      exact hsorted.imp fun {a b} h => ne_of_lt h)
  have hstorable : (received payloads).Storable := by
    refine ⟨hpayloads ▸ hle, fun p hp => ?_⟩
    rw [hpayloads] at hp
    obtain ⟨q, hq, rfl⟩ := List.mem_map.1 hp
    exact hn q hq
  obtain ⟨s, -, hs⟩ := Store.insert_fresh (s := .open_ 0) hc nofun nofun
  refine ⟨s, hs, ?_⟩
  have hget : s.get ⟨1⟩ = some (received payloads) := by
    have hmem : ClipRow.of (received payloads) ∈ s.rows := by
      rw [hs]
      exact List.mem_singleton_self _
    have h := Store.get_of_mem hmem
    rwa [ClipRow.toClip_of_iff.2 hstorable] at h
  change (start s _ _).apply ⟨1⟩ = _
  unfold apply
  rw [start_store, hget]
  simp only
  rw [hpayloads, materialize_new s hsmall]
  rfl

section
attribute [local instance] blake3 noSecrets

theorem hashPayloads_boldHi : hashPayloads boldHi = boldWritten := by decide +kernel

theorem hashPayloads_hi : hashPayloads [(.text, utf8 "hi")] = hiRead := by decide +kernel

theorem received_boldHi_hash : (received boldHi).hash = boldHash := by decide +kernel

theorem contentOf_hi : captureHash ⟨[(.text, utf8 "hi")], none⟩ = hiHash := by decide +kernel

theorem not_spared_boldHi : ¬ Desktop.x11.Spared .default_ .empty boldHi := by
  have hkept : Desktop.kept boldHi .x11 = ⟨[(.text, utf8 "hi")], none⟩ := rfl
  rintro (⟨p, hp, -⟩ | hcollide | hhidden | hrefuses | hunseen)
  · exact List.cons_ne_nil _ _ (List.cons.inj hp).2
  · have hhash := hcollide.2
    rw [hkept, hashPayloads_boldHi, hashPayloads_hi] at hhash
    exact absurd hhash (by decide +kernel)
  · exact hhidden
  · rw [hkept] at hrefuses
    rcases hrefuses with hempty | hlarge | happ | hsecret
    · cases hempty
    · exact absurd hlarge (by decide +kernel)
    · exact happ rfl
    · exact absurd hsecret (by decide +kernel)
  · exact hunseen

/-- Text and markup arrive: X11 gets the text alone, which the guard does not know. -/
theorem received_copied_again :
    ¬ ∀ (ctx₀ ctx₁ ctx : SyncContext) (d : Desktop) (config : WatchConfig) (guard : OwnWriteGuard)
      (last : RawPoll) (payloads : List (ClipFormat × Bytes)) (written now : Nat)
      (pausedThen applies paused : Bool) (id : ClipId),
      ctx₀.applyIncoming pausedThen applies id = (some payloads, ctx₁) →
      now - written ≤ guard.ttl →
      ctx.NotReoriginated paused id
        (d.backend.echo config guard last payloads written now) := by
  intro h
  obtain ⟨s, hs, happly⟩ := exists_applied boldHi (by decide) (by decide) (by decide)
  have hleft := h _ _ (start s (.repeated 1) fun _ => 0) .x11 .default_ (.new 2000) .empty _ 0 0
    _ _ false _ happly (Nat.zero_le _)
  rcases (notReoriginated_echo_iff (by decide) (Nat.zero_le _)).1 hleft with hp | hspared | hholds
  · cases hp
  · exact not_spared_boldHi hspared
  · obtain ⟨r, hr, hhash, -⟩ := hholds
    rw [start_store, hs, List.mem_singleton] at hr
    rw [hr] at hhash
    have hbold : boldHash = hiHash := received_boldHi_hash.symm.trans (hhash.trans contentOf_hi)
    exact absurd hbold (by decide +kernel)

/-- A text arrives alone: it is kept whole. -/
theorem received_left_alone_hi :
    ∃ s : Store, (start s (.repeated 1) fun _ => 0).applyIncoming false true ⟨1⟩ =
        (some [(.text, utf8 "hi")], start s (.repeated 1) fun _ => 0) ∧
      (start s (.repeated 1) fun _ => 0).NotReoriginated false ⟨1⟩
        (X11.backend.echo .default_ (.new 2000) .empty [(.text, utf8 "hi")] 0 0) := by
  obtain ⟨s, -, happly⟩ := exists_applied [(.text, utf8 "hi")] (by decide) (by decide)
    (by decide)
  exact ⟨s, happly, (received_left_alone_iff (d := .x11) happly (Nat.zero_le _)).2
    (.inr (.inl (.inl ⟨_, rfl, by decide, trivial⟩)))⟩

end

end SyncContext
end Clipse
