import Clipse.Lib.Protocol
import Clipse.Store.Proof.Reachable
import Clipse.Store.Proof.Order
import Clipse.Sync.Session

/-!
# Sessions keep stores in use

What a session does to a store is a sequence of the store's own operations. So what these keep
(`Upkeep`) holds on both sides of a session in every state, whether it completes or breaks off, and
whatever else the two daemons do in the meantime (`upholds_run`): that the store is one in use, for
one (`reachable_run`).
-/

namespace Clipse

open Duplex

namespace Session

variable [Blake3]

/-- What the store's operations keep, as far as a session calls them: it inserts a clip that it has
received, one that meets `C`, when `merge` says so of what the store held when it was asked. What
the store then serves meets `C` as well. -/
structure Upkeep (I : Store → Prop) (C : Clip → Prop) : Prop where
  served {s : Store} {hash : ContentHash} {c : Clip} (hs : I s)
    (h : s.byHashIncludingDeleted hash = some c) : C c
  insert {s₀ s s' : Store} {c : Clip} {o : InsertOutcome} (h₀ : I s₀)
    (hm : merge (s₀.byHashIncludingDeleted c.hash) c = .insert) (hs : I s) (hc : C c)
    (h : s.insert c = .ok (o, s')) : I s'
  setPinned {s s' : Store} {id : ClipId} {pinned : Bool} {hlc : Hlc} (hs : I s)
    (h : s.setPinned id pinned hlc = .ok s') : I s'
  delete {s s' : Store} {id : ClipId} {hlc : Hlc} {now : UInt64} (hs : I s)
    (h : s.delete id hlc now = .ok s') : I s'
  putBlob {s : Store} {digest : ContentHash} {bytes : Bytes} (hs : I s)
    (h : ContentHash.of bytes = digest) : I (s.putBlob digest bytes)
  readBlob {s s' : Store} {digest : ContentHash} {bytes : Bytes} (hs : I s)
    (h : s.readBlob digest = .ok (bytes, s')) : I s'

/-- A pushed clip meets `C`. -/
def Carries (C : Clip → Prop) : Item SyncMessage Bytes → Prop
  | .msg (.push clip) => C clip
  | _ => True

/-- The store of an end keeps `I`, and it pushes clips that meet `C` only. -/
def upkeepRules (I : Store → Prop) (C : Clip → Prop) : Rules syncWire Unit where
  send _ i _ := Carries C i
  recv _ i _ := Carries C i
  awaitsMsg _ := True
  awaitsStream _ := True
  inv ctx := I ctx.store
  ok _ _ := True

/-- The program keeps to the rules, and its result satisfies `Q`. -/
abbrev Upholds (I : Store → Prop) (C : Clip → Prop) {α : Type} (Q : α → Prop) (p : Session α) :
    Prop := Obeys (upkeepRules I C) (fun _ => Q) p ()

/-- Any result. -/
abbrev Any {α : Type} : α → Prop := fun _ => True

section
variable {I : Store → Prop} {C : Clip → Prop}

/-! ## Offering -/

omit [Blake3] in
theorem upholds_sendHello (epoch : UInt64) : Upholds I C Any (sendHello epoch) := by
  refine Obeys.bind (P := fun _ m => Carries C (.msg m)) (obeys_read fun _ _ _ => trivial) ?_
  intro _ m hm
  exact ⟨(), hm, trivial⟩

omit [Blake3] in
theorem upholds_receiveHello (peer : DeviceId) : Upholds I C Any (receiveHello peer) := by
  refine obeys_hear trivial fun m _ _ => ?_
  cases m with
  | hello =>
    dsimp only
    split_ifs <;> trivial
  | _ => trivial

omit [Blake3] in
theorem upholds_sendAll {ms : List SyncMessage} (h : ∀ m ∈ ms, Carries C (.msg m)) :
    Upholds I C Any (sendAll ms) := by
  induction ms with
  | nil => trivial
  | cons m ms ih =>
    exact obeys_tell (h m List.mem_cons_self) (ih fun m' hm' => h m' (List.mem_cons_of_mem _ hm'))

omit [Blake3] in
theorem carries_summaryPages (summaries : List ClipSummary) :
    ∀ m ∈ summaryPages summaries, Carries C (.msg m) := by
  intro m hm
  unfold summaryPages at hm
  split at hm
  · rw [List.mem_singleton.1 hm]
    trivial
  · obtain ⟨i, -, rfl⟩ := List.mem_mapIdx.1 hm
    trivial

omit [Blake3] in
theorem upholds_recvWant (expected : String) : Upholds I C Any (recvWant expected) := by
  refine obeys_hear trivial fun m _ _ => ?_
  cases m <;> trivial

/-- What is served meets `C`. -/
theorem upholds_serve (hu : Upkeep I C) (wanted : List ContentHash) :
    Upholds I C (fun found => ∀ c, some c ∈ found → C c) (serve wanted) := by
  induction wanted with
  | nil => exact fun c hc => absurd hc List.not_mem_nil
  | cons hash wanted ih =>
    refine Obeys.bind (P := fun _ clip => ∀ c, some c = clip → C c)
      (obeys_read fun ctx hi _ c hc => hu.served hi hc.symm) fun _ clip hclip => ?_
    refine ih.bind fun _ found hfound c hc => ?_
    exact (List.mem_cons.1 hc).elim (hclip c) (hfound c)

omit [Blake3] in
theorem upholds_pushFound {found : List (Option Clip)} (h : ∀ c, some c ∈ found → C c)
    (o : SyncOutcome) : Upholds I C Any (pushFound found o) := by
  induction found generalizing o with
  | nil => trivial
  | cons clip found ih =>
    have ih := ih fun c hc => h c (List.mem_cons_of_mem _ hc)
    cases clip with
    | none => exact ih o
    | some clip => exact obeys_tell (h clip List.mem_cons_self) (ih _)

theorem upholds_sendBlobs (hu : Upkeep I C) (digests : List ContentHash) (o : SyncOutcome) :
    Upholds I C Any (sendBlobs digests o) := by
  induction digests generalizing o with
  | nil => trivial
  | cons digest digests ih =>
    refine Obeys.bind (P := fun _ => Any) (obeys_act fun ctx hi _ => ⟨?_, trivial⟩) fun _ r _ => ?_
    · cases hr : ctx.store.readBlob digest with
      | error e => exact hi
      | ok r => exact hu.readBlob hi hr
    · cases r with
      | ok bytes => exact obeys_tellStream trivial (ih _)
      | error e => exact obeys_tellStream trivial (ih _)

omit [Blake3] in
theorem upholds_recvAck : Upholds I C Any recvAck := by
  refine obeys_hear trivial fun m _ _ => ?_
  cases m <;> trivial

theorem upholds_offerOurHistory (hu : Upkeep I C) (o : SyncOutcome) :
    Upholds I C Any (offerOurHistory o) := by
  have hsummaries : Upholds I C Any offerSummaries :=
    Obeys.bind (P := fun _ => Any) (obeys_read fun _ _ _ => trivial) fun _ clips _ =>
      upholds_sendAll (carries_summaryPages _)
  have hclips : Upholds I C Any (offerClips o) :=
    hsummaries.bind fun _ _ _ => (upholds_recvWant _).bind fun _ wanted _ =>
      (upholds_serve hu wanted).bind fun _ found hf => upholds_pushFound hf o
  have hblobs : ∀ o, Upholds I C Any (offerBlobs o) := fun o =>
    (upholds_recvWant _).bind fun _ digests _ => (upholds_sendBlobs hu digests o).bind fun _ o _ =>
      upholds_recvAck.bind fun _ _ _ => trivial
  exact hclips.bind fun _ o _ => hblobs o

/-! ## Taking -/

omit [Blake3] in
theorem eq_ok_of_onStore {α : Type} {ctx ctx' : SyncContext} {a : α}
    {r : Except StoreError (α × Store)} (h : ctx.onStore r = .ok (a, ctx')) :
    r = .ok (a, ctx'.store) := by
  cases r with
  | error e => cases h
  | ok r =>
    cases h
    rfl

omit [Blake3] in
theorem eq_ok_of_onStore_map {ctx ctx' : SyncContext} {u : Unit} {r : Except StoreError Store}
    (h : ctx.onStore (r.map fun s => ((), s)) = .ok (u, ctx')) : r = .ok ctx'.store := by
  cases r with
  | error e => cases h
  | ok s =>
    cases h
    rfl

theorem upholds_setPinned (hu : Upkeep I C) (id : ClipId) (pinned : Bool) (hlc : Hlc) :
    Upholds I C Any (setPinned id pinned hlc) :=
  obeys_attempt fun _ _ _ hi _ h => ⟨hu.setPinned hi (eq_ok_of_onStore_map h), trivial⟩

theorem upholds_delete (hu : Upkeep I C) (id : ClipId) (hlc : Hlc) :
    Upholds I C Any (delete id hlc) := by
  refine obeys_attempt fun ctx _ ctx' hi _ h => ⟨?_, trivial⟩
  have hd := @eq_ok_of_onStore_map ctx.systemTime.2 _ _ _ h
  exact hu.delete (s := ctx.store) hi hd

omit [Blake3] in
theorem upholds_emit (event : Event) : Upholds I C Any (emit event) :=
  obeys_act fun _ hi _ => ⟨hi, trivial⟩

omit [Blake3] in
theorem upholds_record (clip : Clip) : Upholds I C Any (record clip) :=
  obeys_act fun _ hi _ => ⟨hi, trivial⟩

theorem upholds_insert (hu : Upkeep I C) {s₀ : Store} {clip : Clip} (h₀ : I s₀)
    (hm : merge (s₀.byHashIncludingDeleted clip.hash) clip = .insert) (hc : C clip) :
    Upholds I C Any (insert clip) :=
  obeys_attempt fun _ _ _ hi _ h => ⟨hu.insert h₀ hm hi hc (eq_ok_of_onStore h), trivial⟩

theorem upholds_updateMetadata (hu : Upkeep I C) (existing clip : Clip) (pinned deleted : Bool) :
    Upholds I C Any (updateMetadata existing clip pinned deleted) := by
  refine (upholds_setPinned hu _ _ _).bind fun _ _ _ => ?_
  cases deleted with
  | true =>
    exact (upholds_delete hu _ _).bind fun _ _ _ => (upholds_emit _).bind fun _ _ _ =>
      (upholds_record _).bind fun _ _ _ => trivial
  | false =>
    refine Obeys.bind (P := fun _ => Any) (obeys_read fun _ _ _ => trivial) fun _ updated _ => ?_
    cases updated with
    | some updated =>
      exact (upholds_emit _).bind fun _ _ _ => (upholds_record _).bind fun _ _ _ => trivial
    | none => exact (upholds_record _).bind fun _ _ _ => trivial

theorem upholds_apply (hu : Upkeep I C) {clip : Clip} (hc : C clip) :
    Upholds I C Any (apply clip) := by
  refine Obeys.bind
    (P := fun _ stored => ∃ s₀ : Store, I s₀ ∧ s₀.byHashIncludingDeleted clip.hash = stored)
    (obeys_read fun ctx hi _ => ⟨ctx.store, hi, rfl⟩) fun _ stored hs => ?_
  obtain ⟨s₀, h₀, rfl⟩ := hs
  cases hm : merge (s₀.byHashIncludingDeleted clip.hash) clip with
  | reject => trivial
  | ignore => trivial
  | insert =>
    exact (upholds_insert hu h₀ hm hc).bind fun _ _ _ => (upholds_emit _).bind fun _ _ _ =>
      (upholds_record _).bind fun _ _ _ => trivial
  | updateMetadata pinned deleted =>
    cases s₀.byHashIncludingDeleted clip.hash with
    | none => trivial
    | some existing => exact upholds_updateMetadata hu existing clip pinned deleted

omit [Blake3] in
theorem upholds_compare (entries : List ClipSummary) : Upholds I C Any (compare entries) := by
  induction entries with
  | nil => trivial
  | cons entry entries ih =>
    exact Obeys.bind (P := fun _ => Any) (obeys_read fun _ _ _ => trivial) fun _ _ _ =>
      ih.bind fun _ _ _ => trivial

omit [Blake3] in
theorem upholds_recvSummaries : Upholds I C Any recvSummaries := by
  refine obeys_hearWhile trivial (fun _ _ _ _ _ => rfl) fun _ m _ _ _ => ?_
  cases m <;> trivial

theorem upholds_takePushes (hu : Upkeep I C) (expected : Nat) (t : Taken) :
    Upholds I C Any (takePushes expected t) := by
  induction expected generalizing t with
  | zero => trivial
  | succ expected ih =>
    refine obeys_hear trivial fun m _ hm => ?_
    cases m with
    | push clip =>
      refine Obeys.bind (P := fun _ => Any) ?_ fun _ t _ => ih t
      exact (upholds_apply hu hm).bind fun _ _ _ => trivial
    | _ => trivial

omit [Blake3] in
theorem upholds_neededBlobs (missing needed : List ContentHash) :
    Upholds I C Any (neededBlobs missing needed) := by
  induction missing generalizing needed with
  | nil => trivial
  | cons digest missing ih =>
    exact Obeys.bind (P := fun _ => Any) (obeys_read fun _ _ _ => trivial) fun _ _ _ => ih _

theorem upholds_takeBlobs (hu : Upkeep I C) (needed : List ContentHash) (o : SyncOutcome) :
    Upholds I C Any (takeBlobs needed o) := by
  induction needed generalizing o with
  | nil => trivial
  | cons digest needed ih =>
    refine obeys_hearStream trivial fun bytes _ _ => ?_
    by_cases hd : ContentHash.of bytes = digest
    · rw [if_neg (not_not.2 hd)]
      exact Obeys.bind (P := fun _ => Any)
        (obeys_act fun _ hi _ => ⟨hu.putBlob hi hd, trivial⟩) fun _ _ _ => ih _
    · rw [if_pos hd]
      exact ih _

omit [Blake3] in
theorem upholds_ackHlc : Upholds I C Any ackHlc := by
  refine Obeys.bind (P := fun _ => Any) (obeys_read fun _ _ _ => trivial) fun _ hlc _ => ?_
  cases hlc with
  | some hlc => trivial
  | none => exact obeys_act fun _ hi _ => ⟨hi, trivial⟩

theorem upholds_takeTheirHistory (hu : Upkeep I C) (o : SyncOutcome) :
    Upholds I C Any (takeTheirHistory o) := by
  have hclips : Upholds I C Any (takeClips o) :=
    upholds_recvSummaries.bind fun _ entries _ => (upholds_compare entries).bind fun _ wanted _ =>
      obeys_tell trivial (upholds_takePushes hu _ _)
  have hmissing : ∀ t, Upholds I C Any (takeMissing t) := fun t =>
    (upholds_neededBlobs _ _).bind fun _ needed _ => obeys_tell trivial <|
      (upholds_takeBlobs hu needed _).bind fun _ _ _ => upholds_ackHlc.bind fun _ _ _ =>
        obeys_tell (y := ()) trivial trivial
  exact hclips.bind fun _ t _ => hmissing t

/-! ## The session -/

/-- **A session keeps what the store's operations keep**, in either role. -/
theorem upholds_session (hu : Upkeep I C) (peer : DeviceId) (epoch : UInt64) (role : Role) :
    Upholds I C Any (run peer epoch role) := by
  cases role with
  | dialler =>
    exact (upholds_sendHello epoch).bind fun _ _ _ => (upholds_receiveHello peer).bind fun _ _ _ =>
      (upholds_offerOurHistory hu {}).bind fun _ o _ => upholds_takeTheirHistory hu o
  | responder =>
    exact (upholds_receiveHello peer).bind fun _ _ _ => (upholds_sendHello epoch).bind fun _ _ _ =>
      (upholds_takeTheirHistory hu {}).bind fun _ o _ => upholds_offerOurHistory hu o

theorem sane_session (hu : Upkeep I C) (peer : DeviceId) (epoch : UInt64) (role : Role)
    {ctx : SyncContext} (h : I ctx.store) :
    Sane (upkeepRules I C) (fun _ => Any)
      ({ proc := run peer epoch role, state := ctx } : End _ _) :=
  ⟨upholds_session hu peer epoch role, h, fun _ hm => absurd hm List.not_mem_nil,
    fun _ hb => absurd hb List.not_mem_nil⟩

/-- **It holds of both stores** throughout a session, however far it gets and whatever other tasks
do to them that keeps it. -/
theorem upholds_run (hu : Upkeep I C) {env : SyncContext → SyncContext → Prop}
    (henv : ∀ s s', env s s' → I s.store → I s'.store) {a b : SyncContext} (ha : I a.store)
    (hb : I b.store) {peerA peerB : DeviceId} {epochA epochB : UInt64}
    {c : Link syncWire SyncOutcome}
    (h : BusyRun (fun _ _ => True) env ({ proc := run peerB epochA .dialler, state := a },
      { proc := run peerA epochB .responder, state := b }) c) :
    I c.1.state.store ∧ I c.2.state.store := by
  obtain ⟨h₁, h₂⟩ := kept (R := upkeepRules I C) (fun _ hs => hs) henv h
    (sane_session hu peerB epochA .dialler ha)
    (sane_session hu peerA epochB .responder hb)
  exact ⟨h₁.inv, h₂.inv⟩

end

/-! ## Stores in use -/

/-- Stores in use serve canonical clips. -/
theorem upkeep_reachable : Upkeep Store.Reachable Clip.Canonical where
  served hs h := by
    rw [Store.byHashIncludingDeleted_eq] at h
    obtain ⟨r, hr, rfl⟩ := Option.map_eq_some_iff.1 h
    exact hs.sound r (Store.mem_of_rep hr).1
  insert _ _ hs hc h := hs.insert hc h
  setPinned hs h := hs.setPinned h
  delete hs h := hs.delete h
  putBlob hs h := hs.putBlob h
  readBlob hs h := hs.readBlob h

/-- **Both stores stay in use** throughout a session, however far it gets and whatever other tasks
do to them that keeps them in use. -/
theorem reachable_run {env : SyncContext → SyncContext → Prop}
    (henv : ∀ s s', env s s' → Store.Reachable s.store → Store.Reachable s'.store)
    {a b : SyncContext} (ha : Store.Reachable a.store) (hb : Store.Reachable b.store)
    {peerA peerB : DeviceId} {epochA epochB : UInt64} {c : Link syncWire SyncOutcome}
    (h : BusyRun (fun _ _ => True) env ({ proc := run peerB epochA .dialler, state := a },
      { proc := run peerA epochB .responder, state := b }) c) :
    Store.Reachable c.1.state.store ∧ Store.Reachable c.2.state.store :=
  upholds_run upkeep_reachable henv ha hb h

end Session
end Clipse
