import Clipse.Lib.Protocol
import Clipse.Sync.Proof.Newest

/-!
# Who waits for whom in a session

The two ends of a session follow one half-duplex protocol (`protocol`): in every phase one of them
sends, and a phase says how many clips or blobs are still to come. What other tasks do to the two
stores does not matter, with one exception: a wanted clip that is gone when it is looked up is
skipped, and the receiver waits for one push more than it gets.

* `follows_dialler`, `follows_responder`: each end follows the protocol, under any rules that let
  it (`Protocol.Allows`).
* `no_deadlock`: in a run in which every lookup of a wanted hash finds a row, the two ends never
  wait for each other.
* `session_in_order`: the ends read in the order in which they were sent to, found or not.
* `purged_meanwhile`: a run that gets stuck.
-/

namespace Clipse

open Duplex

/-- The dialler is the left end. -/
def Role.left : Role → Bool
  | .dialler => true
  | .responder => false

namespace Session

/-! ## The protocol -/

/-- The phases of a session. In all but the first two, one end offers its history: the dialler in
the first turn, the responder in the second. -/
inductive Phase where
  | hello
  | helloBack
  | summaries (offerer : Role)
  | want (offerer : Role)
  /-- This many clips are still to be pushed. -/
  | pushes (offerer : Role) (n : Nat)
  /-- This many blobs are still to be streamed. -/
  | blobs (offerer : Role) (n : Nat)
  | finished

namespace Phase

/-- What follows a turn. -/
def after : Role → Phase
  | .dialler => summaries .responder
  | .responder => finished

/-- Whether the dialler sends. -/
def left : Phase → Bool
  | hello => true
  | helloBack => false
  | summaries o | pushes o (_ + 1) | blobs o (_ + 1) => o.left
  | want o | pushes o 0 | blobs o 0 => !o.left
  | finished => true

/-- Whether a blob is sent. -/
def streams : Phase → Bool
  | blobs _ (_ + 1) => true
  | _ => false

/-- The phase after an item. -/
def next : Phase → Item SyncMessage Bytes → Option Phase
  | hello, .msg (.hello ..) => some helloBack
  | helloBack, .msg (.hello ..) => some (summaries .dialler)
  | summaries o, .msg (.summary _ false) => some (summaries o)
  | summaries o, .msg (.summary _ true) => some (want o)
  | want o, .msg (.want hashes) => some (pushes o hashes.length)
  | pushes o (n + 1), .msg (.push _) => some (pushes o n)
  | pushes o 0, .msg (.want digests) => some (blobs o digests.length)
  | blobs o (n + 1), .stream _ => some (blobs o n)
  | blobs o 0, .msg (.ack _) => some (after o)
  | _, _ => none

end Phase

/-- The protocol of a session. -/
def protocol : Protocol syncWire Phase where
  left := Phase.left
  streams := Phase.streams
  next := Phase.next
  next_kind {x i y} h := by
    unfold Phase.next at h
    split at h <;> first | rfl | cases h

/-- A wanted clip is looked up while the store still has a row with its hash. -/
def Found : SyncCall → SyncContext → Prop
  | .serve hash, ctx => ∃ r ∈ ctx.store.rows, r.hash = hash
  | _, _ => True

/-- The program ends in phase `y`. -/
abbrev To {α : Type} (y : Phase) : Phase → α → Prop := fun x _ => x = y

section
variable {α : Type} {side : Bool} {Q : Phase → α → Prop} {x y : Phase} {o : Role}
  {R : Rules syncWire Phase}

theorem follows_tell {q : Unit → Session α} {m : SyncMessage} (hR : protocol.Allows R side)
    (hl : x.left = side) (hn : x.next (.msg m) = some y) (hq : Obeys R Q (q ()) y) :
    Obeys R Q (Proc.tell m >>= q) x := obeys_tell (hR.send hl hn) hq

/-- Programs that only call stay in their phase. -/
theorem follows_of_silent {p : Session α} (hR : protocol.Allows R side) (hp : p.Silent) :
    Obeys R (To x) p x := by
  induction p with
  | done a => exact rfl
  | fail e => trivial
  | call name f k ih => exact fun s _ _ => ⟨hR.inv _, ih s (hp s)⟩
  | send | sendStream | recv | gather | recvStream => exact hp.elim

/-! ## Hello -/

theorem follows_sendHello (hR : protocol.Allows R side) (epoch : UInt64) (hl : x.left = side)
    (hn : ∀ device protocol hlc label platform,
      x.next (.msg (.hello device epoch protocol hlc label platform)) = some y) :
    Obeys R (To y) (sendHello epoch) x := by
  refine Obeys.bind (P := fun z m => z = x ∧ x.next (.msg m) = some y)
    (obeys_read fun ctx _ _ => ⟨rfl, hn _ _ _ _ _⟩) ?_
  rintro z m ⟨rfl, hm⟩
  exact follows_tell hR hl hm rfl

theorem follows_receiveHello (hR : protocol.Allows R side) (peer : DeviceId)
    (hl : x.left = !side) (hs : x.streams = false)
    (hn : ∀ m z, x.next (.msg m) = some z → z = y) :
    Obeys R (To y) (receiveHello peer) x := by
  refine obeys_hear (hR.awaitsMsg hl hs) fun m z hm => ?_
  obtain rfl := hn m z (hR.recv hm)
  cases m with
  | hello =>
    dsimp only
    split_ifs
    · trivial
    · trivial
    · rfl
  | _ => trivial

/-! ## Offering -/

theorem follows_sendAll {ms : List SyncMessage} {entries : List ClipSummary}
    (hR : protocol.Allows R o.left) (h : Paged ms entries) :
    Obeys R (To (.want o)) (sendAll ms) (.summaries o) := by
  obtain ⟨front, last, rfl, -⟩ := h
  induction front with
  | nil => exact follows_tell hR rfl rfl rfl
  | cons page front ih => exact follows_tell hR rfl rfl ih

theorem follows_recvWant (expected : String) (hw : R.awaitsMsg x) {n : List ContentHash → Phase}
    (hn : ∀ m z, R.recv x (.msg m) z → ∃ hashes, m = .want hashes ∧ z = n hashes) :
    Obeys R (fun z hashes => z = n hashes) (recvWant expected) x := by
  refine obeys_hear hw fun m z hm => ?_
  obtain ⟨hashes, rfl, rfl⟩ := hn m z hm
  exact rfl

/-- Under these rules, an end that has fewer clips than were wanted may wait while it should push. -/
def Patient (R : Rules syncWire Phase) (o : Role) : Prop :=
  ∀ n, R.awaitsMsg (.pushes o (n + 1)) ∧ ∀ i z, ¬ R.recv (.pushes o (n + 1)) i z

/-- Whether or not every wanted clip is found. -/
theorem follows_serve (wanted : List ContentHash)
    (hfound : ∀ hash ctx, R.ok (.serve hash) ctx →
      Patient R o ∨ ctx.store.byHashIncludingDeleted hash ≠ none) :
    Obeys R (fun z found => z = x ∧ found.length = wanted.length ∧ (Patient R o ∨ none ∉ found))
      (serve wanted) x := by
  induction wanted with
  | nil => exact ⟨rfl, rfl, .inr List.not_mem_nil⟩
  | cons hash wanted ih =>
    refine Obeys.bind (P := fun z clip => z = x ∧ (Patient R o ∨ clip ≠ none))
      (obeys_read fun ctx _ hok => ⟨rfl, hfound hash ctx hok⟩) ?_
    rintro z clip ⟨rfl, hclip⟩
    refine ih.bind ?_
    rintro z found ⟨rfl, hlen, hall⟩
    refine ⟨rfl, by rw [List.length_cons, List.length_cons, hlen], ?_⟩
    rcases hclip with hclip | hclip
    · exact .inl hclip
    · refine hall.imp id fun hall hmem => ?_
      exact (List.mem_cons.1 hmem).elim (fun he => hclip he.symm) hall

/-- One clip is pushed for each that was found. -/
theorem follows_pushFound (hR : protocol.Allows R o.left) (found : List (Option Clip)) (n : Nat)
    (outcome : SyncOutcome) :
    Obeys R (To (.pushes o (n + found.count none))) (pushFound found outcome)
      (.pushes o (n + found.length)) := by
  induction found generalizing n outcome with
  | nil => exact rfl
  | cons clip found ih =>
    cases clip with
    | none =>
      have hi := ih (n + 1) outcome
      rw [List.count_cons_self, List.length_cons]
      rwa [Nat.add_right_comm, Nat.add_right_comm n 1] at hi
    | some clip =>
      rw [List.count_cons_of_ne (by simp)]
      exact follows_tell hR rfl rfl (ih n _)

theorem follows_sendBlobs (hR : protocol.Allows R o.left) (digests : List ContentHash)
    (outcome : SyncOutcome) :
    Obeys R (To (.blobs o 0)) (sendBlobs digests outcome) (.blobs o digests.length) := by
  induction digests generalizing outcome with
  | nil => exact rfl
  | cons digest digests ih =>
    refine Obeys.bind (follows_of_silent hR (Proc.silent_act _ _)) ?_
    rintro z r rfl
    -- whether or not the blob can be read, one stream is sent
    cases r with
    | ok bytes => exact obeys_tellStream (hR.send rfl rfl) (ih _)
    | error e => exact obeys_tellStream (hR.send rfl rfl) (ih _)

theorem follows_offerOurHistory (hR : protocol.Allows R o.left)
    (hfound : ∀ hash ctx, R.ok (.serve hash) ctx →
      Patient R o ∨ ctx.store.byHashIncludingDeleted hash ≠ none) (outcome : SyncOutcome) :
    Obeys R (To (.after o)) (offerOurHistory outcome) (.summaries o) := by
  have hsummaries : Obeys R (To (.want o)) offerSummaries (.summaries o) := by
    refine Obeys.bind (follows_of_silent hR (Proc.silent_read _ _)) ?_
    rintro z clips rfl
    exact follows_sendAll hR (summaryPages_paged _)
  have hclips : Obeys R (fun z _ => ∃ n, z = .pushes o n ∧ (Patient R o ∨ n = 0))
      (offerClips outcome) (.summaries o) := by
    refine hsummaries.bind ?_
    rintro z - rfl
    refine (follows_recvWant (x := .want o) (n := fun hashes => .pushes o hashes.length) _
      (hR.awaitsMsg rfl rfl) ?_).bind ?_
    · intro m z hm
      have hm := hR.recv hm
      cases m <;> first | exact ⟨_, rfl, (Option.some.inj hm).symm⟩ | cases hm
    rintro z wanted rfl
    refine (follows_serve wanted hfound).bind ?_
    rintro z found ⟨rfl, hlen, hall⟩
    have hp := follows_pushFound hR found 0 outcome
    rw [Nat.zero_add, Nat.zero_add, hlen] at hp
    refine hp.mono fun z _ hz => ⟨_, hz, hall.imp id fun hall => ?_⟩
    exact List.count_eq_zero_of_not_mem hall
  have hblobs : ∀ n, (Patient R o ∨ n = 0) → ∀ outcome,
      Obeys R (To (.after o)) (offerBlobs outcome) (.pushes o n) := by
    intro n hn outcome
    -- with pushes left to be made, the end waits for good
    have hwait : R.awaitsMsg (.pushes o n) ∧ ∀ m z, R.recv (.pushes o n) (.msg m) z →
        ∃ digests, m = .want digests ∧ z = .blobs o digests.length := by
      cases n with
      | zero =>
        refine ⟨hR.awaitsMsg rfl rfl, fun m z hm => ?_⟩
        have hm := hR.recv hm
        cases m <;> first | exact ⟨_, rfl, (Option.some.inj hm).symm⟩ | cases hm
      | succ n =>
        obtain ⟨hw, hr⟩ := hn.resolve_right n.succ_ne_zero n
        exact ⟨hw, fun m z hm => absurd hm (hr _ _)⟩
    refine (follows_recvWant (n := fun digests => .blobs o digests.length) _ hwait.1 hwait.2).bind ?_
    rintro z digests rfl
    refine (follows_sendBlobs hR digests outcome).bind ?_
    rintro z outcome rfl
    refine Obeys.bind (P := To (.after o)) (obeys_hear (hR.awaitsMsg rfl rfl) ?_) ?_
    · intro m z hm
      have hm := hR.recv hm
      cases m <;> first | exact (Option.some.inj hm).symm | cases hm
    · rintro z - rfl
      exact rfl
  refine hclips.bind ?_
  rintro z outcome ⟨n, rfl, hn⟩
  exact hblobs n hn outcome

/-! ## Taking -/

theorem follows_recvSummaries (hR : protocol.Allows R (!o.left)) :
    Obeys R (To (.want o)) recvSummaries (.summaries o) := by
  refine obeys_hearWhile (hR.awaitsMsg (Bool.not_not _).symm rfl) ?_ ?_
  · intro acc m z hm hmore
    have hm := hR.recv hm
    cases m with
    | summary page complete =>
      cases complete with
      | false => exact (Option.some.inj hm).symm
      | true => cases hmore
    | _ => cases hm
  · intro acc m z hm hmore
    have hm := hR.recv hm
    cases m with
    | summary page complete =>
      cases complete with
      | false => cases hmore
      | true => exact (Option.some.inj hm).symm
    | _ => cases hm

variable [Blake3]

theorem follows_takePushes (hR : protocol.Allows R (!o.left)) (n : Nat) (t : Taken) :
    Obeys R (To (.pushes o 0)) (takePushes n t) (.pushes o n) := by
  induction n generalizing t with
  | zero => exact rfl
  | succ n ih =>
    refine obeys_hear (hR.awaitsMsg (Bool.not_not _).symm rfl) fun m z hm => ?_
    have hm := hR.recv hm
    cases m with
    | push clip =>
      obtain rfl := Option.some.inj hm
      refine (follows_of_silent hR (takePush_silent t clip)).bind ?_
      rintro z t rfl
      exact ih t
    | _ => cases hm

theorem follows_takeBlobs (hR : protocol.Allows R (!o.left)) (digests : List ContentHash)
    (outcome : SyncOutcome) :
    Obeys R (To (.blobs o 0)) (takeBlobs digests outcome) (.blobs o digests.length) := by
  induction digests generalizing outcome with
  | nil => exact rfl
  | cons digest digests ih =>
    refine obeys_hearStream (hR.awaitsStream (Bool.not_not _).symm rfl) fun bytes z hz => ?_
    obtain rfl := Option.some.inj (hR.recv hz)
    by_cases hd : ContentHash.of bytes = digest
    · rw [if_neg (not_not.2 hd)]
      refine Obeys.bind (follows_of_silent hR (Proc.silent_act _ _)) ?_
      rintro z - rfl
      exact ih _
    · rw [if_pos hd]
      exact ih _

theorem follows_takeTheirHistory (hR : protocol.Allows R (!o.left)) (outcome : SyncOutcome) :
    Obeys R (To (.after o)) (takeTheirHistory outcome) (.summaries o) := by
  have hclips : Obeys R (To (.pushes o 0)) (takeClips outcome) (.summaries o) := by
    refine (follows_recvSummaries hR).bind ?_
    rintro z entries rfl
    refine (follows_of_silent hR (compare_silent entries)).bind ?_
    rintro z wanted rfl
    exact follows_tell hR rfl rfl (follows_takePushes hR _ _)
  have hmissing : ∀ t, Obeys R (To (.after o)) (takeMissing t) (.pushes o 0) := by
    intro t
    refine (follows_of_silent hR (neededBlobs_silent _ _)).bind ?_
    rintro z needed rfl
    refine follows_tell hR rfl rfl ((follows_takeBlobs hR needed _).bind ?_)
    rintro z outcome rfl
    refine (follows_of_silent hR ackHlc_silent).bind ?_
    rintro z hlc rfl
    exact follows_tell hR rfl rfl rfl
  refine hclips.bind ?_
  rintro z t rfl
  exact hmissing t

/-! ## The session -/

theorem follows_dialler (hR : protocol.Allows R true)
    (hfound : ∀ hash ctx, R.ok (.serve hash) ctx →
      Patient R .dialler ∨ ctx.store.byHashIncludingDeleted hash ≠ none)
    (peer : DeviceId) (epoch : UInt64) :
    Obeys R (To .finished) (run peer epoch .dialler) .hello := by
  refine (follows_sendHello hR epoch rfl fun _ _ _ _ _ => rfl).bind ?_
  rintro z - rfl
  refine (follows_receiveHello (y := .summaries .dialler) hR peer rfl rfl ?_).bind ?_
  · intro m z hm
    cases m <;> first | exact (Option.some.inj hm).symm | cases hm
  rintro z - rfl
  refine (follows_offerOurHistory (o := .dialler) hR hfound {}).bind ?_
  rintro z outcome rfl
  exact follows_takeTheirHistory (o := .responder) hR outcome

theorem follows_responder (hR : protocol.Allows R false)
    (hfound : ∀ hash ctx, R.ok (.serve hash) ctx →
      Patient R .responder ∨ ctx.store.byHashIncludingDeleted hash ≠ none)
    (peer : DeviceId) (epoch : UInt64) :
    Obeys R (To .finished) (run peer epoch .responder) .hello := by
  refine (follows_receiveHello (y := .helloBack) hR peer rfl rfl ?_).bind ?_
  · intro m z hm
    cases m <;> first | exact (Option.some.inj hm).symm | cases hm
  rintro z - rfl
  refine (follows_sendHello hR epoch rfl fun _ _ _ _ _ => rfl).bind ?_
  rintro z - rfl
  refine (follows_takeTheirHistory (o := .dialler) hR {}).bind ?_
  rintro z outcome rfl
  exact follows_offerOurHistory (o := .responder) hR hfound outcome

omit [Blake3] in
/-- A clip that is looked up while its row is there is found. -/
theorem found_serve {hash : ContentHash} {ctx : SyncContext} (h : Found (.serve hash) ctx) :
    ctx.store.byHashIncludingDeleted hash ≠ none := by
  obtain ⟨r, hr, hh⟩ := h
  rw [Store.byHashIncludingDeleted_eq]
  cases hrep : ctx.store.rep hash with
  | none => exact absurd hh (Store.rep_eq_none.1 hrep r hr)
  | some r' => exact Option.some_ne_none _

/-- **A session does not deadlock**, whatever other tasks do to the two stores, as long as every
clip that is looked up for the peer is still there. -/
theorem no_deadlock {a b : SyncContext} {epochA epochB : UInt64}
    {env : SyncContext → SyncContext → Prop} {c : Link syncWire SyncOutcome}
    (h : BusyRun Found env (sessionLink a b epochA epochB) c) : ¬ Protocol.Deadlocked c :=
  Protocol.not_deadlocked
    (follows_dialler (protocol.allows_rules Found true) (fun _ _ h => .inr (found_serve h)) _ _)
    (follows_responder (protocol.allows_rules Found false) (fun _ _ h => .inr (found_serve h)) _ _) h

omit [Blake3] in
theorem patient_laxRules (o : Role) : Patient (protocol.laxRules o.left) o := by
  intro n
  have hne : o.left ≠ !o.left := by cases o <;> decide
  exact ⟨fun _ => rfl, fun i z h => hne h.1⟩

/-- **The ends of a session read in order**, whatever their stores hold. -/
theorem session_in_order {peer peer' : DeviceId} {a b : SyncContext} {epoch epoch' : UInt64}
    {c : Link syncWire SyncOutcome}
    (h : Steps ({ proc := run peer epoch .dialler, state := a },
      { proc := run peer' epoch' .responder, state := b }) c) :
    Protocol.InOrder c.1 c.2 ∧ Protocol.InOrder c.2 c.1 :=
  Protocol.in_order
    (follows_dialler (protocol.allows_laxRules true)
      (fun _ _ _ => .inl (patient_laxRules .dialler)) _ _)
    (follows_responder (protocol.allows_laxRules false)
      (fun _ _ _ => .inl (patient_laxRules .responder)) _ _) h

/-- What other tasks of a daemon do to its store. -/
inductive Disturbs : SyncContext → SyncContext → Prop where
  | capture {ctx : SyncContext} {clip : Clip} {o : InsertOutcome} {s : Store}
      (h : ctx.store.insert clip = .ok (o, s)) : Disturbs ctx { ctx with store := s }
  | pin {ctx : SyncContext} {id : ClipId} {pinned : Bool} {hlc : Hlc} {s : Store}
      (h : ctx.store.setPinned id pinned hlc = .ok s) : Disturbs ctx { ctx with store := s }
  | delete {ctx : SyncContext} {id : ClipId} {hlc : Hlc} {now : UInt64} {s : Store}
      (h : ctx.store.delete id hlc now = .ok s) : Disturbs ctx { ctx with store := s }
  | purge (ctx : SyncContext) (olderThanMs now : UInt64) :
      Disturbs ctx { ctx with store := ctx.store.purgeTombstones olderThanMs now }
  | evict (ctx : SyncContext) : Disturbs ctx { ctx with store := ctx.store.enforceBlobQuota }

end

section
attribute [local instance] Blake3.examples

/-- The first device's one tombstone is purged after it was offered. -/
theorem purged_meanwhile :
    ¬ ∀ (a b : SyncContext) (epochA epochB : UInt64) (c : Link syncWire SyncOutcome),
      Store.Reachable a.store → Store.Reachable b.store →
      BusyRun (fun _ _ => True) Disturbs (sessionLink a b epochA epochB) c →
      ¬ Protocol.Deadlocked c := by
  intro h
  obtain ⟨ha, hrows⟩ := Store.recopied_spec 1
  have hwanted : ∃ hash, newcomer.store.wanted (recopier 1).store.summaries = [hash] := by
    have hlen := pushedBy_length (recopier 1).store newcomer.store
    rw [pushedBy_singleton (a := (recopier 1).store) (b := newcomer.store) hrows rfl] at hlen
    exact List.length_eq_one_iff.1 hlen.symm
  obtain ⟨hash, hwanted⟩ := hwanted
  have hpurged : ((recopier 1).store.purgeTombstones 0 1).rows = [] := by
    unfold Store.purgeTombstones
    rw [Store.rows_pruneOrphanBlobs]
    have hr : (recopier 1).store.clip.rows = [Store.tombstone 0] := hrows
    rw [Store.rows, Table.rows_erase, hr]
    rfl
  have hgone : ((recopier 1).store.purgeTombstones 0 1).byHashIncludingDeleted hash = none := by
    rw [Store.byHashIncludingDeleted_eq, Store.rep_eq_none.2 (fun r hr => by
      rw [hpurged] at hr
      cases hr)]
    rfl
  have hs := steps_hello (recopier 1) newcomer 0 0
  simp only [offerOurHistory, takeTheirHistory, bind_assoc] at hs
  have hs := Relation.ReflTransGen.trans hs (steps_wanted {} {})
  rw [hwanted] at hs
  have hrun : BusyRun (fun _ _ => True) Disturbs _ _ := Steps.busy hs
  refine h _ _ 0 0 _ ha (.open_ 0) ((hrun.tail (.disturbLeft (.purge _ 0 1))).trans
    (Steps.busy (steps_eval (eval_serve _ _)))) ?_
  simp only [List.map_cons, List.map_nil, hgone]
  exact ⟨trivial, trivial, rfl, rfl, rfl, rfl⟩

/-- The tombstone is purged before it is offered. -/
theorem no_deadlock_purged :
    ∃ c, BusyRun Found Disturbs (sessionLink (recopier 1) newcomer 0 0) c ∧
      c.1.state.store = (recopier 1).store.purgeTombstones 0 1 ∧
      c.1.sent ≠ [] ∧ ¬ Protocol.Deadlocked c := by
  have hrun : BusyRun Found Disturbs (sessionLink (recopier 1) newcomer 0 0) _ :=
    ((Relation.ReflTransGen.refl.tail (.disturbLeft (.purge _ 0 1))).tail
      (.left rfl (by trivial))).tail (.left rfl (by trivial))
  exact ⟨_, hrun, rfl, List.cons_ne_nil _ _, no_deadlock hrun⟩

end

end Session
end Clipse
