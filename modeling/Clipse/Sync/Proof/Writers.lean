import Clipse.Store.Proof.Calls
import Clipse.Sync.Proof.Apply
import Clipse.Sync.Writers

/-!
# When the last writer wins

A writer decides by the row that it has read and writes in later calls, which do not look again.
`InTurn` says of a call, by the row as it is then, that it does not set the row back and loses
nothing. Each such call either gives the row to its event or changes nothing that the event could
have set (`insert_inTurn`, `setPinned_inTurn`, `delete_inTurn`); a run of such calls keeps
`Settling`, and where all are done the last writer has won (`last_writer_wins`).
-/

namespace Clipse

open Store

/-- The insert would store the clip in a row of its own. -/
def Store.Accepts (s : Store) (c : Clip) : Prop :=
  (c.payloads.map (·.label)).Nodup ∧ ∀ r ∈ s.rows, r.id ≠ c.id

instance (s : Store) (c : Clip) : Decidable (s.Accepts c) :=
  inferInstanceAs (Decidable ((c.payloads.map (·.label)).Nodup ∧ ∀ r ∈ s.rows, r.id ≠ c.id))

/-- The call of a writer comes in turn: by the row of the content as it is before the call.

* An insert finds no row and is accepted, or it renews a live row that is older and already has the
  clip's flags (or is of the same HLC), or it replaces an older tombstone.
* A pin finds an older row, and no tombstone that would have to be revived.
* A deletion finds an older live row, the only one of the content, with the pin that the event sets.
* A call that would change nothing of the row comes from an event that is not newer than it. -/
def InTurn (hash : ContentHash) (s : Store) (e : ClipEvent) : SyncCall → Prop
  | .insert c =>
    match s.rep hash with
    | none => s.Accepts c
    | some r =>
      if r.deleted = false then e.hlc = r.hlc ∨ r.hlc < e.hlc ∧ e.Flags r
      else if c.deleted = false ∧ s.Accepts c then r.hlc ≤ e.hlc
      else e.hlc ≤ r.hlc
  | .setPinned id =>
    match s.rep hash with
    | none => False
    | some r =>
      if r.id = id then r.hlc ≤ e.hlc ∧ (e.deleted = some false → r.deleted = false)
      else e.hlc ≤ r.hlc
  | .delete id =>
    match s.rep hash with
    | none => False
    | some r =>
      if r.id = id ∧ r.deleted = false then
        r.hlc ≤ e.hlc ∧ (∀ pinned, e.pinned = some pinned → r.pinned = pinned) ∧
          s.rowsOf hash = [r]
      else e.hlc ≤ r.hlc
  | _ => True

/-! ## What a call does to the row -/

/-- What writers see of a row. -/
structure RowTop where
  id : ClipId
  hlc : Hlc
  pinned : Bool
  deleted : Bool

def ClipRow.top (r : ClipRow) : RowTop :=
  { id := r.id, hlc := r.hlc, pinned := r.pinned, deleted := r.deleted }

/-- What writers see of a content. -/
def Store.top (s : Store) (hash : ContentHash) : Option RowTop := (s.rep hash).map ClipRow.top

variable {hash : ContentHash} {s s' : Store} {e : ClipEvent}

theorem exists_of_top_eq {r' : ClipRow} (h : s'.top hash = s.top hash)
    (hr : s'.rep hash = some r') : ∃ r, s.rep hash = some r ∧ r.top = r'.top := by
  rw [Store.top, hr, Option.map_some] at h
  exact Option.map_eq_some_iff.1 h.symm

/-- The row has taken the event. -/
def Takes (hash : ContentHash) (e : ClipEvent) (s s' : Store) : Prop :=
  ∃ r', s'.rep hash = some r' ∧ e.Carried r' ∧ ∀ r, s.rep hash = some r → r.hlc ≤ e.hlc

/-- The row has taken the event but for the deletion, which is still to come. -/
def HalfTakes (hash : ContentHash) (e : ClipEvent) (id : ClipId) (s s' : Store) : Prop :=
  ∃ r', s'.rep hash = some r' ∧ r'.id = id ∧ r'.hlc = e.hlc ∧
    (∀ pinned, e.pinned = some pinned → r'.pinned = pinned) ∧ r'.deleted = false ∧
    ∀ r, s.rep hash = some r → r.hlc ≤ e.hlc

/-- The row is as it was, and the event was not newer. -/
def Stays (hash : ContentHash) (e : ClipEvent) (s s' : Store) : Prop :=
  s'.top hash = s.top hash ∧ ∃ r, s.rep hash = some r ∧ e.hlc ≤ r.hlc

theorem rep_of_map {f : ClipRow → ClipRow} (hrows : s'.rows = s.rows.map f)
    (hhash : ∀ r, (f r).hash = r.hash)
    (hdel : ∀ r ∈ s.rows, r.hash = hash → (f r).deleted = r.deleted) :
    s'.rep hash = (s.rep hash).map f := by
  have hof : s'.rowsOf hash = (s.rowsOf hash).map f := by
    rw [rowsOf, hrows, List.filter_map, rowsOf]
    congr 1
    exact List.filter_congr fun r _ => by simp [hhash]
  have hfind : ∀ rows : List ClipRow, (∀ r ∈ rows, (f r).deleted = r.deleted) →
      (rows.map f).find? (fun r => !r.deleted) = (rows.find? fun r => !r.deleted).map f := by
    intro rows hrows
    induction rows with
    | nil => rfl
    | cons r rows ih =>
      rw [List.map_cons, List.find?_cons, List.find?_cons, hrows r List.mem_cons_self,
        ih fun q hq => hrows q (List.mem_cons_of_mem _ hq)]
      cases r.deleted <;> rfl
  rw [rep_eq, rep_eq, hof, repOf, repOf, List.head?_map, Option.map_or, hfind]
  intro r hr
  exact hdel r (mem_rowsOf.1 hr).1 (mem_rowsOf.1 hr).2

theorem repOf_append_deleted {rows : List ClipRow} {q : ClipRow} (hq : q.deleted = true)
    (hne : rows ≠ []) : repOf (rows ++ [q]) = repOf rows := by
  have hlive : (rows ++ [q]).find? (fun r => !r.deleted) = rows.find? fun r => !r.deleted := by
    rw [List.find?_append, List.find?_singleton, hq, Bool.not_true, if_neg Bool.false_ne_true,
      Option.or_none]
  rw [repOf, repOf, hlive, List.head?_append_of_ne_nil _ hne]

theorem rep_of_live {r : ClipRow} (hr : r ∈ s.rows) (hh : r.hash = hash)
    (hd : r.deleted = false) : s.rep hash = some r := by
  cases h : s.rep hash with
  | none => exact absurd hh (rep_eq_none.1 h r hr)
  | some q =>
    obtain ⟨hq, hqh⟩ := mem_of_rep h
    cases hqd : q.deleted with
    | false => rw [eq_of_live hq hr (hqh.trans hh.symm) hqd hd]
    | true =>
      have hdel := repOf_deleted (rep_eq s hash ▸ h) hqd r (mem_rowsOf.2 ⟨hr, hh⟩)
      rw [hd] at hdel
      cases hdel

section
variable [Blake3] {c : Clip} {id : ClipId} {pinned : Bool} {now : UInt64}

theorem insert_inTurn (hm : c.hashMatches) (hh : c.hash = hash) (he : e.Carried (.of c))
    (h : InTurn hash s e (.insert c)) :
    Takes hash e s (s.write (.insert c)) ∨ Stays hash e s (s.write (.insert c)) := by
  rcases write_insert_cases s c with ⟨q, hq, -, hqh, hqd, hrows, -⟩ |
    ⟨-, hlabels, hlive, hid, hrows, -⟩ | ⟨hsame, hrefused⟩
  · -- the live row is renewed
    have hrep : s.rep hash = some q := rep_of_live hq (hqh.trans hh) hqd
    have hrep' : (s.write (.insert c)).rep hash = some (renew c q) := by
      rw [rep_of_map hrows (fun r => by split <;> rfl) (fun r _ _ => by split <;> rfl), hrep,
        Option.map_some, if_pos rfl]
    simp only [InTurn, hrep, hqd, if_true] at h
    rcases h with heq | ⟨hlt, hflags⟩
    · refine .inr ⟨?_, q, hrep, heq.le⟩
      have hhlc : c.hlc = q.hlc := he.1.trans heq
      rw [Store.top, Store.top, hrep, hrep', Option.map_some, Option.map_some, ClipRow.top,
        ClipRow.top, renew, hhlc]
    · refine .inl ⟨renew c q, hrep', ⟨he.1, hflags⟩, fun r hr => ?_⟩
      rw [← Option.some.inj (hrep.symm.trans hr)]
      exact hlt.le
  · -- the clip gets a row of its own
    have hof : (s.write (.insert c)).rowsOf hash = s.rowsOf hash ++ [.of c] := by
      rw [rowsOf_append hrows, if_pos hh]
    cases hrep : s.rep hash with
    | none =>
      have hnil : s.rowsOf hash = [] := repOf_eq_none.1 (rep_eq s hash ▸ hrep)
      refine .inl ⟨.of c, ?_, he, fun r hr => ?_⟩
      · rw [rep_eq, hof, hnil, List.nil_append, repOf_singleton]
      · rw [hrep] at hr
        cases hr
    | some r =>
      obtain ⟨hr, hrh⟩ := mem_of_rep hrep
      have hrd : r.deleted = true := hlive r hr (hrh.trans hh.symm)
      simp only [InTurn, hrep, hrd, Bool.true_eq_false, if_false] at h
      cases hcd : c.deleted with
      | false =>
        rw [if_pos ⟨hcd, hlabels, hid⟩] at h
        refine .inl ⟨.of c, rep_of_live ?_ hh hcd, he, fun q hq => ?_⟩
        · rw [hrows]
          exact List.mem_append_right _ List.mem_cons_self
        · rw [← Option.some.inj (hrep.symm.trans hq)]
          exact h
      | true =>
        rw [if_neg (by simp [hcd])] at h
        refine .inr ⟨?_, r, hrep, h⟩
        rw [Store.top, Store.top, rep_eq, hof, repOf_append_deleted hcd (by
          intro hnil
          rw [rep_eq, hnil] at hrep
          cases hrep), ← rep_eq]
  · -- the clip is refused
    obtain ⟨hlive, hid⟩ := hrefused hm
    cases hrep : s.rep hash with
    | none =>
      simp only [InTurn, hrep] at h
      obtain ⟨q, hq, hqid⟩ := hid h.1
      exact absurd hqid (h.2 q hq)
    | some r =>
      obtain ⟨hr, hrh⟩ := mem_of_rep hrep
      have hrd : r.deleted = true := hlive r hr (hrh.trans hh.symm)
      simp only [InTurn, hrep, hrd, Bool.true_eq_false, if_false] at h
      rw [if_neg] at h
      · rw [hsame]
        exact .inr ⟨rfl, r, hrep, h⟩
      · rintro ⟨-, hlabels, hfresh⟩
        obtain ⟨q, hq, hqid⟩ := hid hlabels
        exact hfresh q hq hqid

theorem setPinned_inTurn (hp : e.pinned = some pinned) (h : InTurn hash s e (.setPinned id)) :
    Takes hash e s (s.write (.setPinned id pinned e.hlc)) ∨
      Stays hash e s (s.write (.setPinned id pinned e.hlc)) ∨
      e.deleted = some true ∧ HalfTakes hash e id s (s.write (.setPinned id pinned e.hlc)) := by
  have hrep' : (s.write (.setPinned id pinned e.hlc)).rep hash =
      (s.rep hash).map fun r => if r.id = id then repin pinned e.hlc r else r :=
    rep_of_map (rows_write_setPinned s id pinned e.hlc) (fun r => by split <;> rfl)
      fun r _ _ => by split <;> rfl
  cases hrep : s.rep hash with
  | none =>
    simp only [InTurn, hrep] at h
  | some r =>
    simp only [InTurn, hrep] at h
    rw [hrep, Option.map_some] at hrep'
    split at h
    next hid =>
      obtain ⟨hle, hrevive⟩ := h
      rw [if_pos hid] at hrep'
      have hbefore : ∀ q, s.rep hash = some q → q.hlc ≤ e.hlc := by
        intro q hq
        rw [← Option.some.inj (hrep.symm.trans hq)]
        exact hle
      have hpin : ∀ p, e.pinned = some p → (repin pinned e.hlc r).pinned = p :=
        fun p hp' => Option.some.inj (hp.symm.trans hp')
      by_cases hlater : e.deleted = some true ∧ r.deleted = false
      · exact .inr (.inr ⟨hlater.1, _, hrep', hid, rfl, hpin, hlater.2, hbefore⟩)
      · refine .inl ⟨_, hrep', ⟨rfl, hpin, fun deleted hdel => ?_⟩, hbefore⟩
        cases deleted with
        | false => exact hrevive hdel
        | true => exact Bool.eq_true_of_not_eq_false fun hf => hlater ⟨hdel, hf⟩
    next hid =>
      rw [if_neg hid] at hrep'
      refine .inr (.inl ⟨?_, r, hrep, h⟩)
      rw [Store.top, Store.top, hrep, hrep']

theorem delete_inTurn (hd : e.deleted = some true) (h : InTurn hash s e (.delete id)) :
    Takes hash e s (s.write (.delete id e.hlc now)) ∨
      Stays hash e s (s.write (.delete id e.hlc now)) ∧
        ∀ r, s.rep hash = some r → r.deleted = false → r.id ≠ id := by
  have hrows := rows_write_delete s id e.hlc now
  have hhash : ∀ r : ClipRow,
      (if r.id = id && !r.deleted then bury now e.hlc r else r).hash = r.hash :=
    fun r => by split <;> rfl
  cases hrep : s.rep hash with
  | none =>
    simp only [InTurn, hrep] at h
  | some r =>
    simp only [InTurn, hrep] at h
    split at h
    next hhit =>
      obtain ⟨hle, hpin, honly⟩ := h
      have hof : (s.write (.delete id e.hlc now)).rowsOf hash = [bury now e.hlc r] := by
        have hfilter : s.rows.filter ((fun r => decide (r.hash = hash)) ∘
            fun r => if r.id = id && !r.deleted then bury now e.hlc r else r) = [r] := by
          rw [← honly, rowsOf]
          exact List.filter_congr fun q _ => by rw [Function.comp_apply, hhash]
        rw [rowsOf, hrows, List.filter_map, hfilter, List.map_singleton, if_pos]
        simp [hhit.1, hhit.2]
      refine .inl ⟨bury now e.hlc r, by rw [rep_eq, hof, repOf_singleton], ⟨rfl, hpin, ?_⟩, ?_⟩
      · intro deleted hdel
        exact Option.some.inj (hd.symm.trans hdel)
      · intro q hq
        rw [← Option.some.inj (hrep.symm.trans hq)]
        exact hle
    next hmiss =>
      have hidle : ∀ q ∈ s.rows, q.hash = hash → ¬ (q.id = id && !q.deleted) := by
        intro q hq hqh hhit
        simp only [Bool.and_eq_true, decide_eq_true_eq, Bool.not_eq_true'] at hhit
        rw [rep_of_live hq hqh hhit.2] at hrep
        cases hrep
        exact hmiss hhit
      obtain ⟨hr, hrh⟩ := mem_of_rep hrep
      have hrep' : (s.write (.delete id e.hlc now)).rep hash = (s.rep hash).map fun r =>
          if r.id = id && !r.deleted then bury now e.hlc r else r :=
        rep_of_map hrows hhash fun q hq hqh => by rw [if_neg (hidle q hq hqh)]
      rw [hrep, Option.map_some, if_neg (hidle r hr hrh)] at hrep'
      refine .inr ⟨⟨?_, r, hrep, h⟩, fun q hq hqd hqid => ?_⟩
      · rw [Store.top, Store.top, hrep, hrep']
      · cases hq
        exact hmiss ⟨hqid, hqd⟩

end

/-! ## What a task is about to do -/

/-- The call writes the row of a clip. -/
def SyncCall.Writes : SyncCall → Prop
  | .insert _ | .setPinned _ | .delete _ => True
  | _ => False

/-- What is left of a task that writes no row any more. -/
def Rest {α : Type} (p : Session α) : Prop :=
  p.Calls fun (name : SyncCall) (f : SyncContext → SyncContext) =>
    ¬ name.Writes ∧ ∀ ctx, (f ctx).store = ctx.store

theorem rest_pure {α : Type} (a : α) : Rest (pure a : Session α) := trivial

theorem rest_emit (event : Event) : Rest (Session.emit event) :=
  Proc.calls_act ⟨id, fun _ => rfl⟩

theorem rest_record (c : Clip) : Rest (Session.record c) := Proc.calls_act ⟨id, fun _ => rfl⟩

theorem Rest.bind {α β : Type} {p : Session α} {k : α → Session β} (hp : Rest p)
    (hk : ∀ a, Rest (k a)) : Rest (p >>= k) := Proc.Calls.bind hp hk

/-- The row is not older than the time. -/
def Reached (hash : ContentHash) (s : Store) (hlc : Hlc) : Prop :=
  ∃ r, s.rep hash = some r ∧ hlc ≤ r.hlc

theorem Rest.advance {p : Session Unit} (h : Rest p) (ctx : SyncContext) :
    Rest (p.advance ctx).1 ∧ (p.advance ctx).2.store = ctx.store ∧
      ∀ name, p.next = some name → ¬ name.Writes := by
  obtain ⟨hp, ⟨hs, hn⟩ | ⟨name, f, hn, ⟨hw, hf⟩, hs⟩⟩ := Proc.Calls.advance h ctx
  · refine ⟨hp, by rw [hs], fun name hname => ?_⟩
    rw [hn] at hname
    cases hname
  · refine ⟨hp, by rw [hs, hf], fun name' hname => ?_⟩
    rw [hn] at hname
    cases hname
    exact hw

theorem Takes.reached (h : Takes hash e s s') : Reached hash s' e.hlc := by
  obtain ⟨r', hr', hcarried, -⟩ := h
  exact ⟨r', hr', hcarried.1.ge⟩

theorem Reached.of_top_eq {hlc : Hlc} (h : Reached hash s hlc) (htop : s'.top hash = s.top hash) :
    Reached hash s' hlc := by
  obtain ⟨r, hr, hle⟩ := h
  rw [Store.top, Store.top, hr, Option.map_some] at htop
  obtain ⟨r', hr', hsame⟩ := Option.map_eq_some_iff.1 htop
  have hhlc : r'.hlc = r.hlc := congrArg RowTop.hlc hsame
  exact ⟨r', hr', hhlc ▸ hle⟩

theorem Stays.reached (h : Stays hash e s s') : Reached hash s' e.hlc :=
  Reached.of_top_eq h.2 h.1

/-- What the next call of a task does to the row. -/
inductive Moves (hash : ContentHash) (event : Option ClipEvent) (p p' : Session Unit)
    (s s' : Store) : Prop
  | stays (htop : s'.top hash = s.top hash)
    (hidle : ∀ r, s.rep hash = some r → r.deleted = false → p.next ≠ some (.delete r.id))
  | takes {e : ClipEvent} (he : event = some e) (h : Takes hash e s s')
  | half {e : ClipEvent} {id : ClipId} (he : event = some e) (hd : e.deleted = some true)
    (h : HalfTakes hash e id s s') (hp : p'.next = some (.delete id))

theorem Moves.reached {event : Option ClipEvent} {p p' : Session Unit}
    (h : Moves hash event p p' s s') {hlc : Hlc} (hr : Reached hash s hlc) :
    Reached hash s' hlc := by
  cases h with
  | stays htop _ => exact hr.of_top_eq htop
  | takes _ h =>
    obtain ⟨r, hrep, hle⟩ := hr
    obtain ⟨r', hr', hcarried, hbefore⟩ := h
    exact ⟨r', hr', (hle.trans (hbefore r hrep)).trans hcarried.1.ge⟩
  | half _ _ h _ =>
    obtain ⟨r, hrep, hle⟩ := hr
    obtain ⟨r', hr', -, hhlc, -, -, hbefore⟩ := h
    exact ⟨r', hr', (hle.trans (hbefore r hrep)).trans hhlc.ge⟩

section
variable [Blake3]

/-- Where a task is in its program, by the event that it brings: before it has read the row, before
each of its writes, or past them. -/
inductive Standing (hash : ContentHash) (s : Store) : Option ClipEvent → Session Unit → Prop
  | reading (c : Clip) (hc : c.hash = hash) :
    Standing hash s (Writer.merge c).event (Writer.merge c).program
  | inserting {e : ClipEvent} {c : Clip} {k : InsertOutcome → Session Unit} (hm : c.hashMatches)
    (hc : c.hash = hash) (he : e.Carried (.of c)) (hk : ∀ o, Rest (k o)) :
    Standing hash s (some e) (Session.insert c >>= k)
  | pinning {e : ClipEvent} {id : ClipId} {pinned : Bool} {k : Unit → Session Unit}
    (hp : e.pinned = some pinned) (hd : e.deleted ≠ some true) (hk : Rest (k ())) :
    Standing hash s (some e) (Session.setPinned id pinned e.hlc >>= k)
  | pinningFirst {e : ClipEvent} {id : ClipId} {pinned : Bool} {k : Unit → Session Unit}
    (hp : e.pinned = some pinned) (hd : e.deleted = some true) (hk : ∀ u, Rest (k u)) :
    Standing hash s (some e)
      (Session.setPinned id pinned e.hlc >>= fun _ => Session.delete id e.hlc >>= k)
  | deleting {e : ClipEvent} {id : ClipId} {k : Unit → Session Unit} (hd : e.deleted = some true)
    (hk : ∀ u, Rest (k u)) : Standing hash s (some e) (Session.delete id e.hlc >>= k)
  | settled {event : Option ClipEvent} {p : Session Unit} (hp : Rest p)
    (hreached : ∀ e, event = some e → Reached hash s e.hlc) : Standing hash s event p

/-! ## One call -/

theorem Standing.mono {event : Option ClipEvent} {p : Session Unit}
    (h : Standing hash s event p) (hs : ∀ hlc, Reached hash s hlc → Reached hash s' hlc) :
    Standing hash s' event p := by
  cases h with
  | reading c hc => exact .reading c hc
  | inserting hm hc he hk => exact .inserting hm hc he hk
  | pinning hp hd hk => exact .pinning hp hd hk
  | pinningFirst hp hd hk => exact .pinningFirst hp hd hk
  | deleting hd hk => exact .deleting hd hk
  | settled hp hreached => exact .settled hp fun e he => hs _ (hreached e he)

section
variable {c : Clip} {id : ClipId} {pinned : Bool} {hlc : Hlc} (ctx : SyncContext)

theorem advance_insert {k : InsertOutcome → Session Unit} (hk : ∀ o, Rest (k o)) :
    Rest ((Session.insert c >>= k).advance ctx).1 ∧
      ((Session.insert c >>= k).advance ctx).2.store = ctx.store.write (.insert c) := by
  rw [Session.insert, Proc.advance_attempt]
  cases h : ctx.store.insert c with
  | error err => exact ⟨trivial, (write_eq_of_insert_error h).symm⟩
  | ok r => exact ⟨hk r.1, (write_eq_of_insert h).symm⟩

theorem advance_setPinned {k : Unit → Session Unit} :
    ((Session.setPinned id pinned hlc >>= k).advance ctx).2.store =
        ctx.store.write (.setPinned id pinned hlc) ∧
      (((Session.setPinned id pinned hlc >>= k).advance ctx).1 = k () ∨
        Rest ((Session.setPinned id pinned hlc >>= k).advance ctx).1 ∧
          ctx.store.write (.setPinned id pinned hlc) = ctx.store ∧
          ∀ r ∈ ctx.store.rows, r.id ≠ id) := by
  rw [Session.setPinned, Proc.advance_attempt]
  cases h : ctx.store.setPinned id pinned hlc with
  | error err =>
    have hsame := write_eq_of_setPinned_error h
    refine ⟨hsame.symm, .inr ⟨trivial, hsame, fun r hr hid => ?_⟩⟩
    obtain ⟨s', hs'⟩ := setPinned_of_mem ⟨r, hr, hid⟩ pinned hlc
    rw [h] at hs'
    cases hs'
  | ok s' => exact ⟨(write_eq_of_setPinned h).symm, .inl rfl⟩

theorem advance_delete {k : Unit → Session Unit} (hk : ∀ u, Rest (k u)) :
    Rest ((Session.delete id hlc >>= k).advance ctx).1 ∧
      ((Session.delete id hlc >>= k).advance ctx).2.store =
        ctx.store.write (.delete id hlc (ctx.time 0)) := by
  rw [Session.delete, Proc.advance_attempt]
  simp only [SyncContext.systemTime]
  cases h : ctx.store.delete id hlc (ctx.time 0) with
  | error err => exact ⟨trivial, (write_eq_of_delete_error h).symm⟩
  | ok s' => exact ⟨hk (), (write_eq_of_delete h).symm⟩

end

theorem event_merge {c : Clip} (hm : c.hashMatches) : (Writer.merge c).event =
    some { hlc := c.hlc, pinned := some c.pinned, deleted := some c.deleted } := by
  rw [Writer.event, if_pos hm]

/-- A merge has read the row: what it does next. -/
theorem standing_read (c : Clip) (hc : c.hash = hash) (ctx : SyncContext) :
    Standing hash ((Writer.merge c).program.advance ctx).2.store (Writer.merge c).event
        ((Writer.merge c).program.advance ctx).1 ∧
      ((Writer.merge c).program.advance ctx).2 = ctx := by
  rw [Writer.program, Session.apply, bind_assoc, Proc.advance_read, byHashIncludingDeleted_eq, hc]
  refine ⟨?_, rfl⟩
  cases hm : c.hashMatches with
  | false =>
    have hevent : (Writer.merge c).event = none := by
      rw [Writer.event, hm, if_neg Bool.false_ne_true]
    simp only [merge, hm, Bool.not_false, if_true, hevent]
    exact .settled (rest_pure ()) fun e he => by cases he
  | true =>
    rw [event_merge hm]
    cases hr : ctx.store.rep hash with
    | none =>
      simp only [merge, hm, Option.map_none, Bool.not_true, Bool.false_eq_true, if_false,
        bind_assoc]
      refine .inserting hm hc ⟨rfl, ?_, ?_⟩ fun o => ?_
      · exact fun pinned hp => Option.some.inj hp
      · exact fun deleted hd => Option.some.inj hd
      · exact (rest_emit _).bind fun _ => (rest_record c).bind fun _ => rest_pure _
    | some r =>
      by_cases hlt : r.hlc < c.hlc
      · have hmerge : merge (some r.toClip) c = .updateMetadata c.pinned c.deleted := by
          simp [merge, hm, ClipRow.toClip, hlt]
        simp only [Option.map_some, hmerge, Session.updateMetadata, bind_assoc]
        cases hd : c.deleted with
        | false =>
          refine .pinning rfl (by simp) ?_
          simp only [Bool.false_eq_true, if_false, bind_assoc]
          refine (Proc.calls_read ⟨id, fun _ => rfl⟩ : Rest _).bind fun updated => ?_
          cases updated with
          | none => exact (rest_record c).bind fun _ => rest_pure _
          | some u => exact (rest_emit _).bind fun _ => (rest_record c).bind fun _ => rest_pure _
        | true =>
          simp only [if_true, bind_assoc]
          refine .pinningFirst rfl rfl fun _ => ?_
          exact (rest_emit _).bind fun _ => (rest_record c).bind fun _ => rest_pure _
      · have hmerge : merge (some r.toClip) c = .ignore := by
          simp [merge, hm, ClipRow.toClip, hlt]
        simp only [Option.map_some, hmerge]
        refine .settled (rest_pure ()) fun e he => ?_
        cases he
        exact ⟨r, hr, not_lt.1 hlt⟩

/-- **One call of a task**: where the task stands then, and what has become of the row. -/
theorem Standing.advance {ctx : SyncContext} {event : Option ClipEvent} {p : Session Unit}
    (h : Standing hash ctx.store event p)
    (hio : ∀ e name, event = some e → p.next = some name → InTurn hash ctx.store e name) :
    Standing hash (p.advance ctx).2.store event (p.advance ctx).1 ∧
      Moves hash event p (p.advance ctx).1 ctx.store (p.advance ctx).2.store := by
  cases h with
  | reading c hc =>
    obtain ⟨hstanding, hctx⟩ := standing_read c hc ctx
    refine ⟨hstanding, .stays (by rw [hctx]) fun r _ _ hn => ?_⟩
    cases hn
  | inserting hm hc he hk =>
    obtain ⟨hrest, hstore⟩ := advance_insert ctx hk
    rw [hstore]
    rcases insert_inTurn hm hc he (hio _ _ rfl rfl) with h | h
    · exact ⟨.settled hrest fun e' he' => Option.some.inj he' ▸ h.reached, .takes rfl h⟩
    · refine ⟨.settled hrest fun e' he' => Option.some.inj he' ▸ h.reached, .stays h.1 ?_⟩
      exact fun r _ _ hn => nomatch hn
  | pinning hp hd hk =>
    obtain ⟨hstore, hprog⟩ := advance_setPinned ctx
    rw [hstore]
    have hrest := hprog.elim (fun hp' => hp' ▸ hk) fun hp' => hp'.1
    rcases setPinned_inTurn hp (hio _ _ rfl rfl) with h | h | ⟨hd', -⟩
    · exact ⟨.settled hrest fun e' he' => Option.some.inj he' ▸ h.reached, .takes rfl h⟩
    · refine ⟨.settled hrest fun e' he' => Option.some.inj he' ▸ h.reached, .stays h.1 ?_⟩
      exact fun r _ _ hn => nomatch hn
    · exact absurd hd' hd
  | pinningFirst hp hd hk =>
    obtain ⟨hstore, hprog⟩ := advance_setPinned ctx
    rw [hstore]
    rcases hprog with hprog | ⟨hrest, hsame, hnone⟩
    · rw [hprog]
      refine ⟨.deleting hd hk, ?_⟩
      rcases setPinned_inTurn hp (hio _ _ rfl rfl) with h | h | ⟨-, h⟩
      · exact .takes rfl h
      · exact .stays h.1 fun r _ _ hn => nomatch hn
      · exact .half rfl hd h rfl
    · rcases setPinned_inTurn hp (hio _ _ rfl rfl) with h | h | ⟨-, h⟩
      · exact ⟨.settled hrest fun e' he' => Option.some.inj he' ▸ h.reached, .takes rfl h⟩
      · refine ⟨.settled hrest fun e' he' => Option.some.inj he' ▸ h.reached, .stays h.1 ?_⟩
        exact fun r _ _ hn => nomatch hn
      · -- the call has failed: there is no such row
        obtain ⟨r', hr', hid, -⟩ := h
        rw [hsame] at hr'
        exact absurd hid (hnone r' (mem_of_rep hr').1)
  | deleting hd hk =>
    obtain ⟨hrest, hstore⟩ := advance_delete ctx hk
    rw [hstore]
    rcases delete_inTurn hd (hio _ _ rfl rfl) with h | ⟨h, hidle⟩
    · exact ⟨.settled hrest fun e' he' => Option.some.inj he' ▸ h.reached, .takes rfl h⟩
    · refine ⟨.settled hrest fun e' he' => Option.some.inj he' ▸ h.reached, .stays h.1 ?_⟩
      intro r hr hlive hn
      refine hidle r hr hlive ?_
      cases hn
      rfl
  | settled hp hreached =>
    obtain ⟨hrest, hstore, hn⟩ := hp.advance ctx
    rw [hstore]
    exact ⟨.settled hrest hreached, .stays rfl fun r _ _ hname => hn _ hname trivial⟩

theorem Standing.reached_of_ended {event : Option ClipEvent} {p : Session Unit}
    (h : Standing hash s event p) (hp : p.Ended) (he : event = some e) : Reached hash s e.hlc := by
  cases h with
  | settled _ hreached => exact hreached e he
  | reading | inserting | pinning | pinningFirst | deleting => exact hp.elim

theorem standing_start {w : Writer} (hw : w.Writes hash) : Standing hash s w.event w.program := by
  cases w with
  | merge c => exact .reading c hw
  | capture id payloads source hlc =>
    have hm : (Clip.new id payloads source hlc).hashMatches := by
      simp [Clip.hashMatches, Clip.new]
    refine .inserting hm hw ⟨rfl, ?_, ?_⟩ fun _ => rest_pure ()
    · exact fun pinned hp => by cases hp
    · exact fun deleted hd => Option.some.inj hd
  | setPinned id pinned hlc =>
    have h : Standing hash s (Writer.setPinned id pinned hlc).event
        (Session.setPinned id pinned hlc >>= pure) := .pinning rfl (by simp) (rest_pure ())
    rwa [bind_pure] at h
  | delete id hlc =>
    have h : Standing hash s (Writer.delete id hlc).event (Session.delete id hlc >>= pure) :=
      .deleting rfl fun _ => rest_pure ()
    rwa [bind_pure] at h

/-! ## Runs -/

namespace Writing

variable {ι : Type} [DecidableEq ι] {ctx : SyncContext} {writers : ι → Writer} {t : Writing ι}

/-- The writer's next call comes in turn. -/
def InTurn (hash : ContentHash) (writers : ι → Writer) (t : Writing ι) (i : ι) : Prop :=
  ∀ e name, (writers i).event = some e → (t.programs i).next = some name →
    Clipse.InTurn hash t.state.store e name

/-- The row carries an event that was said, or a writer is about to delete it and has already
stamped it; no writer that is done has said anything newer. -/
structure Settling (hash : ContentHash) (ctx : SyncContext) (writers : ι → Writer)
    (t : Writing ι) : Prop where
  standing : ∀ i, Standing hash t.state.store (writers i).event (t.programs i)
  before : ∀ r, ctx.store.rep hash = some r → Reached hash t.state.store r.hlc
  carries : ∀ r, t.state.store.rep hash = some r → ∃ e, Said hash ctx writers e ∧ r.hlc = e.hlc ∧
    (∀ pinned, e.pinned = some pinned → r.pinned = pinned) ∧
    ((∀ deleted, e.deleted = some deleted → r.deleted = deleted) ∨
      r.deleted = false ∧ ∃ i, (t.programs i).next = some (.delete r.id))

omit [DecidableEq ι] in
theorem settling_start (hw : ∀ i, (writers i).Writes hash) :
    Settling hash ctx writers (start ctx writers) where
  standing i := standing_start (hw i)
  before r hr := ⟨r, hr, le_refl _⟩
  carries r hr := by
    refine ⟨.of r, .inl ⟨r, hr, rfl⟩, rfl, ?_, .inl ?_⟩
    · exact fun pinned hp => Option.some.inj hp
    · exact fun deleted hd => Option.some.inj hd

theorem Settling.step (h : Settling hash ctx writers t) {i : ι}
    (hio : InTurn hash writers t i) : Settling hash ctx writers (t.step i) := by
  obtain ⟨hstanding, hmoves⟩ := (h.standing i).advance hio
  refine ⟨fun j => ?_, fun r hr => hmoves.reached (h.before r hr), fun r' hr' => ?_⟩
  · by_cases hj : j = i
    · subst hj
      rw [Tasks.programs_step_self]
      exact hstanding
    · rw [Tasks.programs_step_of_ne t hj]
      exact (h.standing j).mono fun _ => hmoves.reached
  · cases hmoves with
    | stays htop hidle =>
      obtain ⟨r, hr, hsame⟩ := exists_of_top_eq htop hr'
      obtain ⟨hid, hhlc, hpinned, hdeleted⟩ := RowTop.mk.injEq .. ▸ hsame
      obtain ⟨e, hsaid, he, hp, hd⟩ := h.carries r hr
      rw [hhlc] at he
      rw [hpinned] at hp
      refine ⟨e, hsaid, he, hp, ?_⟩
      rcases hd with hd | ⟨hlive, j, hnext⟩
      · rw [hdeleted] at hd
        exact .inl hd
      · -- the task that is about to delete the row is another
        have hj : j ≠ i := by
          rintro rfl
          exact hidle r hr hlive hnext
        refine .inr ⟨hdeleted ▸ hlive, j, ?_⟩
        rw [Tasks.programs_step_of_ne t hj, ← hid]
        exact hnext
    | takes he htakes =>
      obtain ⟨r, hr, ⟨hhlc, hp, hd⟩, -⟩ := htakes
      cases hr.symm.trans hr'
      exact ⟨_, .inr ⟨i, he⟩, hhlc, hp, .inl hd⟩
    | half he hd hhalf hnext =>
      obtain ⟨r, hr, hid, hhlc, hp, hlive, -⟩ := hhalf
      cases hr.symm.trans hr'
      refine ⟨_, .inr ⟨i, he⟩, hhlc, hp, .inr ⟨hlive, i, ?_⟩⟩
      rw [Tasks.programs_step_self, hid]
      exact hnext

theorem Settling.lastWins {schedule : List ι}
    (h : Settling hash ctx writers (run ctx writers schedule)) :
    LastWins hash ctx writers schedule := by
  rintro hended ⟨e₀, he₀⟩
  have hreached : ∀ e, Said hash ctx writers e →
      Reached hash (run ctx writers schedule).state.store e.hlc := by
    rintro e (⟨r, hr, rfl⟩ | ⟨i, hi⟩)
    · exact h.before r hr
    · exact (h.standing i).reached_of_ended (hended i) hi
  obtain ⟨r, hr, -⟩ := hreached e₀ he₀
  obtain ⟨e, hsaid, hhlc, hp, hd⟩ := h.carries r hr
  refine ⟨r, e, hr, hsaid, fun e' he' => ?_, hhlc, hp, ?_⟩
  · obtain ⟨r', hr', hle⟩ := hreached e' he'
    rw [← hhlc, ← Option.some.inj (hr'.symm.trans hr)]
    exact hle
  · rcases hd with hd | ⟨-, i, hnext⟩
    · exact hd
    · rw [Proc.next_of_ended (hended i)] at hnext
      cases hnext

/-- **The last writer wins** in every run whose calls come in turn, whatever the interleaving. -/
theorem last_writer_wins (hash : ContentHash) (ctx : SyncContext) (writers : ι → Writer)
    (hw : ∀ i, (writers i).Writes hash) (schedule : List ι)
    (hio : Stepwise Tasks.step (InTurn hash writers) (start ctx writers) schedule) :
    LastWins hash ctx writers schedule :=
  (hio.invariant (fun _ _ h hi => Settling.step h hi) (settling_start hw)).lastWins

end Writing

end

/-! ## Two sessions at once -/

namespace Writing

section Examples

attribute [local instance] Blake3.examples

/-- A device without clips. -/
def fresh : SyncContext := .start (.open_ 0) (.repeated 1) fun _ => 0

/-- One session brings a copy of the time 20, the other one of the time 10. -/
def twoCopies : Bool → Writer
  | true => .merge (Clip.hi 1 (.repeated 2) ⟨20, 0, .repeated 2⟩)
  | false => .merge (Clip.hi 2 (.repeated 3) ⟨10, 0, .repeated 3⟩)

/-- Both look for a row before either inserts one. -/
def bothLook : List Bool := [true, false, true, false, true, true, false, false]

theorem not_last_writer_wins : ¬ LastWins Clip.hiContent fresh twoCopies bothLook := by
  intro h
  obtain ⟨r, e, hr, -, hmax, hhlc, -⟩ :=
    h (by decide +kernel) ⟨_, .inr ⟨true, event_merge (by decide +kernel)⟩⟩
  have hten : ((run fresh twoCopies bothLook).state.store.rep Clip.hiContent).map (·.hlc) =
      some ⟨10, 0, .repeated 3⟩ := by decide +kernel
  rw [hr, Option.map_some, hhlc] at hten
  have htwenty := hmax _ (.inr ⟨true, event_merge (by decide +kernel)⟩)
  rw [Option.some.inj hten] at htwenty
  exact absurd htwenty (by decide)

/-- What both sessions bring when they bring the same copy. -/
def copy : Clip := Clip.hi 1 (.repeated 2) ⟨20, 0, .repeated 2⟩

def sameCopy (_ : Bool) : Writer := .merge copy

/-- The second insert renews the row that the first one has made. -/
theorem last_writer_wins_same : LastWins copy.hash fresh sameCopy bothLook := by
  have hevent := event_merge (c := copy) (by decide +kernel)
  have hquiet : ∀ {t : Writing Bool} {i : Bool} (name : SyncCall), ¬ name.Writes →
      (t.programs i).next = some name → InTurn copy.hash sameCopy t i := by
    intro t i name hname hn e name' _ hn'
    cases hn.symm.trans hn'
    cases name with
    | insert | setPinned | delete => exact absurd trivial hname
    | _ => trivial
  have hinsert : ∀ {t : Writing Bool} {i : Bool}, (t.programs i).next = some (.insert copy) →
      (t.state.store.rep copy.hash = none ∧ t.state.store.Accepts copy ∨
        t.state.store.rep copy.hash = some (.of copy)) → InTurn copy.hash sameCopy t i := by
    rintro t i hn hrep e name he hn'
    cases hn.symm.trans hn'
    cases hevent.symm.trans he
    rcases hrep with ⟨hrep, haccepts⟩ | hrep
    · simp only [Clipse.InTurn, hrep]
      exact haccepts
    · simp only [Clipse.InTurn, hrep]
      exact .inl rfl
  refine last_writer_wins copy.hash fresh sameCopy (fun _ => rfl) bothLook
    ⟨?_, ?_, ?_, ?_, ?_, ?_, ?_, ?_, trivial⟩
  · exact hquiet (.lookup copy.hash) id (by decide +kernel)
  · exact hquiet (.lookup copy.hash) id (by decide +kernel)
  · exact hinsert (by decide +kernel) (.inl (by decide +kernel))
  · exact hinsert (by decide +kernel) (.inr (by decide +kernel))
  · exact hquiet .emit id (by decide +kernel)
  · exact hquiet (.recordReceived copy.hash) id (by decide +kernel)
  · exact hquiet .emit id (by decide +kernel)
  · exact hquiet (.recordReceived copy.hash) id (by decide +kernel)

end Examples

end Writing
end Clipse
