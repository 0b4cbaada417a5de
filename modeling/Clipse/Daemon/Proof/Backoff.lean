import Clipse.Daemon.DialLoop
import Clipse.Daemon.Proof.Peers
import Clipse.Lib.Stepwise

/-!
# Waiting for a peer that cannot be reached (`clipsed/src/peers.rs`)

`sync_one` asks the backoff of a device that it could not reach for a delay and only logs it: every
pass dials every device that does not refuse us. A tick comes 30 seconds after the last dial at the
earliest, so only a tick after the seventh dial in a row that reached nobody can be too early; a nudge
can always be (`backoff_honoured_iff`).

`DialHistory` remembers of each device the last dial that reached nobody. That its delay is the one
that the number of such dials makes it is an invariant of the backoff; that a tick's pass finds every
device before it rested is one of the loop.
-/

namespace Clipse

/-! ## The delays -/

namespace Backoff

/-- The backoff after so many dials in a row that reached nobody. -/
def after (failures : Nat) : Backoff := { default_ with attempt := min failures (2 ^ 32 - 1) }

/-- The delay, in milliseconds, that follows one more. -/
def delayAfter (failures : Nat) : Nat := min (500 * 2 ^ failures) 60000

theorem delayAfter_of_le {failures : Nat} (h : 7 ≤ failures) : delayAfter failures = 60000 := by
  have hpow : 2 ^ 7 ≤ 2 ^ failures := Nat.pow_le_pow_right (by decide) h
  unfold delayAfter
  omega

/-- Counting and shifting saturate long after the delay does. -/
theorem nextDelayMs_after (failures : Nat) :
    (after failures).nextDelayMs = (delayAfter failures, after (failures + 1)) := by
  have hdelay : ∀ attempt, ({ default_ with attempt } : Backoff).nextDelayMs.1 =
      delayAfter attempt := by
    intro attempt
    unfold nextDelayMs delayAfter default_
    by_cases h : attempt < 64
    · simp only [h, if_true]
      omega
    · have hpin := delayAfter_of_le (show 7 ≤ attempt by omega)
      unfold delayAfter at hpin
      rw [hpin]
      simp only [h, if_false]
      omega
  have hattempt : min (min failures (2 ^ 32 - 1) + 1) (2 ^ 32 - 1) =
      min (failures + 1) (2 ^ 32 - 1) := by omega
  refine Prod.ext ((hdelay _).trans ?_) (congrArg (Backoff.mk 500 60000) hattempt)
  rcases Nat.lt_or_ge failures 7 with h | h
  · rw [Nat.min_eq_left (by omega)]
  · rw [delayAfter_of_le h, delayAfter_of_le (by omega)]

theorem reset_after (failures : Nat) : (after failures).reset = after 0 := by
  simp [after, reset]

theorem delayAfter_le_dialTick {failures : Nat} (h : failures < 6) :
    delayAfter failures ≤ dialTick := by
  have hpow : 2 ^ failures ≤ 2 ^ 5 := Nat.pow_le_pow_right (by decide) (by omega)
  unfold delayAfter dialTick
  omega

end Backoff

/-! ## What resets a backoff, and what counts -/

/-- What an operation is to the backoff of a device. -/
inductive BackoffNews where
  | nothing
  /-- A sighting by discovery, or a session that completed. -/
  | reset
  /-- A dial reached nobody, and `next_delay_ms` returned this. -/
  | missed (delay : Nat)
  /-- The device has been forgotten, or is new. -/
  | renewed

/-- How many dials in a row have reached nobody. -/
@[simp] def BackoffNews.count : BackoffNews → Nat → Nat
  | nothing, failures => failures
  | reset, _ => 0
  | missed _, failures => failures + 1
  | renewed, _ => 0

/-- Discovery has found the device. -/
def sighted (events : List DiscoveryEvent) (peer : DeviceId) : Bool :=
  events.any fun event => !(event.foundFor peer).isEmpty

/-- The device that `sync_one` is dialling. -/
def Phase.dialled : Phase → Option DeviceId
  | dialling _ peer _ => some peer
  | _ => none

namespace DialLoop

variable {s s' : DialLoop} {now : Nat} {op : DialOp} {peer : DeviceId}

/-- The news for a device that the table has. -/
def newsOf (s : DialLoop) (op : DialOp) (peer : DeviceId) (state : PeerState) : BackoffNews :=
  match op with
  | .tick events _ => if sighted events peer then .reset else .nothing
  | .inbound dialler _ _ _ _ => if dialler = peer then .reset else .nothing
  | .ended (.synced ..) => if s.phase.dialled = some peer then .reset else .nothing
  | .ended (.failed e) =>
    if s.phase.dialled = some peer ∧ e.isRetryable then .missed state.backoff.nextDelayMs.1
    else .nothing
  | .reload => if (s.manager.trust.peer peer).isNone then .renewed else .nothing
  | _ => .nothing

def news (s : DialLoop) (op : DialOp) (peer : DeviceId) : BackoffNews :=
  match s.manager.peers peer with
  | none => .renewed
  | some state => s.newsOf op peer state

/-- The backoff of the device, if it has one, has counted so many dials. -/
def Counts (m : PeerManager) (peer : DeviceId) (failures : Nat) : Prop :=
  ∀ state, m.peers peer = some state → state.backoff = .after failures

theorem counts_of_none {m : PeerManager} {failures : Nat} (h : m.peers peer = none) :
    Counts m peer failures := by
  intro state hs
  rw [h] at hs
  cases hs

theorem Counts.update {m : PeerManager} {failures failures' : Nat} {f : PeerState → PeerState}
    (h : Counts m peer failures)
    (hf : ∀ state, state.backoff = .after failures → (f state).backoff = .after failures') :
    Counts (m.update peer f) peer failures' := by
  intro state' hs'
  rw [PeerManager.peers_update, if_pos rfl, Option.map_eq_some_iff] at hs'
  obtain ⟨state, hs, rfl⟩ := hs'
  exact hf state (h state hs)

/-- Updating one device does nothing to another. -/
theorem Counts.update_other {m : PeerManager} {failures : Nat} {d : DeviceId}
    {f : PeerState → PeerState} (h : Counts m peer failures) (hd : d ≠ peer) :
    Counts (m.update d f) peer failures := by
  intro state hs
  rw [PeerManager.peers_update, if_neg hd.symm] at hs
  exact h state hs

theorem Counts.refreshFromDiscovery {m : PeerManager} {failures : Nat}
    (h : Counts m peer failures) (events : List DiscoveryEvent) (nowMs : UInt64) :
    Counts (m.refreshFromDiscovery events nowMs) peer
      (if sighted events peer then 0 else failures) := by
  unfold PeerManager.refreshFromDiscovery
  induction events generalizing m failures with
  | nil => exact h
  | cons event events ih =>
    by_cases hfound : event.foundFor peer = []
    · have hsame : Counts (m.handleEvent nowMs event) peer failures := by
        intro state hs
        rw [PeerManager.peers_handleEvent hfound] at hs
        exact h state hs
      simpa [sighted, hfound] using ih hsame
    · cases event with
      | lost | incompatible => exact absurd rfl hfound
      | found device addresses hne =>
        obtain rfl : device = peer := by
          by_contra hd
          exact hfound (if_neg hd)
        have hreset : Counts (m.handleEvent nowMs (.found device addresses hne)) device 0 := by
          apply h.update
          intro state hs
          rw [PeerState.refresh, hs]
          rfl
        simpa [sighted, hfound] using ih hreset

/-- **One step**: the backoff of a device counts the dials that reached nobody. -/
theorem Step.counts {failures : Nat} (h : s.Step now op s') (hc : Counts s.manager peer failures) :
    Counts s'.manager peer ((s.news op peer).count failures) := by
  cases hs : s.manager.peers peer with
  | none =>
    rw [news, hs]
    have hnone : ∀ d f, (s.manager.update d f).peers peer = none := by
      intro d f
      rw [PeerManager.peers_update, hs]
      exact ite_self _
    cases h with
    | nudge | notified | begin | dial | skip | rest | trust => exact counts_of_none hs
    | tick hnow hphase events nowMs =>
      exact counts_of_none (PeerManager.refreshFromDiscovery_none hs)
    | ended hnow hphase outcome =>
      cases outcome with
      | synced | failed => exact counts_of_none (hnone _ _)
      | broken => exact counts_of_none hs
    | inbound hnow dialler addr reachability nowMs nowMs' => exact counts_of_none (hnone _ _)
    | reload =>
      intro state hs'
      simp only [PeerManager.reloadFromTrust, hs] at hs'
      split at hs'
      · cases hs'
      · cases hs'
        rfl
  | some state =>
    rw [news, hs]
    dsimp only
    cases h with
    | nudge | notified | begin | dial | skip | rest | trust => exact hc
    | tick hnow hphase events nowMs =>
      have hrefresh := hc.refreshFromDiscovery events nowMs
      rw [newsOf]
      cases hsight : sighted events peer with
      | true => simpa [hsight] using hrefresh
      | false => simpa [hsight] using hrefresh
    | ended hnow hphase outcome =>
      rename_i trigger dialled due
      have hdialled : s.phase.dialled = some dialled := by rw [hphase]; rfl
      have hother : ∀ {f}, dialled ≠ peer →
          Counts (s.manager.update dialled f) peer failures := hc.update_other
      cases outcome with
      | broken => exact hc
      | synced addr reachability nowMs nowMs' =>
        simp only [newsOf, hdialled, Option.some.injEq]
        split
        · next hd =>
          subst hd
          apply hc.update
          intro state hstate
          exact (congrArg Backoff.reset hstate).trans (Backoff.reset_after _)
        · next hd => exact hother hd
      | failed e =>
        simp only [newsOf, hdialled, Option.some.injEq]
        by_cases hd : dialled = peer
        · subst hd
          apply hc.update
          intro state hstate
          rw [PeerState.noteFailure]
          cases he : e.isRetryable with
          | true => simp [hstate, Backoff.nextDelayMs_after]
          | false => simpa using hstate
        · rw [if_neg (fun h => hd h.1)]
          exact hother hd
    | inbound hnow dialler addr reachability nowMs nowMs' =>
      rw [newsOf]
      split
      · next hd =>
        subst hd
        apply hc.update
        intro state hstate
        exact (congrArg Backoff.reset hstate).trans (Backoff.reset_after _)
      · next hd => exact hc.update_other hd
    | reload =>
      intro state' hs'
      rw [newsOf]
      cases hp : s.manager.trust.peer peer with
      | none =>
        simp only [PeerManager.reloadFromTrust, hp] at hs'
        cases hs'
      | some record =>
        simp only [PeerManager.reloadFromTrust, hp, hs] at hs'
        cases hs'
        exact hc state hs

end DialLoop

/-! ## Runs -/

/-- A dial that reached nobody. -/
structure Miss where
  ended : Nat
  /-- What `next_delay_ms` returned. -/
  delay : Nat
  /-- How many dials of the device in a row had reached nobody before. -/
  before : Nat

def BackoffNews.lastMiss (now failures : Nat) (last : Option Miss) : BackoffNews → Option Miss
  | nothing | renewed => last
  | reset => none
  | missed delay => some { ended := now, delay, before := failures }

/-- The loop, and what has come of dialling each device. -/
structure DialHistory where
  loop : DialLoop
  /-- The last dial that reached nobody, unless the backoff was reset since. -/
  missed : DeviceId → Option Miss
  /-- How many dials in a row have reached nobody. -/
  failures : DeviceId → Nat

namespace DialHistory

open DialLoop

/-- What is remembered of a step that led to `loop`. -/
def record (w : DialHistory) (now : Nat) (op : DialOp) (loop : DialLoop) : DialHistory where
  loop
  missed peer := (w.loop.news op peer).lastMiss now (w.failures peer) (w.missed peer)
  failures peer := (w.loop.news op peer).count (w.failures peer)

/-- One operation, at a time. -/
def Step (w : DialHistory) (a : Nat × DialOp) (w' : DialHistory) : Prop :=
  w.loop.Step a.1 a.2 w'.loop ∧ w' = w.record a.1 a.2 w'.loop

/-- The daemon starts. -/
def start (identity : DeviceIdentity) (trust : Trust) : DialHistory :=
  { loop := .start identity trust, missed := fun _ => none, failures := fun _ => 0 }

/-- A dial that begins does so when the delay that the last one left has elapsed. -/
def Honours (w : DialHistory) (a : Nat × DialOp) (w' : DialHistory) : Prop :=
  a.2 = .turn → ∀ peer, w'.loop.phase.dialled = some peer →
    ∀ miss, w.missed peer = some miss → miss.ended + miss.delay ≤ a.1

/-- A pass that a nudge made, and any pass after seven dials in a row that reached nobody, comes to a
device that does not refuse us when its delay has elapsed. -/
def Patient (w : DialHistory) (a : Nat × DialOp) (_ : DialHistory) : Prop :=
  a.2 = .turn → ∀ trigger peer due, w.loop.phase = .pass trigger (peer :: due) →
    w.loop.manager.Due peer → ∀ miss, w.missed peer = some miss →
      trigger = .nudge ∨ 6 ≤ miss.before → miss.ended + Backoff.delayAfter miss.before ≤ a.1

variable {w w' : DialHistory} {a : Nat × DialOp} {peer : DeviceId} {miss : Miss}

/-- A tick has gone by since the device was last dialled in vain. -/
def Rested (w : DialHistory) (peer : DeviceId) : Prop :=
  ∀ miss, w.missed peer = some miss → miss.ended + dialTick ≤ w.loop.clock

/-- What a tick's pass has still before it is rested. -/
def Timely (w : DialHistory) : Phase → Prop
  | .starting => ∀ peer, w.missed peer = none
  | .waiting since => ∀ peer miss, w.missed peer = some miss → miss.ended ≤ since
  | .called .tick => ∀ peer, w.Rested peer
  | .pass .tick due => due.Nodup ∧ ∀ peer ∈ due, w.Rested peer
  | .dialling .tick peer due => (peer :: due).Nodup ∧ ∀ peer ∈ due, w.Rested peer
  | .called .nudge | .pass .nudge _ | .dialling .nudge _ _ => True

/-- What holds in every state of the loop. -/
structure Good (w : DialHistory) : Prop where
  counts : ∀ peer, Counts w.loop.manager peer (w.failures peer)
  delay : ∀ peer miss, w.missed peer = some miss →
    miss.delay = Backoff.delayAfter miss.before ∧ miss.ended ≤ w.loop.clock
  timely : w.Timely w.loop.phase

theorem good_start (identity : DeviceIdentity) (trust : Trust) : (start identity trust).Good := by
  refine ⟨fun peer state hs => ?_, fun peer miss hm => (nomatch hm), fun peer => rfl⟩
  unfold start DialLoop.start PeerManager.new PeerManager.reloadFromTrust at hs
  dsimp only at hs
  split at hs
  · cases hs
  · cases hs
    rfl

theorem Step.clock_le (h : w.Step a w') : w.loop.clock ≤ w'.loop.clock := by
  obtain ⟨now, op⟩ := a
  obtain ⟨loop', missed', failures'⟩ := w'
  obtain ⟨h, -⟩ := h
  cases h <;> assumption

theorem Step.clock_eq (h : w.Step a w') : w'.loop.clock = a.1 := by
  obtain ⟨now, op⟩ := a
  obtain ⟨loop', missed', failures'⟩ := w'
  obtain ⟨h, -⟩ := h
  cases h <;> rfl

/-- What is remembered of a device changes when a dial of it has reached nobody. -/
theorem Good.missed_step (hw : w.Good) (h : w.Step a w') (hm : w'.missed peer = some miss) :
    w.missed peer = some miss ∨
      (∃ outcome, a.2 = .ended outcome) ∧ w.loop.phase.dialled = some peer ∧
        miss = ⟨a.1, Backoff.delayAfter (w.failures peer), w.failures peer⟩ := by
  obtain ⟨now, op⟩ := a
  rw [h.2] at hm
  change (w.loop.news op peer).lastMiss now (w.failures peer) (w.missed peer) = some miss at hm
  cases hnews : w.loop.news op peer with
  | nothing | renewed => exact .inl (by rwa [hnews] at hm)
  | reset =>
    rw [hnews] at hm
    cases hm
  | missed delay =>
    rw [hnews] at hm
    cases hm
    unfold news at hnews
    split at hnews
    · cases hnews
    · next state hs =>
      have hdelay : state.backoff.nextDelayMs.1 = Backoff.delayAfter (w.failures peer) := by
        rw [hw.counts peer state hs, Backoff.nextDelayMs_after]
      unfold newsOf at hnews
      split at hnews <;> try split at hnews
      all_goals cases hnews
      next hd => exact .inr ⟨⟨_, rfl⟩, hd.1, by rw [hdelay]⟩

/-- Later, with nothing more remembered. -/
theorem Timely.mono {phase : Phase} (h : w.Timely phase)
    (hm : ∀ peer miss, w'.missed peer = some miss → w.missed peer = some miss)
    (hclock : w.loop.clock ≤ w'.loop.clock) : w'.Timely phase := by
  have hrest : ∀ peer, w.Rested peer → w'.Rested peer := fun peer hr miss hmiss =>
    Nat.le_trans (hr miss (hm peer miss hmiss)) hclock
  unfold Timely at h ⊢
  split at h
  · intro peer
    cases hmiss : w'.missed peer with
    | none => rfl
    | some miss =>
      have hold := hm peer miss hmiss
      rw [h peer] at hold
      cases hold
  · exact fun peer miss hmiss => h peer miss (hm peer miss hmiss)
  · exact fun peer => hrest peer (h peer)
  · exact ⟨h.1, fun peer hp => hrest peer (h.2 peer hp)⟩
  · exact ⟨h.1, fun peer hp => hrest peer (h.2 peer hp)⟩
  · trivial
  · trivial
  · trivial

/-- **One step** of the loop keeps what it may count on. -/
theorem Good.step (hw : w.Good) (h : w.Step a w') : w'.Good := by
  have hclock := h.clock_le
  refine ⟨fun peer => ?_, fun peer miss hm => ?_, ?_⟩
  · rw [h.2]
    exact h.1.counts (hw.counts peer)
  · rcases hw.missed_step h hm with hm | ⟨-, -, rfl⟩
    · exact ⟨(hw.delay peer miss hm).1, Nat.le_trans (hw.delay peer miss hm).2 hclock⟩
    · exact ⟨rfl, h.clock_eq.ge⟩
  · have hsame : (∀ outcome, a.2 ≠ .ended outcome) →
        ∀ peer miss, w'.missed peer = some miss → w.missed peer = some miss := by
      intro hne peer miss hm
      exact (hw.missed_step h hm).resolve_right fun ⟨⟨outcome, ho⟩, _⟩ => hne outcome ho
    have hmissed := fun (peer : DeviceId) (miss : Miss) (hm : w'.missed peer = some miss) =>
      hw.missed_step h hm
    have htimely := hw.timely
    obtain ⟨now, op⟩ := a
    obtain ⟨loop', missed', failures'⟩ := w'
    obtain ⟨h, -⟩ := h
    cases h with
    | nudge | inbound | reload | trust => exact htimely.mono (hsame nofun) hclock
    | notified => trivial
    | tick hnow hphase events nowMs =>
      intro peer miss hm
      have hm := hsame nofun peer miss hm
      rcases hphase with hphase | ⟨since, hphase, hsince⟩
      · rw [hphase] at htimely
        rw [htimely peer] at hm
        cases hm
      · rw [hphase] at htimely
        exact Nat.le_trans (Nat.add_le_add_right (htimely peer miss hm) dialTick) hsince
    | @begin trigger due hnow hphase hnodup hdue =>
      rw [hphase] at htimely
      cases trigger with
      | nudge => trivial
      | tick =>
        have htimely := htimely.mono (hsame nofun) hclock
        exact ⟨hnodup, fun peer _ => htimely peer⟩
    | @dial trigger peer due hnow hphase hdue =>
      rw [hphase] at htimely
      cases trigger with
      | nudge => trivial
      | tick =>
        obtain ⟨hnodup, hrest⟩ := htimely.mono (hsame nofun) hclock
        exact ⟨hnodup, fun d hd => hrest d (List.mem_cons_of_mem peer hd)⟩
    | @skip trigger peer due hnow hphase hdue =>
      rw [hphase] at htimely
      cases trigger with
      | nudge => trivial
      | tick =>
        obtain ⟨hnodup, hrest⟩ := htimely.mono (hsame nofun) hclock
        exact ⟨hnodup.of_cons, fun d hd => hrest d (List.mem_cons_of_mem peer hd)⟩
    | @ended trigger peer due hnow hphase outcome =>
      rw [hphase] at htimely
      cases trigger with
      | nudge => trivial
      | tick =>
        obtain ⟨hnodup, hrest⟩ := htimely
        refine ⟨hnodup.of_cons, fun d hd miss hm => ?_⟩
        rcases hmissed d miss hm with hm | ⟨-, hdialled, -⟩
        · exact Nat.le_trans (hrest d hd miss hm) hnow
        · rw [hphase] at hdialled
          cases hdialled
          exact absurd hd (List.nodup_cons.1 hnodup).1
    | rest hnow hphase =>
      intro peer miss hm
      exact Nat.le_trans (hw.delay peer miss (hsame nofun peer miss hm)).2 hnow

/-- **One step**: where the loop comes to a device, its delay has elapsed exactly if the pass was
patient. -/
theorem Good.honours_iff (hw : w.Good) (h : w.Step a w') : w.Honours a w' ↔ w.Patient a w' := by
  have htimely := hw.timely
  obtain ⟨now, op⟩ := a
  obtain ⟨loop', missed', failures'⟩ := w'
  obtain ⟨h, -⟩ := h
  cases h with
  | @dial trigger peer due hnow hphase hdue =>
    rw [hphase] at htimely
    constructor
    · intro hon _ trigger' peer' due' hphase' _ miss hm _
      rw [hphase] at hphase'
      cases hphase'
      rw [← (hw.delay peer miss hm).1]
      exact hon rfl peer rfl miss hm
    · intro hpat _ peer' hpeer miss hm
      cases hpeer
      rw [(hw.delay peer miss hm).1]
      by_cases hmust : trigger = .nudge ∨ 6 ≤ miss.before
      · exact hpat rfl trigger peer due hphase hdue miss hm hmust
      · -- a tick's pass, and the delay is shorter than the tick
        obtain ⟨htrigger, hbefore⟩ := not_or.1 hmust
        obtain rfl : trigger = .tick := by
          cases trigger with
          | nudge => exact absurd rfl htrigger
          | tick => rfl
        have hrest := htimely.2 peer List.mem_cons_self miss hm
        have hdelay := Backoff.delayAfter_le_dialTick (Nat.lt_of_not_le hbefore)
        show _ ≤ now
        omega
  | @skip trigger peer due hnow hphase hdue =>
    constructor
    · intro _ _ trigger' peer' due' hphase' hdue'
      rw [hphase] at hphase'
      cases hphase'
      exact absurd hdue' hdue
    · intro _ _ peer' hpeer
      cases hpeer
  | _ => exact ⟨fun _ => nofun, fun _ => nofun⟩

/-- **Backoff is honoured** throughout a run of the loop exactly if every pass is patient. -/
theorem backoff_honoured_iff {identity : DeviceIdentity} {trust : Trust}
    {run : List ((Nat × DialOp) × DialHistory)} (h : Trail Step (start identity trust) run) :
    Trail Honours (start identity trust) run ↔ Trail Patient (start identity trust) run :=
  trail_congr (fun _ _ _ hstep => hstep.1.honours_iff hstep.2)
    (h.guarded (fun _ _ _ hw => hw.step) (good_start identity trust))

/-! ## A phone that is away -/

end DialHistory

theorem PeerManager.due_new {identity : DeviceIdentity} {trust : Trust} {peer : DeviceId} :
    (PeerManager.new identity trust).Due peer ↔ ∃ record, trust.peer peer = some record := by
  unfold PeerManager.Due PeerManager.new PeerManager.reloadFromTrust
  cases hp : trust.peer peer with
  | none => simp [hp]
  | some record => simp [hp, PeerState.new]

theorem PeerManager.due_update {m : PeerManager} {peer d : DeviceId} {f : PeerState → PeerState}
    (hf : ∀ state, (f state).refused = state.refused) : (m.update d f).Due peer ↔ m.Due peer := by
  unfold PeerManager.Due
  rw [peers_update]
  split
  · simp [hf]
  · rfl

namespace DialHistory

/-- The states that these steps lead to. -/
def states (w : DialHistory) :
    List (Nat × DialOp × DialLoop) → List ((Nat × DialOp) × DialHistory)
  | [] => []
  | (now, op, loop) :: steps =>
    ((now, op), w.record now op loop) :: states (w.record now op loop) steps

/-- The table before the phone has been dialled, and after it has not answered. -/
def fresh : PeerManager := .new callingLaptop laptopDialler.trust

def missedOnce : PeerManager := fresh.dialEnded (.repeated 2) (.failed (.unreachable []))

theorem due_fresh (peer : DeviceId) : peer ∈ [DeviceId.repeated 2] ↔ fresh.Due peer := by
  rw [fresh, PeerManager.due_new, List.mem_singleton]
  constructor
  · rintro rfl
    exact ⟨_, peer_phone⟩
  · rintro ⟨record, hrecord⟩
    rw [laptopDialler, Trust.peer_addPeer] at hrecord
    split at hrecord
    · next hd => exact hd.symm
    · cases hrecord

theorem due_missedOnce (peer : DeviceId) : peer ∈ [DeviceId.repeated 2] ↔ missedOnce.Due peer := by
  rw [due_fresh]
  exact (PeerManager.due_update (f := (·.noteFailure (.unreachable []))) fun _ => rfl).symm

/-- The phone is dialled until 10000 and does not answer, and then the next pass comes to it. -/
def twice (trigger : Trigger) (now : Nat) (next : List (Nat × DialOp × DialLoop)) :
    List ((Nat × DialOp) × DialHistory) :=
  states (start callingLaptop laptopDialler.trust)
    ([(0, .tick [] 0, ⟨fresh, .called .tick, false, 0⟩),
      (0, .begin [.repeated 2], ⟨fresh, .pass .tick [.repeated 2], false, 0⟩),
      (0, .turn, ⟨fresh, .dialling .tick (.repeated 2) [], false, 0⟩),
      (10000, .ended (.failed (.unreachable [])), ⟨missedOnce, .pass .tick [], false, 10000⟩),
      (10000, .rest, ⟨missedOnce, .waiting 10000, false, 10000⟩)] ++ next ++
      [(now, .begin [.repeated 2], ⟨missedOnce, .pass trigger [.repeated 2], false, now⟩),
        (now, .turn, ⟨missedOnce, .dialling trigger (.repeated 2) [], false, now⟩)])

/-- A copy is made 100 ms after the dial has failed. -/
def nudged : List ((Nat × DialOp) × DialHistory) :=
  twice .nudge 10100 [(10100, .nudge, ⟨missedOnce, .waiting 10000, true, 10100⟩),
    (10100, .notified, ⟨missedOnce, .called .nudge, false, 10100⟩)]

theorem trail_nudged : Trail Step (start callingLaptop laptopDialler.trust) nudged :=
  ⟨⟨.tick (Nat.zero_le _) (.inl rfl) [] 0, rfl⟩,
    ⟨.begin (Nat.le_refl _) rfl (by simp) due_fresh, rfl⟩,
    ⟨.dial (Nat.le_refl _) rfl ((due_fresh _).1 (by simp)), rfl⟩,
    ⟨.ended (Nat.zero_le _) rfl _, rfl⟩,
    ⟨.rest (Nat.le_refl _) rfl, rfl⟩,
    ⟨.nudge (show 10000 ≤ 10100 by decide), rfl⟩,
    ⟨.notified (Nat.le_refl _) rfl rfl, rfl⟩,
    ⟨.begin (Nat.le_refl _) rfl (by simp) due_missedOnce, rfl⟩,
    ⟨.dial (Nat.le_refl _) rfl ((due_missedOnce _).1 (by simp)), rfl⟩, trivial⟩

/-- The delay is 500 ms, and the phone is dialled again after 100. -/
theorem not_backoff_honoured :
    ¬ ∀ (identity : DeviceIdentity) (trust : Trust) (run : List ((Nat × DialOp) × DialHistory)),
      Trail Step (start identity trust) run → Trail Honours (start identity trust) run := by
  intro h
  obtain ⟨-, -, -, -, -, -, -, -, hlast, -⟩ := h _ _ nudged trail_nudged
  have hmiss := hlast rfl (.repeated 2) rfl ⟨10000, 500, 0⟩ rfl
  revert hmiss
  decide

/-- Nothing happens until the next tick. -/
def ticked : List ((Nat × DialOp) × DialHistory) :=
  twice .tick 40000 [(40000, .tick [] 0, ⟨missedOnce, .called .tick, false, 40000⟩)]

theorem trail_ticked : Trail Step (start callingLaptop laptopDialler.trust) ticked :=
  ⟨⟨.tick (Nat.zero_le _) (.inl rfl) [] 0, rfl⟩,
    ⟨.begin (Nat.le_refl _) rfl (by simp) due_fresh, rfl⟩,
    ⟨.dial (Nat.le_refl _) rfl ((due_fresh _).1 (by simp)), rfl⟩,
    ⟨.ended (Nat.zero_le _) rfl _, rfl⟩,
    ⟨.rest (Nat.le_refl _) rfl, rfl⟩,
    ⟨.tick (show 10000 ≤ 40000 by decide) (.inr ⟨10000, rfl, Nat.le_refl _⟩) [] 0, rfl⟩,
    ⟨.begin (Nat.le_refl _) rfl (by simp) due_missedOnce, rfl⟩,
    ⟨.dial (Nat.le_refl _) rfl ((due_missedOnce _).1 (by simp)), rfl⟩, trivial⟩

theorem backoff_honoured_ticked :
    Trail Honours (start callingLaptop laptopDialler.trust) ticked := by
  refine (backoff_honoured_iff trail_ticked).2
    ⟨nofun, nofun, ?_, nofun, nofun, nofun, nofun, ?_, trivial⟩
  · intro _ trigger peer due hphase _ miss hmiss
    cases hphase
    have hnone : none = some miss := hmiss
    cases hnone
  · intro _ trigger peer due hphase _ miss hmiss hmust
    cases hphase
    obtain rfl : Miss.mk 10000 500 0 = miss := Option.some.inj hmiss
    exact absurd hmust (by decide)

end DialHistory
end Clipse
