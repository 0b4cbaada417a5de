import Clipse.Daemon.LookAround
import Clipse.Net.Proof.Dial

/-!
# How many guesses a typed code is

A device counts every lookup for another code, whoever makes it. `asked` lists the devices that the
calls of one request lead to while they offer another code: once for each address. A device that
has room for it counts each of them (`count_wrong`), so a request is one guess exactly where it
reaches no such device twice (`one_guess_iff`).
-/

namespace Clipse

variable {ι : Type} [DecidableEq ι] [Blake3] {tag : Tag}

open PairingState

/-- The devices that the calls lead to while they offer another code, up to the call that finds the
code. Offers only run out here, nothing is counted. -/
def asked (tag : Tag) (states : ι → PairingState) : List (LookupCall ι) → List ι
  | [] => []
  | call :: calls =>
    let s := ((states call.device).expireIfStale call.now).2
    let states := Function.update states call.device s
    match s with
    | offering i _ _ =>
      if i.answers tag then if call.answered then [] else asked tag states calls
      else call.device :: asked tag states calls
    | _ => asked tag states calls

/-- How many wrong lookups a device counts before its offer is gone. -/
def room : PairingState → Nat
  | offering _ _ w => max 1 (maxLookupAttempts - w)
  | _ => 0

/-- The state of a device beside the one where nothing has been counted. -/
inductive Tracks (tag : Tag) : PairingState → PairingState → Prop
  | same {s : PairingState} (h : ∀ i e w, s = offering i e w → i.answers tag = true) :
      Tracks tag s s
  | counting {i : PairingInitiator} {e : UInt64} {w w₀ : Nat} (h : i.answers tag = false) :
      Tracks tag (offering i e w) (offering i e w₀)
  | retired {i : PairingInitiator} {e : UInt64} {w₀ : Nat} (h : i.answers tag = false) :
      Tracks tag idle (offering i e w₀)

theorem Tracks.refl (tag : Tag) (s : PairingState) : Tracks tag s s := by
  cases s with
  | offering i e w =>
    cases h : i.answers tag with
    | true =>
      refine .same fun i' e' w' he => ?_
      cases he
      exact h
    | false => exact .counting h
  | idle | proving | answering => exact .same fun i e w h => by cases h

/-! ## One lookup -/

omit [Blake3] in
theorem expireIfStale_offering {i : PairingInitiator} {e now : UInt64} {w : Nat} :
    ((offering i e w).expireIfStale now).2 = if now > e then idle else offering i e w := by
  unfold expireIfStale
  dsimp only
  split <;> rfl

omit [Blake3] in
theorem expireIfStale_of_not_offering {s : PairingState} {now : UInt64}
    (h : ∀ i e w, s ≠ offering i e w) : (s.expireIfStale now).2 = s := by
  cases s with
  | offering i e w => exact absurd rfl (h i e w)
  | idle | proving | answering => rfl

/-- A lookup that meets no offer of another code counts nothing. -/
theorem lookAround_cons_of_refused {states : ι → PairingState} {call : LookupCall ι}
    {calls : List (LookupCall ι)} {s' : PairingState}
    (hl : (states call.device).lookup tag call.now = (.refuse, s')) :
    lookAround tag states (call :: calls) =
      let rest := lookAround tag (Function.update states call.device s') calls
      if (states call.device).countsWrong tag call.now then
        { rest with wrong := call.device :: rest.wrong }
      else rest := by
  rw [lookAround]
  simp only [hl]

theorem lookAround_cons_of_offer {states : ι → PairingState} {call : LookupCall ι}
    {calls : List (LookupCall ι)} {s' : PairingState} {offer : PairingOffer}
    (hl : (states call.device).lookup tag call.now = (.offer offer, s')) :
    lookAround tag states (call :: calls) =
      let states := Function.update states call.device s'
      if call.answered then { states, wrong := [], found := some (call.device, offer) }
      else lookAround tag states calls := by
  rw [lookAround]
  simp only [hl]

theorem asked_cons_of_offering {states : ι → PairingState} {call : LookupCall ι}
    {calls : List (LookupCall ι)} {i : PairingInitiator} {e : UInt64} {w : Nat}
    (hs : ((states call.device).expireIfStale call.now).2 = offering i e w) :
    asked tag states (call :: calls) =
      let states := Function.update states call.device (offering i e w)
      if i.answers tag then if call.answered then [] else asked tag states calls
      else call.device :: asked tag states calls := by
  rw [asked]
  simp only [hs]

theorem asked_cons_of_not_offering {states : ι → PairingState} {call : LookupCall ι}
    {calls : List (LookupCall ι)} {s : PairingState}
    (hs : ((states call.device).expireIfStale call.now).2 = s) (h : ∀ i e w, s ≠ offering i e w) :
    asked tag states (call :: calls) =
      asked tag (Function.update states call.device s) calls := by
  rw [asked]
  simp only [hs]

/-- A device without an offer is asked for nothing. -/
theorem count_asked_of_not_offering {states : ι → PairingState} {d : ι}
    (h : ∀ i e w, states d ≠ offering i e w) (calls : List (LookupCall ι)) :
    (asked tag states calls).count d = 0 := by
  induction calls generalizing states with
  | nil => rfl
  | cons call calls ih =>
    by_cases hoff : ∃ i e w, ((states call.device).expireIfStale call.now).2 = offering i e w
    · obtain ⟨i, e, w, hs⟩ := hoff
      have hd : d ≠ call.device := by
        rintro rfl
        rw [expireIfStale_of_not_offering h] at hs
        exact h i e w hs
      have hrest := @ih (Function.update states call.device (offering i e w))
        (by rw [Function.update_of_ne hd]; exact h)
      rw [asked_cons_of_offering hs]
      dsimp only
      split
      · split
        · rfl
        · exact hrest
      · rw [List.count_cons_of_ne (Ne.symm hd)]
        exact hrest
    · simp only [not_exists] at hoff
      rw [asked_cons_of_not_offering rfl hoff]
      refine ih ?_
      by_cases hd : d = call.device
      · subst hd
        rw [Function.update_self]
        exact hoff
      · rw [Function.update_of_ne hd]
        exact h

theorem countsWrong_of_offer {s s' : PairingState} {now : UInt64} {offer : PairingOffer}
    (hl : s.lookup tag now = (.offer offer, s')) : s.countsWrong tag now = false := by
  rcases lookup_cases s tag now with ⟨i, e, w, rfl, hle, ha, -⟩ | ⟨i, e, w, -, -, -, -, hr⟩ |
    ⟨i, e, w, -, -, -, -, hr⟩ | ⟨i, e, w, -, -, hr⟩ | ⟨-, hr⟩
  · rw [countsWrong, expireIfStale_offering, if_neg (UInt64.not_lt.2 hle)]
    simp [ha]
  all_goals
    rw [hl] at hr
    cases hr

theorem countsWrong_of_wrong {i : PairingInitiator} {e now : UInt64} {w : Nat} (hle : now ≤ e)
    (ha : i.answers tag = false) : (offering i e w).countsWrong tag now = true := by
  rw [countsWrong, expireIfStale_offering, if_neg (UInt64.not_lt.2 hle)]
  simp [ha]

/-- **One lookup** at a device beside the one where nothing is counted: the code is found; or a
wrong lookup is counted, and the room shrinks; or the offer is gone already, or there is none. -/
theorem lookup_of_tracks {s a : PairingState} (h : Tracks tag s a) (now : UInt64) :
    (∃ i e w, (a.expireIfStale now).2 = offering i e w ∧ i.answers tag = true ∧
        a = offering i e w ∧ s = a ∧ s.lookup tag now = (.offer i.offer, s)) ∨
      (∃ i e w s', (a.expireIfStale now).2 = offering i e w ∧ i.answers tag = false ∧
        a = offering i e w ∧ s.lookup tag now = (.refuse, s') ∧ s.countsWrong tag now = true ∧
        Tracks tag s' a ∧ room s = room s' + 1) ∨
      (∃ i e w, (a.expireIfStale now).2 = offering i e w ∧ i.answers tag = false ∧
        a = offering i e w ∧ s.lookup tag now = (.refuse, s) ∧ s.countsWrong tag now = false ∧
        room s = 0) ∨
      ∃ s' a', (a.expireIfStale now).2 = a' ∧ (∀ i e w, a' ≠ offering i e w) ∧
        s.lookup tag now = (.refuse, s') ∧ s.countsWrong tag now = false ∧ Tracks tag s' a' := by
  cases h with
  | same h =>
    rcases lookup_cases s tag now with ⟨i, e, w, rfl, hle, ha, hl⟩ | ⟨i, e, w, rfl, -, ha, -, -⟩ |
      ⟨i, e, w, rfl, -, ha, -, -⟩ | ⟨i, e, w, rfl, hlate, hl⟩ | ⟨hnot, hl⟩
    · have hs : ((offering i e w).expireIfStale now).2 = offering i e w := by
        rw [expireIfStale_offering, if_neg (UInt64.not_lt.2 hle)]
      exact .inl ⟨i, e, w, hs, ha, rfl, rfl, hl⟩
    · rw [h i e w rfl] at ha
      cases ha
    · rw [h i e w rfl] at ha
      cases ha
    · have hs : ((offering i e w).expireIfStale now).2 = idle := by
        rw [expireIfStale_offering, if_pos hlate]
      refine .inr (.inr (.inr ⟨idle, idle, hs, by simp, hl, ?_, .refl tag idle⟩))
      rw [countsWrong, hs]
    · have hs : (s.expireIfStale now).2 = s := expireIfStale_of_not_offering hnot
      refine .inr (.inr (.inr ⟨s, s, hs, hnot, hl, ?_, .refl tag s⟩))
      rw [countsWrong, hs]
      cases s with
      | offering i e w => exact absurd rfl (hnot i e w)
      | idle | proving | answering => rfl
  | @counting i e w w₀ ha =>
    by_cases hlate : now > e
    · have hs : ∀ w, ((offering i e w).expireIfStale now).2 = idle := by
        intro w
        rw [expireIfStale_offering, if_pos hlate]
      refine .inr (.inr (.inr ⟨idle, idle, hs w₀, by simp, ?_, ?_, .refl tag idle⟩))
      · rw [lookup, hs]
      · rw [countsWrong, hs]
    · have hs : ∀ w, ((offering i e w).expireIfStale now).2 = offering i e w := by
        intro w
        rw [expireIfStale_offering, if_neg hlate]
      have hcount : (offering i e w).countsWrong tag now = true :=
        countsWrong_of_wrong (UInt64.not_lt.1 hlate) ha
      by_cases hw : w + 1 ≥ maxLookupAttempts
      · refine .inr (.inl ⟨i, e, w₀, idle, hs w₀, ha, rfl, ?_, hcount, .retired ha, ?_⟩)
        · rw [lookup, hs]
          simp [ha, hw]
        · simp only [room]
          omega
      · refine .inr (.inl ⟨i, e, w₀, offering i e (w + 1), hs w₀, ha, rfl, ?_, hcount,
          .counting ha, ?_⟩)
        · rw [lookup, hs]
          simp [ha, hw]
        · simp only [room]
          omega
  | @retired i e w₀ ha =>
    by_cases hlate : now > e
    · refine .inr (.inr (.inr ⟨idle, idle, ?_, by simp, rfl, rfl, .refl tag idle⟩))
      rw [expireIfStale_offering, if_pos hlate]
    · refine .inr (.inr (.inl ⟨i, e, w₀, ?_, ha, rfl, rfl, rfl, rfl⟩))
      rw [expireIfStale_offering, if_neg hlate]

/-! ## A request -/

theorem tracks_update {states plain : ι → PairingState} (h : ∀ d, Tracks tag (states d) (plain d))
    (x : ι) {s a : PairingState} (hx : Tracks tag s a) (d : ι) :
    Tracks tag (Function.update states x s d) (Function.update plain x a d) := by
  by_cases hd : d = x
  · subst hd
    rw [Function.update_self, Function.update_self]
    exact hx
  · rw [Function.update_of_ne hd, Function.update_of_ne hd]
    exact h d

/-- **What a request costs**: a device counts as many wrong lookups as it is asked, as far as it has
room for them. -/
theorem count_wrong {states plain : ι → PairingState} (h : ∀ d, Tracks tag (states d) (plain d))
    (calls : List (LookupCall ι)) (d : ι) :
    (lookAround tag states calls).wrong.count d =
      min ((asked tag plain calls).count d) (room (states d)) := by
  induction calls generalizing states plain with
  | nil => exact (Nat.zero_min _).symm
  | cons call calls ih =>
    rcases lookup_of_tracks (h call.device) call.now with
      ⟨i, e, w, hs, ha, hplain, hsame, hl⟩ | ⟨i, e, w, s', hs, ha, hplain, hl, hc, ht, hroom⟩ |
      ⟨i, e, w, hs, ha, hplain, hl, hc, hroom⟩ | ⟨s', a', hs, hnot, hl, hc, ht⟩
    · -- found
      rw [lookAround_cons_of_offer hl, asked_cons_of_offering hs, ← hplain,
        Function.update_eq_self, Function.update_eq_self]
      dsimp only
      rw [if_pos ha]
      split
      · exact (Nat.zero_min _).symm
      · exact ih h
    · -- counted
      have hrest := @ih (Function.update states call.device s') plain fun x => by
        have hx := tracks_update h call.device ht x
        rwa [Function.update_eq_self] at hx
      rw [lookAround_cons_of_refused hl, asked_cons_of_offering hs, ← hplain,
        Function.update_eq_self]
      dsimp only
      rw [if_pos hc, if_neg (by simp [ha])]
      by_cases hd : d = call.device
      · subst hd
        rw [Function.update_self] at hrest
        rw [List.count_cons_self, List.count_cons_self, hrest, hroom]
        omega
      · rw [Function.update_of_ne hd] at hrest
        rw [List.count_cons_of_ne (Ne.symm hd), List.count_cons_of_ne (Ne.symm hd), hrest]
    · -- retired before
      have hrest := ih h
      rw [lookAround_cons_of_refused hl, asked_cons_of_offering hs, ← hplain,
        Function.update_eq_self, Function.update_eq_self]
      dsimp only
      rw [hc, if_neg (by decide), if_neg (by simp [ha]), hrest]
      by_cases hd : d = call.device
      · subst hd
        rw [hroom, Nat.min_zero, Nat.min_zero]
      · rw [List.count_cons_of_ne (Ne.symm hd)]
    · -- no offer
      have hrest := ih (tracks_update h call.device ht)
      rw [lookAround_cons_of_refused hl, asked_cons_of_not_offering hs hnot]
      dsimp only
      rw [hc, if_neg (by decide), hrest]
      by_cases hd : d = call.device
      · subst hd
        rw [count_asked_of_not_offering (by rw [Function.update_self]; exact hnot), Nat.zero_min,
          Nat.zero_min]
      · rw [Function.update_of_ne hd]

/-- Calling goes on after a lookup, or ends with it. -/
theorem lookAround_cons (tag : Tag) (states : ι → PairingState) (call : LookupCall ι)
    (calls : List (LookupCall ι)) (d : ι) :
    let next := Function.update states call.device
      ((states call.device).lookup tag call.now).2
    let rest := lookAround tag next calls
    ((lookAround tag states (call :: calls)).states = next ∧
        (lookAround tag states (call :: calls)).wrong = [] ∧
        (states call.device).countsWrong tag call.now = false) ∨
      (lookAround tag states (call :: calls)).states = rest.states ∧
        (lookAround tag states (call :: calls)).wrong.count d = rest.wrong.count d +
          if d = call.device ∧ (states call.device).countsWrong tag call.now = true then 1
          else 0 := by
  dsimp only
  cases hl : (states call.device).lookup tag call.now with
  | mk outcome s' =>
    cases outcome with
    | offer offer =>
      have hc := countsWrong_of_offer hl
      rw [lookAround_cons_of_offer hl, hc]
      dsimp only
      split
      · exact .inl ⟨rfl, rfl, rfl⟩
      · exact .inr ⟨rfl, by simp⟩
    | refuse =>
      rw [lookAround_cons_of_refused hl]
      dsimp only
      split
      · rename_i hc
        refine .inr ⟨rfl, ?_⟩
        by_cases hd : d = call.device
        · rw [if_pos ⟨hd, hc⟩, hd, List.count_cons_self]
        · rw [if_neg fun h => hd h.1, List.count_cons_of_ne (Ne.symm hd), Nat.add_zero]
      · rename_i hc
        exact .inr ⟨rfl, by simp [hc]⟩

theorem idle_lookAround {states : ι → PairingState} {d : ι} (h : states d = idle)
    (calls : List (LookupCall ι)) :
    (lookAround tag states calls).states d = idle ∧
      (lookAround tag states calls).wrong.count d = 0 := by
  refine ⟨?_, ?_⟩
  · induction calls generalizing states with
    | nil => exact h
    | cons call calls ih =>
      have hnext : Function.update states call.device
          ((states call.device).lookup tag call.now).2 d = idle := by
        by_cases hd : d = call.device
        · subst hd
          rw [Function.update_self, h]
          rfl
        · rw [Function.update_of_ne hd, h]
      rcases lookAround_cons tag states call calls d with ⟨hs, -, -⟩ | ⟨hs, -⟩
      · rw [hs, hnext]
      · rw [hs]
        exact ih hnext
  · rw [@count_wrong _ _ _ _ _ states (fun x => .refl tag _) calls d, h]
    exact Nat.min_zero _

/-- **The offer after a request** stands with its wrong lookups counted, unless there were too many
or its time was over. -/
theorem offering_lookAround {states : ι → PairingState} {d : ι} {i : PairingInitiator} {e : UInt64}
    {w : Nat} (h : states d = offering i e w) (calls : List (LookupCall ι)) :
    (lookAround tag states calls).states d =
        offering i e (w + (lookAround tag states calls).wrong.count d) ∨
      (lookAround tag states calls).states d = idle ∧
        (maxLookupAttempts ≤ w + (lookAround tag states calls).wrong.count d ∨
          ∃ call ∈ calls, call.device = d ∧ e < call.now) := by
  induction calls generalizing states w with
  | nil => exact .inl h
  | cons call calls ih =>
    -- what the rest makes of an offer that stands after the call
    have hstands : ∀ w', Function.update states call.device
          ((states call.device).lookup tag call.now).2 d = offering i e w' →
        w' = w + (if d = call.device ∧ (states call.device).countsWrong tag call.now = true then 1
          else 0) →
        (lookAround tag states (call :: calls)).states d =
            offering i e (w + (lookAround tag states (call :: calls)).wrong.count d) ∨
          (lookAround tag states (call :: calls)).states d = idle ∧
            (maxLookupAttempts ≤ w + (lookAround tag states (call :: calls)).wrong.count d ∨
              ∃ c ∈ call :: calls, c.device = d ∧ e < c.now) := by
      intro w' hnext hw'
      rcases lookAround_cons tag states call calls d with ⟨hs, hw, hc⟩ | ⟨hs, hw⟩
      · rw [hc, if_neg (by simp), Nat.add_zero] at hw'
        refine .inl ?_
        rw [hs, hw, hnext, hw', List.count_nil, Nat.add_zero]
      · rw [hs, hw, ← Nat.add_assoc, Nat.add_right_comm, ← hw']
        rcases ih hnext with hr | ⟨hr, hmany | ⟨c, hc, hlate⟩⟩
        · exact .inl hr
        · exact .inr ⟨hr, .inl hmany⟩
        · exact .inr ⟨hr, .inr ⟨c, List.mem_cons_of_mem _ hc, hlate⟩⟩
    by_cases hd : d = call.device
    · subst hd
      rw [Function.update_self, h] at hstands
      rcases lookup_cases (offering i e w) tag call.now with ⟨i', e', w', heq, hle, ha, hl⟩ |
        ⟨i', e', w', heq, hle, ha, hw, hl⟩ | ⟨i', e', w', heq, hle, ha, hw, hl⟩ |
        ⟨i', e', w', heq, hlate, hl⟩ | ⟨hnot, -⟩
      · refine hstands w (by rw [hl]) ?_
        rw [countsWrong_of_offer hl, if_neg (by simp), Nat.add_zero]
      · cases heq
        refine hstands (w + 1) (by rw [hl]) ?_
        rw [countsWrong_of_wrong hle ha, if_pos ⟨rfl, rfl⟩]
      · -- one wrong lookup too many
        cases heq
        have hnext : Function.update states call.device
            ((offering i e w).lookup tag call.now).2 call.device = idle := by
          rw [Function.update_self, hl]
        rcases lookAround_cons tag states call calls call.device with ⟨-, -, hc⟩ | ⟨hs, hw'⟩
        · rw [h, countsWrong_of_wrong hle ha] at hc
          cases hc
        · rw [h] at hs hw'
          obtain ⟨hidle, hcount⟩ := @idle_lookAround _ _ _ tag _ _ hnext calls
          rw [hcount, countsWrong_of_wrong hle ha, if_pos ⟨rfl, rfl⟩] at hw'
          refine .inr ⟨by rw [hs, hidle], .inl ?_⟩
          rw [hw']
          omega
      · -- out of time
        cases heq
        have hnext : Function.update states call.device
            ((offering i e w).lookup tag call.now).2 call.device = idle := by
          rw [Function.update_self, hl]
        have hgone : ∃ c ∈ call :: calls, c.device = call.device ∧ e < c.now :=
          ⟨call, List.mem_cons_self, rfl, hlate⟩
        rcases lookAround_cons tag states call calls call.device with ⟨hs, -, -⟩ | ⟨hs, -⟩
        · rw [h] at hs
          exact .inr ⟨by rw [hs, hnext], .inr hgone⟩
        · rw [h] at hs
          exact .inr ⟨by rw [hs, (idle_lookAround hnext calls).1], .inr hgone⟩
      · exact absurd rfl (hnot i e w)
    · exact hstands w (by rw [Function.update_of_ne hd, h]) (by rw [if_neg fun hc => hd hc.1]; rfl)

/-! ## One guess -/

/-- A device that offers another code is reached under one address at most while its offer is in
time, or has room for one more wrong lookup only. -/
def ReachedOnce (net : Network ι) (targets : List SocketAddr) (code : PairingCode)
    (states : ι → PairingState) : Prop :=
  ∀ d i e w, states d = offering i e w → i.code ≠ code →
    (asked code.tag states (net.calls targets)).count d ≤ 1 ∨ maxLookupAttempts ≤ w + 1

/-- A request to pair with a code that was typed. -/
structure Request (ι : Type) where
  net : Network ι
  targets : List SocketAddr
  code : PairingCode

/-- The devices after a request. -/
def Request.run (states : ι → PairingState) (r : Request ι) : ι → PairingState :=
  (runPairingCeremony r.net r.targets r.code states).states

/-- Every request of a run reaches the devices once. -/
def AllReachedOnce (states : ι → PairingState) : List (Request ι) → Prop
  | [] => True
  | r :: requests =>
    ReachedOnce r.net r.targets r.code states ∧ AllReachedOnce (r.run states) requests

theorem count_le_one_iff {net : Network ι} {targets : List SocketAddr} {code : PairingCode}
    {states : ι → PairingState} {d : ι} {i : PairingInitiator} {e : UInt64} {w : Nat}
    (h : states d = offering i e w) :
    (runPairingCeremony net targets code states).wrong.count d ≤ 1 ↔
      (asked code.tag states (net.calls targets)).count d ≤ 1 ∨ maxLookupAttempts ≤ w + 1 := by
  rw [runPairingCeremony, @count_wrong _ _ _ _ _ states (fun x => .refl code.tag _), h, room]
  omega

/-- A device without an offer shows none again through the requests of others. -/
theorem idle_run {requests : List (Request ι)} {states : ι → PairingState} {d : ι}
    (h : states d = idle) : requests.foldl Request.run states d = idle := by
  induction requests generalizing states with
  | nil => exact h
  | cons r requests ih => exact ih (idle_lookAround h _).1

/-- The offer of a device after a run of requests that reach it once each. -/
theorem offering_run {requests : List (Request ι)} {states : ι → PairingState} {d : ι}
    {i : PairingInitiator} {e : UInt64} {w : Nat} (h : states d = offering i e w)
    (hcode : ∀ r ∈ requests, i.code ≠ r.code) (honce : AllReachedOnce states requests) :
    (∃ w' ≤ w + requests.length, requests.foldl Request.run states d = offering i e w') ∨
      requests.foldl Request.run states d = idle ∧
        (maxLookupAttempts ≤ w + requests.length ∨
          ∃ r ∈ requests, ∃ call ∈ r.net.calls r.targets, call.device = d ∧ e < call.now) := by
  induction requests generalizing states w with
  | nil => exact .inl ⟨w, Nat.le_refl _, h⟩
  | cons r requests ih =>
    obtain ⟨hr, hrest⟩ := honce
    obtain ⟨hne, hcode⟩ := List.forall_mem_cons.1 hcode
    have hone := (count_le_one_iff h).2 (hr d i e w h hne)
    rw [List.length_cons]
    rcases @offering_lookAround _ _ _ r.code.tag _ _ _ _ _ h (r.net.calls r.targets) with
      hs | ⟨hs, hmany | ⟨call, hc, hlate⟩⟩
    · rcases @ih (r.run states) _ hs hcode hrest with ⟨w', hle, hr'⟩ | ⟨hidle, hmany |
        ⟨r', hr', hlate⟩⟩
      · refine .inl ⟨w', ?_, hr'⟩
        unfold runPairingCeremony at hone
        omega
      · refine .inr ⟨hidle, .inl ?_⟩
        unfold runPairingCeremony at hone
        omega
      · exact .inr ⟨hidle, .inr ⟨r', List.mem_cons_of_mem _ hr', hlate⟩⟩
    · refine .inr ⟨@idle_run _ _ _ _ (r.run states) _ hs, .inl ?_⟩
      unfold runPairingCeremony at hone
      omega
    · exact .inr ⟨@idle_run _ _ _ _ (r.run states) _ hs,
        .inr ⟨r, List.mem_cons_self, call, hc, hlate⟩⟩

/-- **One typed code is one guess** for every device that offers another code exactly if no such
device is reached twice. In a run of requests for which this holds, an offer goes only with the last
of `MAX_LOOKUP_ATTEMPTS` requests, or with its time. -/
theorem one_guess_iff :
    (∀ (net : Network ι) (found tailnet recorded : List SocketAddr) (code : PairingCode)
        (states : ι → PairingState),
      (∀ d i e w, states d = offering i e w → i.code ≠ code →
        (runPairingCeremony net (pairingTargets found tailnet recorded) code states).wrong.count d ≤
          1) ↔
      ReachedOnce net (pairingTargets found tailnet recorded) code states) ∧
    ∀ (requests : List (Request ι)) (states : ι → PairingState), AllReachedOnce states requests →
      ∀ d i e, states d = offering i e 0 → (∀ r ∈ requests, i.code ≠ r.code) →
        requests.length < maxLookupAttempts →
        (∀ r ∈ requests, ∀ call ∈ r.net.calls r.targets, call.device = d → call.now ≤ e) →
        ∃ w ≤ requests.length, requests.foldl Request.run states d = offering i e w := by
  refine ⟨fun net found tailnet recorded code states => ?_, fun requests states honce d i e h hcode
    hfew htime => ?_⟩
  · refine forall_congr' fun d => forall_congr' fun i => forall_congr' fun e =>
      forall_congr' fun w => forall_congr' fun h => forall_congr' fun _ => ?_
    exact count_le_one_iff h
  · rcases offering_run h hcode honce with ⟨w, hw, hr⟩ | ⟨-, hmany | ⟨r, hr, call, hc, hd, hlate⟩⟩
    · exact ⟨w, by omega, hr⟩
    · omega
    · exact absurd (htime r hr call hc hd) (UInt64.not_le.2 hlate)

end Clipse

namespace Clipse

/-! ## A mistyped code -/

/-- The digits on the laptop's screen, the last one mistyped. -/
def PairingCode.mistyped : PairingCode := ⟨#v[4, 8, 2, 9, 1, 4], by decide +kernel⟩

/-- BLAKE3 on what is hashed when that code is typed. -/
@[reducible] def Blake3.mistyped : Blake3 where
  hash bytes :=
    if bytes = transcriptInput [tagLabel, PairingCode.mistyped.digits.toList] then
      { bytes :=
        #v[0x3e, 0xd4, 0xdc, 0xbd, 0x6d, 0x3c, 0x65, 0xa5, 0x21, 0x7c, 0x50, 0xce, 0x31, 0xe1, 0x6a,
      0x23, 0xea, 0x2d, 0x73, 0xd6, 0x3e, 0xf3, 0xc1, 0x96, 0xa3, 0x62, 0xda, 0xec, 0x45, 0x1c,
      0x3a, 0xeb] }
    else Blake3.ceremony.hash bytes

section
attribute [local instance] Blake3.mistyped

/-- The laptop, reached under the given addresses. -/
def Network.ofLaptop (addresses : List SocketAddr) : Network Unit where
  device addr := if addr ∈ addresses then some () else none
  clock _ := some 1
  answered _ := true

/-- It shows its code. -/
def showing (_ : Unit) : PairingState := .offering .onLaptop 180000 0

/-- Under one address, the mistyped code is one guess, and the offer stands. -/
theorem one_guess_iff_laptop :
    (runPairingCeremony (.ofLaptop [onLan 7]) (pairingTargets [onLan 7] [] [onLan 9]) .mistyped
        showing).wrong.count () ≤ 1 ∧
      ∃ w ≤ 1, Request.run showing ⟨.ofLaptop [onLan 7], pairingTargets [onLan 7] [] [onLan 9],
        .mistyped⟩ () = .offering .onLaptop 180000 w := by
  have honce : ReachedOnce (.ofLaptop [onLan 7]) (pairingTargets [onLan 7] [] [onLan 9]) .mistyped
      showing := fun () i e w _ _ => .inl (by decide +kernel)
  have hcode : PairingInitiator.onLaptop.code ≠ .mistyped := by decide +kernel
  obtain ⟨hone, hrun⟩ := one_guess_iff (ι := Unit)
  refine ⟨(hone _ [onLan 7] [] [onLan 9] _ _).2 honce () _ _ _ rfl hcode, ?_⟩
  refine hrun [⟨.ofLaptop [onLan 7], pairingTargets [onLan 7] [] [onLan 9], .mistyped⟩] showing
    ⟨honce, trivial⟩ () _ _ rfl (by simpa using hcode) (by decide) ?_
  decide +kernel

/-- Under two addresses it is two. -/
theorem not_one_guess :
    ¬ ∀ (net : Network Unit) (found tailnet recorded : List SocketAddr) (code : PairingCode)
        (states : Unit → PairingState), ∀ d i e w, states d = .offering i e w → i.code ≠ code →
      (runPairingCeremony net (pairingTargets found tailnet recorded) code states).wrong.count d ≤
        1 := by
  intro h
  have hcode : PairingInitiator.onLaptop.code ≠ .mistyped := by decide +kernel
  have hle := h (.ofLaptop [onLan 7, onLan 8]) [onLan 7, onLan 8] [] [] .mistyped showing () _ _ _
    rfl hcode
  have htwo : (runPairingCeremony (.ofLaptop [onLan 7, onLan 8])
      (pairingTargets [onLan 7, onLan 8] [] []) .mistyped showing).wrong.count () = 2 := by
    decide +kernel
  omega

end
end Clipse
