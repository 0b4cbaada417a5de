import Clipse.Daemon.Proof.Privacy

/-!
# This device's own writes

A run of the daemon is a list of operations. A write is awaited after it (`Awaited`) until another
write, or until a change with its hash has come to the guard. The guard holds exactly the awaited
write, apart from one whose time is over (`Holds`), so a change is taken for this device's own write
if and only if that write is awaited and recent (`own_write_iff`).
-/

namespace Clipse

/-- No rule before the guard applies to the capture. -/
def WatchConfig.Admits (config : WatchConfig) (capture : Capture) : Prop :=
  capture.payloads ≠ [] ∧ totalBytes capture.payloads ≤ config.maxPayloadBytes.toNat ∧
    config.blocked capture.app = none

section
variable [Blake3] [Regex] {config : WatchConfig} {guard : OwnWriteGuard} {capture : Capture}
  {now : Nat}

theorem classify_of_not_admits (h : ¬ config.Admits capture) :
    (classify (.data capture) config guard now).1 ≠ .suppressed .ownWrite ∧
      (classify (.data capture) config guard now).2 = guard := by
  unfold WatchConfig.Admits at h
  unfold classify
  by_cases hempty : capture.payloads = []
  · simp [hempty]
  by_cases hlarge : config.maxPayloadBytes.toNat < totalBytes capture.payloads
  · simp [hempty, hlarge]
  cases hblocked : config.blocked capture.app with
  | some app => simp [hempty, hlarge, hblocked]
  | none => exact absurd ⟨hempty, Nat.not_lt.1 hlarge, hblocked⟩ h

theorem classify_of_admits (h : config.Admits capture) :
    ((classify (.data capture) config guard now).1 = .suppressed .ownWrite ↔
      (guard.check (hashPayloads capture.payloads) now).1 = true) ∧
    (classify (.data capture) config guard now).2 =
      (guard.check (hashPayloads capture.payloads) now).2 := by
  obtain ⟨hempty, hlarge, hblocked⟩ := h
  unfold classify
  cases hown : (guard.check (hashPayloads capture.payloads) now).1 with
  | true => simp [hempty, Nat.not_lt.2 hlarge, hblocked, hown]
  | false =>
    cases hsecret : config.secret capture.payloads with
    | some kind => simp [hempty, Nat.not_lt.2 hlarge, hblocked, hown, hsecret]
    | none => simp [hempty, Nat.not_lt.2 hlarge, hblocked, hown, hsecret]

end

namespace RunningDaemon

/-! ## Awaited writes -/

/-- The reading of the clock that comes with the operation. -/
def clock : RunningOp → Option Nat
  | .change _ now | .ownWrite _ now => some now
  | _ => none

/-- The clock readings of a run. -/
def times (ops : List RunningOp) : List Nat := ops.filterMap clock

section
variable [Blake3] {config : WatchConfig} {hash : ContentHash} {written ttl : Nat}
  {ops : List RunningOp} {op : RunningOp}

/-- A write of `hash` is still awaited after the operation, if it was before. -/
def Spares (config : WatchConfig) (hash : ContentHash) : RunningOp → Prop
  | .ownWrite _ _ => False
  | .change (.data capture) _ => config.Admits capture → hashPayloads capture.payloads ≠ hash
  | _ => True

/-- The last write was of `hash`, and nothing has matched it since. -/
def Awaited (config : WatchConfig) (ops : List RunningOp) (hash : ContentHash) (written : Nat) : Prop :=
  ∃ before after, ops = before ++ .ownWrite hash written :: after ∧ ∀ op ∈ after, Spares config hash op

theorem awaited_snoc : Awaited config (ops ++ [op]) hash written ↔
    op = .ownWrite hash written ∨ Spares config hash op ∧ Awaited config ops hash written := by
  constructor
  · rintro ⟨before, after, he, hafter⟩
    rcases List.eq_nil_or_concat after with rfl | ⟨rest, last, rfl⟩
    · exact .inl (List.head_eq_of_cons_eq (List.append_inj' he rfl).2)
    · rw [List.concat_eq_append] at he hafter
      rw [← List.cons_append, ← List.append_assoc] at he
      obtain ⟨hops, hop⟩ := List.append_inj' he rfl
      obtain rfl : op = last := List.head_eq_of_cons_eq hop
      refine .inr ⟨hafter op (by simp), before, rest, hops, fun o ho => hafter o ?_⟩
      exact List.mem_append_left _ ho
  · rintro (rfl | ⟨hop, before, after, rfl, hafter⟩)
    · exact ⟨ops, [], rfl, fun o ho => absurd ho List.not_mem_nil⟩
    · refine ⟨before, after ++ [op], by simp, fun o ho => ?_⟩
      rcases List.mem_append.1 ho with ho | ho
      · exact hafter o ho
      · rwa [List.mem_singleton.1 ho]

omit [Blake3] in
theorem times_snoc : times (ops ++ [op]) = times ops ++ (clock op).toList := by
  unfold times
  rw [List.filterMap_append]
  cases hop : clock op with
  | none => simp [hop]
  | some t => simp [hop]

/-- The guard after a run. -/
structure Holds (config : WatchConfig) (ttl : Nat) (ops : List RunningOp) (guard : OwnWriteGuard) :
    Prop where
  lives : guard.ttl = ttl
  awaited : ∀ p, guard.pending = some p → Awaited config ops p.hash p.writtenAt
  kept : ∀ hash written, Awaited config ops hash written →
    guard.pending = some ⟨hash, written⟩ ∨ ∃ t ∈ times ops, ttl < t - written

variable {guard : OwnWriteGuard}

theorem Holds.new : Holds config ttl [] (.new ttl) where
  lives := rfl
  awaited := fun p hp => by cases hp
  kept := fun hash written h => by
    obtain ⟨before, after, he, -⟩ := h
    exact absurd he (by simp)

/-- An operation that leaves the guard as it is. -/
theorem Holds.same (h : Holds config ttl ops guard) (hop : ∀ hash written, op ≠ .ownWrite hash written)
    (hspares : ∀ p, guard.pending = some p → Spares config p.hash op) :
    Holds config ttl (ops ++ [op]) guard where
  lives := h.lives
  awaited p hp := awaited_snoc.2 (.inr ⟨hspares p hp, h.awaited p hp⟩)
  kept hash written ha := by
    rcases awaited_snoc.1 ha with rfl | ⟨-, ha⟩
    · exact absurd rfl (hop hash written)
    rcases h.kept hash written ha with hp | ⟨t, ht, hlt⟩
    · exact .inl hp
    · exact .inr ⟨t, by rw [times_snoc]; exact List.mem_append_left _ ht, hlt⟩

theorem Holds.write (h : Holds config ttl ops guard) (hash : ContentHash) (now : Nat) :
    Holds config ttl (ops ++ [.ownWrite hash now]) (guard.recordWrite hash now) where
  lives := h.lives
  awaited p hp := by
    obtain rfl : (⟨hash, now⟩ : Pending) = p := Option.some.inj hp
    exact awaited_snoc.2 (.inl rfl)
  kept hash' written ha := by
    rcases awaited_snoc.1 ha with he | ⟨hop, -⟩
    · obtain ⟨rfl, rfl⟩ : hash = hash' ∧ now = written := by simpa using he
      exact .inl rfl
    · exact hop.elim

/-- The guard has been asked about a capture. -/
theorem Holds.check {capture : Capture} {now : Nat} (h : Holds config ttl ops guard)
    (hadmits : config.Admits capture) :
    Holds config ttl (ops ++ [.change (.data capture) now])
      (guard.check (hashPayloads capture.payloads) now).2 := by
  have hnow : now ∈ times (ops ++ [.change (.data capture) now]) := by
    rw [times_snoc]
    exact List.mem_append_right _ List.mem_cons_self
  unfold OwnWriteGuard.check
  split
  · next hnone => exact h.same (fun _ _ => by simp) fun p hp => by rw [hnone] at hp; cases hp
  next p hp =>
  -- Where the guard forgets the write, it is awaited no more, or its time is over.
  have hforget (hgone : hashPayloads capture.payloads = p.hash ∨ ttl < now - p.writtenAt) :
      Holds config ttl (ops ++ [.change (.data capture) now]) { guard with pending := none } := by
    refine ⟨h.lives, fun q hq => (by cases hq), fun hash written ha => .inr ?_⟩
    rcases awaited_snoc.1 ha with he | ⟨hspares, ha⟩
    · cases he
    rcases h.kept hash written ha with hq | ⟨t, ht, hlt⟩
    · obtain rfl : p = ⟨hash, written⟩ := Option.some.inj (hp.symm.trans hq)
      rcases hgone with heq | hlate
      · exact absurd heq (hspares hadmits)
      · exact ⟨now, hnow, hlate⟩
    · exact ⟨t, by rw [times_snoc]; exact List.mem_append_left _ ht, hlt⟩
  split
  · next hlate => exact hforget (.inr (h.lives ▸ hlate))
  · split
    · next heq => exact hforget (.inl heq.symm)
    · next hne =>
      refine h.same (fun _ _ => by simp) fun q hq _ heq => hne ?_
      obtain rfl : p = q := Option.some.inj (hp.symm.trans hq)
      exact heq.symm

/-- The guard knows its own write, as long as it is recent. -/
theorem Holds.check_iff {now : Nat} (h : Holds config ttl ops guard)
    (hclock : ∀ t ∈ times ops, t ≤ now) :
    (guard.check hash now).1 = true ↔
      ∃ written, Awaited config ops hash written ∧ now - written ≤ ttl := by
  constructor
  · intro hcheck
    unfold OwnWriteGuard.check at hcheck
    split at hcheck
    · cases hcheck
    next p hp =>
    split at hcheck
    · cases hcheck
    next hlate =>
    split at hcheck
    · next heq => exact ⟨p.writtenAt, heq ▸ h.awaited p hp, h.lives ▸ Nat.not_lt.1 hlate⟩
    · cases hcheck
  · rintro ⟨written, ha, hrecent⟩
    rcases h.kept hash written ha with hp | ⟨t, ht, hlt⟩
    · simp [OwnWriteGuard.check, hp, h.lives, Nat.not_lt.2 hrecent]
    · have := hclock t ht
      omega

end

/-! ## Runs -/

section
variable [Blake3] [Regex] [SavedFormats]

theorem watch_step (s : RunningDaemon) (op : RunningOp) : (s.step op).watch = s.watch := by
  cases op with
  | updateSettings settings outcome =>
    unfold step
    dsimp only
    split <;> rfl
  | setPaused paused => rfl
  | change poll now => rfl
  | ownWrite hash now => rfl
  | take id =>
    unfold step
    dsimp only
    split
    · rfl
    · split <;> rfl
  | others ctx =>
    unfold step
    dsimp only
    split <;> rfl

theorem watch_foldl (s : RunningDaemon) (ops : List RunningOp) :
    (ops.foldl step s).watch = s.watch := by
  induction ops generalizing s with
  | nil => rfl
  | cons op ops ih => rw [List.foldl_cons, ih, watch_step]

/-- One operation. -/
theorem Holds.step {ttl : Nat} {ops : List RunningOp} {s : RunningDaemon}
    (h : Holds s.watch ttl ops s.guard) (op : RunningOp) :
    Holds s.watch ttl (ops ++ [op]) (s.step op).guard := by
  have hother (hop : clock op = none) : Holds s.watch ttl (ops ++ [op]) s.guard :=
    h.same (fun hash written he => by rw [he] at hop; cases hop) fun p _ => by
      cases op with
      | change poll now => cases hop
      | ownWrite hash now => cases hop
      | updateSettings settings outcome => trivial
      | setPaused paused => trivial
      | take id => trivial
      | others ctx => trivial
  cases op with
  | updateSettings settings outcome =>
    unfold RunningDaemon.step
    dsimp only
    split <;> exact hother rfl
  | setPaused paused => exact hother rfl
  | change poll now =>
    show Holds s.watch ttl _ (classify poll s.watch s.guard now).2
    cases poll with
    | concealed => exact h.same (fun _ _ => by simp) fun p _ => trivial
    | empty => exact h.same (fun _ _ => by simp) fun p _ => trivial
    | data capture =>
      by_cases hadmits : s.watch.Admits capture
      · rw [(classify_of_admits hadmits).2]
        exact h.check hadmits
      · rw [(classify_of_not_admits hadmits).2]
        exact h.same (fun _ _ => by simp) fun p _ hadmits' => absurd hadmits' hadmits
  | ownWrite hash now => exact h.write hash now
  | take id =>
    unfold RunningDaemon.step
    dsimp only
    split
    · exact hother rfl
    · split <;> exact hother rfl
  | others ctx =>
    unfold RunningDaemon.step
    dsimp only
    split <;> exact hother rfl

theorem holds_foldl {ttl : Nat} {s : RunningDaemon} (h : Holds s.watch ttl [] s.guard)
    (ops : List RunningOp) : Holds s.watch ttl ops (ops.foldl step s).guard := by
  induction ops using List.reverseRecOn with
  | nil => exact h
  | append_singleton ops op ih =>
    rw [List.foldl_append]
    have hs : Holds (ops.foldl step s).watch ttl ops (ops.foldl step s).guard := by
      rw [watch_foldl]
      exact ih
    have hstep := hs.step op
    rw [watch_foldl] at hstep
    exact hstep

/-- **A change is taken for this device's own write** if and only if no rule before the guard applies
to it and the last write so far had its content, was made within the time to live, and has not been
matched by an earlier change. So a write stands for one change at most. -/
theorem own_write_iff (daemon : Daemon) (ctx : SyncContext) (ttl : Nat) (ops : List RunningOp)
    (capture : Capture) {now : Nat} (hclock : (times ops ++ [now]).Pairwise (· ≤ ·)) :
    (classify (.data capture) (ops.foldl step (run daemon (.new ttl) ctx)).watch
        (ops.foldl step (run daemon (.new ttl) ctx)).guard now).1 = .suppressed .ownWrite ↔
      (WatchConfig.of daemon.config.settings).Admits capture ∧
        ∃ written, Awaited (.of daemon.config.settings) ops (hashPayloads capture.payloads) written ∧
          now - written ≤ ttl := by
  rw [watch_foldl]
  show (classify _ (.of daemon.config.settings) _ now).1 = _ ↔ _
  have hholds : Holds (.of daemon.config.settings) ttl ops
      (ops.foldl step (run daemon (.new ttl) ctx)).guard :=
    holds_foldl (s := run daemon (.new ttl) ctx) .new ops
  by_cases hadmits : (WatchConfig.of daemon.config.settings).Admits capture
  · have htimes : ∀ t ∈ times ops, t ≤ now := fun t ht =>
      (List.pairwise_append.1 hclock).2.2 t ht now List.mem_cons_self
    rw [(classify_of_admits hadmits).1, hholds.check_iff htimes]
    exact ⟨fun h => ⟨hadmits, h⟩, And.right⟩
  · exact iff_of_false (classify_of_not_admits hadmits).1 fun h => hadmits h.1

end

attribute [local instance] cardBlake3 noMatch SavedFormats.laptop

/-- The card number is written here, something else is copied, and then the card number is. -/
def writtenCard : List RunningOp := [.ownWrite cardRead 3, .change .concealed 4]

theorem own_write_iff_card :
    (classify (.data cardCapture)
        (writtenCard.foldl step (run careless (.new 750) (.start (.open_ 0) (.repeated 1) 0))).watch
        (writtenCard.foldl step (run careless (.new 750) (.start (.open_ 0) (.repeated 1) 0))).guard
        5).1 = .suppressed .ownWrite ↔
      (WatchConfig.of careless.config.settings).Admits cardCapture ∧
        ∃ written, Awaited (.of careless.config.settings) writtenCard
          (hashPayloads cardCapture.payloads) written ∧ 5 - written ≤ 750 :=
  own_write_iff careless (.start (.open_ 0) (.repeated 1) 0) 750 writtenCard cardCapture (by decide)

end RunningDaemon
end Clipse
