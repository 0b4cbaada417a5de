import Clipse.Clipboard.MacOs

/-!
# The watch thread on macOS

In any order of the thread's steps, writes to the pasteboard, receives and the shutdown:

* `MacWatcher.reports_in_order`: what was reported reaches the capture loop in order, nothing twice;
  while the receiver is there nothing is lost but, at most, the one report that was held when the
  thread was told to stop, and a receiver that goes away takes what the channel held with it;
* `MacWatcher.newest_looked_at`: every look is for a newer change than the one before, none is for
  what was there when the thread began, and a thread that is asleep and has seen the count has looked
  at the contents;
* `MacWatcher.drop_returns`: two steps after it was told to stop the thread has exited, however full
  the channel is, and once the handle is dropped nothing is reported any more.
-/

namespace Clipse
namespace MacWatcher

section
variable [Blake3] [Regex]

@[simp] theorem run_nil (s : MacWatcher) : s.run [] = s := rfl

@[simp] theorem run_cons (s : MacWatcher) (op : WatcherOp) (ops : List WatcherOp) :
    s.run (op :: ops) = (s.step op).run ops := rfl

theorem run_preserves {P : MacWatcher → Prop} (hstep : ∀ s op, P s → P (s.step op)) {s : MacWatcher}
    (h : P s) (ops : List WatcherOp) : P (s.run ops) := by
  induction ops generalizing s with
  | nil => exact h
  | cons op ops ih => exact ih (hstep s op h)

/-! ## Order -/

/-- What the thread has found and not sent. -/
def Unsent (s : MacWatcher) (unsent : List CaptureEvent) : Prop :=
  match s.thread with
  | .starting | .sleeping | .looking => unsent = []
  | .delivering event => unsent = [event]
  | .exited => unsent.length ≤ 1 ∧ (unsent = [] ∨ s.stopping = true ∨ s.closed = true)

/-- `lost` is what the channel held when its receiver was dropped. -/
structure Lost (s : MacWatcher) (lost : List CaptureEvent) : Prop where
  room : lost.length ≤ s.capacity
  closed : lost ≠ [] → s.closed = true

structure Orderly (s : MacWatcher) : Prop where
  room : s.queue.length ≤ s.capacity
  drained : s.closed = true → s.queue = []
  order : ∃ lost unsent, s.looks.map Look.event = s.received ++ s.queue ++ lost ++ unsent ∧
    s.Lost lost ∧ s.Unsent unsent
  classified : ∀ l ∈ s.looks, ∃ guard now, l.event = (classify l.poll s.config guard now).1

omit [Blake3] [Regex] in
/-- Only the thread's state and whether it was told to stop matter. -/
theorem Unsent.of_eq {s s' : MacWatcher} {unsent : List CaptureEvent} (h : s.Unsent unsent)
    (hthread : s'.thread = s.thread) (hstop : s.stopping = true → s'.stopping = true)
    (hclosed : s.closed = true → s'.closed = true) : s'.Unsent unsent := by
  unfold Unsent at h ⊢
  rw [hthread]
  split at h
  · exact h
  · exact h
  · exact h
  · exact h
  · exact ⟨h.1, h.2.imp_right (Or.imp hstop hclosed)⟩

omit [Blake3] [Regex] in
/-- Only the capacity and whether the receiver is gone matter. -/
theorem Lost.of_eq {s s' : MacWatcher} {lost : List CaptureEvent} (h : s.Lost lost)
    (hcapacity : s'.capacity = s.capacity) (hclosed : s.closed = true → s'.closed = true) :
    s'.Lost lost :=
  ⟨hcapacity ▸ h.room, fun hne => hclosed (h.closed hne)⟩

/-- The thread moves on with nothing new in hand, and the channel is left alone. -/
theorem Orderly.idle {s s' : MacWatcher} (h : s.Orderly) (hheld : s.Unsent [] → s'.Unsent [])
    (hnone : ∀ unsent, s.Unsent unsent → unsent = []) (hqueue : s'.queue = s.queue)
    (hcapacity : s'.capacity = s.capacity) (hclosed : s'.closed = s.closed)
    (hreceived : s'.received = s.received) (hlooks : s'.looks = s.looks)
    (hconfig : s'.config = s.config) : s'.Orderly := by
  obtain ⟨lost, unsent, horder, hlost, hunsent⟩ := h.order
  obtain rfl := hnone unsent hunsent
  refine ⟨?_, ?_, ⟨lost, [], ?_, ?_, hheld hunsent⟩, ?_⟩
  · rw [hqueue, hcapacity]; exact h.room
  · rw [hclosed, hqueue]; exact h.drained
  · rw [hlooks, hreceived, hqueue]; exact horder
  · exact hlost.of_eq hcapacity fun hc => hclosed.trans hc
  · rw [hlooks, hconfig]; exact h.classified

theorem Orderly.deliver {s : MacWatcher} {event : CaptureEvent} (h : s.Orderly)
    (hthread : s.thread = .delivering event) : (s.deliver event).Orderly := by
  obtain ⟨lost, unsent, horder, hlost, hunsent⟩ := h.order
  have hone : unsent = [event] := by
    unfold Unsent at hunsent
    rw [hthread] at hunsent
    exact hunsent
  subst hone
  unfold MacWatcher.deliver
  split
  · next hstop =>
    exact ⟨h.room, h.drained, ⟨lost, [event], horder, hlost.of_eq rfl id, Nat.le_refl 1,
      .inr (.inl hstop)⟩, h.classified⟩
  · split
    · next hclosed =>
      exact ⟨h.room, h.drained, ⟨lost, [event], horder, hlost.of_eq rfl id, Nat.le_refl 1,
        .inr (.inr hclosed)⟩, h.classified⟩
    · next hopen =>
      split
      · next hroom =>
        -- The receiver is there, so nothing was lost and the event is the next in the channel.
        have hnone : lost = [] := by
          by_contra hne
          exact hopen (hlost.closed hne)
        subst hnone
        refine ⟨?_, fun hc => absurd hc hopen, ⟨[], [], ?_, hlost.of_eq rfl id, rfl⟩, h.classified⟩
        · show (s.queue ++ [event]).length ≤ s.capacity
          rw [List.length_append]
          exact hroom
        · rw [List.append_nil, List.append_nil, ← List.append_assoc]
          rw [List.append_nil] at horder
          exact horder
      · exact ⟨h.room, h.drained, ⟨lost, [event], horder, hlost, hunsent⟩, h.classified⟩

theorem Orderly.look {s : MacWatcher} (h : s.Orderly) (hthread : s.thread = .looking) (now : Nat) :
    (s.look now).Orderly := by
  obtain ⟨lost, unsent, horder, hlost, hunsent⟩ := h.order
  have hnone : unsent = [] := by
    unfold Unsent at hunsent
    rw [hthread] at hunsent
    exact hunsent
  subst hnone
  refine ⟨h.room, h.drained, ⟨lost, [(classify s.contents s.config s.guard now).1], ?_,
    hlost.of_eq rfl id, rfl⟩, fun l hl => ?_⟩
  · show (s.looks ++ [_]).map Look.event = s.received ++ s.queue ++ lost ++ _
    rw [List.map_append, horder, List.append_nil]
    rfl
  · rcases List.mem_append.1 hl with hl | hl
    · exact h.classified l hl
    · rw [List.mem_singleton.1 hl]
      exact ⟨s.guard, now, rfl⟩

theorem Orderly.pollLoop {s : MacWatcher} (h : s.Orderly) (now : Nat) : (s.pollLoop now).Orderly := by
  unfold MacWatcher.pollLoop
  split
  · next hthread =>
    refine h.idle (fun _ => rfl) (fun unsent hunsent => ?_) rfl rfl rfl rfl rfl rfl
    unfold Unsent at hunsent
    rw [hthread] at hunsent
    exact hunsent
  · next hthread =>
    have hnone (unsent : List CaptureEvent) (hunsent : s.Unsent unsent) : unsent = [] := by
      unfold Unsent at hunsent
      rw [hthread] at hunsent
      exact hunsent
    split
    · exact h.idle (fun _ => ⟨Nat.zero_le 1, .inl rfl⟩) hnone rfl rfl rfl rfl rfl rfl
    · split
      · exact h
      · exact h.idle (fun _ => rfl) hnone rfl rfl rfl rfl rfl rfl
  · next hthread => exact h.look hthread now
  · next event hthread => exact h.deliver hthread
  · exact h

/-- A receiver that is dropped takes with it what the channel holds. -/
theorem Orderly.close {s : MacWatcher} (h : s.Orderly) : (s.step .close).Orderly := by
  obtain ⟨lost, unsent, horder, hlost, hunsent⟩ := h.order
  have hunsent' : (s.step .close).Unsent unsent := hunsent.of_eq rfl id fun _ => rfl
  refine ⟨Nat.zero_le _, fun _ => rfl, ?_, h.classified⟩
  cases hclosed : s.closed with
  | true =>
    refine ⟨lost, unsent, ?_, hlost.of_eq rfl fun _ => rfl, hunsent'⟩
    rw [h.drained hclosed] at horder
    exact horder
  | false =>
    have hnone : lost = [] := by
      by_contra hne
      rw [hlost.closed hne] at hclosed
      cases hclosed
    subst hnone
    refine ⟨s.queue, unsent, ?_, ⟨h.room, fun _ => rfl⟩, hunsent'⟩
    show s.looks.map Look.event = s.received ++ [] ++ s.queue ++ unsent
    rw [horder, List.append_nil, List.append_nil]

theorem Orderly.step {s : MacWatcher} (h : s.Orderly) (op : WatcherOp) : (s.step op).Orderly := by
  obtain ⟨lost, unsent, horder, hlost, hunsent⟩ := h.order
  cases op with
  | copy contents =>
    exact ⟨h.room, h.drained, ⟨lost, unsent, horder, hlost.of_eq rfl id, hunsent⟩, h.classified⟩
  | recordWrite hash now =>
    exact ⟨h.room, h.drained, ⟨lost, unsent, horder, hlost.of_eq rfl id, hunsent⟩, h.classified⟩
  | thread now => exact h.pollLoop now
  | receive =>
    unfold MacWatcher.step
    dsimp only
    split
    · exact h
    · next event queue hqueue =>
      have hroom := h.room
      rw [hqueue, List.length_cons] at hroom
      refine ⟨Nat.le_of_succ_le hroom, fun hclosed => ?_,
        ⟨lost, unsent, ?_, hlost.of_eq rfl id, hunsent⟩, h.classified⟩
      · have hempty := h.drained hclosed
        rw [hqueue] at hempty
        cases hempty
      · rw [horder, hqueue, List.append_assoc s.received [event], List.singleton_append]
  | close => exact h.close
  | stop =>
    exact ⟨h.room, h.drained, ⟨lost, unsent, horder, hlost.of_eq rfl id,
      hunsent.of_eq rfl (fun _ => rfl) id⟩, h.classified⟩
  | join =>
    unfold MacWatcher.step
    dsimp only
    split
    · exact ⟨h.room, h.drained, ⟨lost, unsent, horder, hlost.of_eq rfl id, hunsent⟩, h.classified⟩
    · exact h

/-- What the thread was started with stays. -/
theorem setup_step (s : MacWatcher) (op : WatcherOp) :
    (s.step op).config = s.config ∧ (s.step op).capacity = s.capacity := by
  cases op with
  | copy contents => exact ⟨rfl, rfl⟩
  | recordWrite hash now => exact ⟨rfl, rfl⟩
  | thread now =>
    show (s.pollLoop now).config = _ ∧ (s.pollLoop now).capacity = _
    unfold pollLoop
    split
    · exact ⟨rfl, rfl⟩
    · split
      · exact ⟨rfl, rfl⟩
      · split <;> exact ⟨rfl, rfl⟩
    · exact ⟨rfl, rfl⟩
    · unfold deliver
      split
      · exact ⟨rfl, rfl⟩
      · split
        · exact ⟨rfl, rfl⟩
        · split <;> exact ⟨rfl, rfl⟩
    · exact ⟨rfl, rfl⟩
  | receive =>
    unfold step
    dsimp only
    split <;> exact ⟨rfl, rfl⟩
  | close => exact ⟨rfl, rfl⟩
  | stop => exact ⟨rfl, rfl⟩
  | join =>
    unfold step
    dsimp only
    split <;> exact ⟨rfl, rfl⟩

theorem setup_run (s : MacWatcher) (ops : List WatcherOp) :
    (s.run ops).config = s.config ∧ (s.run ops).capacity = s.capacity := by
  refine run_preserves (P := fun s' => s'.config = s.config ∧ s'.capacity = s.capacity)
    (fun s' op h => ?_) ⟨rfl, rfl⟩ ops
  obtain ⟨hconfig, hcapacity⟩ := setup_step s' op
  exact ⟨hconfig.trans h.1, hcapacity.trans h.2⟩

variable (config : WatchConfig) (ttl capacity changeCount : Nat) (contents : RawPoll)

/-- **Reports arrive in order**, each once, through a channel that never holds more than its
capacity. While the receiver is there, all that can be missing is one report that was held in
`deliver`: for as long as the channel is full, or for good once the thread has given up because it
was told to stop. A receiver that goes away also takes with it what the channel held. -/
theorem reports_in_order (ops : List WatcherOp) :
    let s := (start config ttl capacity changeCount contents).run ops
    s.queue.length ≤ capacity ∧
      (∀ l ∈ s.looks, ∃ guard now, l.event = (classify l.poll config guard now).1) ∧
      ∃ lost unsent, s.looks.map Look.event = s.received ++ s.queue ++ lost ++ unsent ∧
        lost.length ≤ capacity ∧ (lost ≠ [] → s.closed = true ∧ s.queue = []) ∧
        unsent.length ≤ 1 ∧ (unsent ≠ [] → (∃ event, s.thread = .delivering event) ∨
          s.thread = .exited ∧ (s.stopping = true ∨ s.closed = true)) := by
  intro s
  have hs : s.Orderly := run_preserves (P := Orderly) (fun _ op h => h.step op)
    (⟨Nat.zero_le _, fun _ => rfl, ⟨[], [], rfl, ⟨Nat.zero_le _, fun hne => absurd rfl hne⟩, rfl⟩,
        fun l hl => absurd hl List.not_mem_nil⟩ :
      (start config ttl capacity changeCount contents).Orderly) ops
  have hconfig : s.config = config := (setup_run _ ops).1
  have hcapacity : s.capacity = capacity := (setup_run _ ops).2
  obtain ⟨lost, unsent, horder, hlost, hunsent⟩ := hs.order
  refine ⟨hcapacity ▸ hs.room, fun l hl => hconfig ▸ hs.classified l hl, lost, unsent, horder,
    hcapacity ▸ hlost.room, fun hne => ⟨hlost.closed hne, hs.drained (hlost.closed hne)⟩, ?_⟩
  unfold Unsent at hunsent
  split at hunsent
  · exact ⟨by simp [hunsent], fun hne => absurd hunsent hne⟩
  · exact ⟨by simp [hunsent], fun hne => absurd hunsent hne⟩
  · exact ⟨by simp [hunsent], fun hne => absurd hunsent hne⟩
  · next event hthread => exact ⟨by simp [hunsent], fun _ => .inl ⟨event, hthread⟩⟩
  · next hthread => exact ⟨hunsent.1, fun hne => .inr ⟨hthread, hunsent.2.resolve_left hne⟩⟩

/-! ## Nothing is missed -/

/-- What has been looked at, for a thread that began at the count `seed`. -/
structure Watchful (seed : Nat) (s : MacWatcher) : Prop where
  seeded : s.seed = some seed
  started : s.thread ≠ .starting
  seen : seed ≤ s.lastChange
  behind : s.lastChange ≤ s.changeCount
  rising : (s.looks.map Look.change).Pairwise (· < ·)
  within : ∀ l ∈ s.looks, seed < l.change ∧ l.change ≤ s.lastChange
  fresh : s.thread = .looking → seed < s.lastChange ∧ ∀ l ∈ s.looks, l.change < s.lastChange
  newest : s.thread ≠ .looking → s.lastChange = s.changeCount → seed < s.lastChange →
    ∃ l, s.looks.getLast? = some l ∧ l.poll = s.contents

/-- The thread has not begun, or it watches from a count that is not older than the one at which it
was spawned. -/
def Begun (spawned : Nat) (s : MacWatcher) : Prop :=
  (s.seed = none ∧ s.thread = .starting ∧ s.looks = [] ∧ spawned ≤ s.changeCount) ∨
    ∃ seed, spawned ≤ seed ∧ s.Watchful seed

variable {config ttl capacity changeCount contents} {seed : Nat} {s : MacWatcher}

omit [Blake3] [Regex] in
/-- The thread moves on, and nothing else happens. -/
theorem Watchful.of_thread {s' : MacWatcher} (h : s.Watchful seed) (hseed : s'.seed = s.seed)
    (hlast : s'.lastChange = s.lastChange) (hcount : s'.changeCount = s.changeCount)
    (hcontents : s'.contents = s.contents) (hlooks : s'.looks = s.looks)
    (hthread : s'.thread = s.thread ∨ s.thread ≠ .looking ∧ s'.thread ≠ .looking ∧
      s'.thread ≠ .starting) : s'.Watchful seed where
  seeded := hseed ▸ h.seeded
  started := by
    rcases hthread with he | ⟨-, -, hne⟩
    · exact he ▸ h.started
    · exact hne
  seen := hlast ▸ h.seen
  behind := by rw [hlast, hcount]; exact h.behind
  rising := hlooks ▸ h.rising
  within := by rw [hlooks, hlast]; exact h.within
  fresh hl := by
    rw [hlooks, hlast]
    rcases hthread with he | ⟨-, hne⟩
    · exact h.fresh (he ▸ hl)
    · exact absurd hl hne.1
  newest hl he hs := by
    rw [hlooks, hcontents]
    rw [hlast] at he hs
    rw [hcount] at he
    rcases hthread with ht | ⟨hne, -⟩
    · exact h.newest (ht ▸ hl) he hs
    · exact h.newest hne he hs

theorem Watchful.look (h : s.Watchful seed) (hthread : s.thread = .looking) (now : Nat) :
    (s.look now).Watchful seed := by
  obtain ⟨hseed, hfresh⟩ := h.fresh hthread
  refine ⟨h.seeded, (by simp [MacWatcher.look]), h.seen, h.behind, ?_, fun l hl => ?_,
    fun hl => (by cases hl), fun _ _ _ => ?_⟩
  · show ((s.looks ++ [_]).map Look.change).Pairwise (· < ·)
    rw [List.map_append, List.pairwise_append]
    refine ⟨h.rising, List.pairwise_singleton _ _, fun c hc d hd => ?_⟩
    obtain ⟨l, hl, rfl⟩ := List.mem_map.1 hc
    rw [List.mem_singleton.1 hd]
    exact hfresh l hl
  · rcases List.mem_append.1 hl with hl | hl
    · exact h.within l hl
    · rw [List.mem_singleton.1 hl]
      exact ⟨hseed, Nat.le_refl _⟩
  · exact ⟨_, List.getLast?_concat, rfl⟩

theorem Watchful.pollLoop (h : s.Watchful seed) (now : Nat) : (s.pollLoop now).Watchful seed := by
  unfold MacWatcher.pollLoop
  split
  · next hthread => exact absurd hthread h.started
  · next hthread =>
    have hawake : s.thread ≠ .looking := by rw [hthread]; simp
    split
    · exact h.of_thread rfl rfl rfl rfl rfl (.inr ⟨hawake, by simp, by simp⟩)
    · split
      · exact h
      · next hne =>
        have hlt : s.lastChange < s.changeCount := Nat.lt_of_le_of_ne h.behind (Ne.symm hne)
        refine ⟨h.seeded, (by simp), h.seen.trans h.behind, Nat.le_refl _, h.rising,
          fun l hl => ?_, fun _ => ⟨Nat.lt_of_le_of_lt h.seen hlt, fun l hl => ?_⟩, fun hl => absurd rfl hl⟩
        · exact ⟨(h.within l hl).1, (h.within l hl).2.trans h.behind⟩
        · exact Nat.lt_of_le_of_lt (h.within l hl).2 hlt
  · next hthread => exact h.look hthread now
  · next event hthread =>
    have hawake : s.thread ≠ .looking := by rw [hthread]; simp
    unfold MacWatcher.deliver
    split
    · exact h.of_thread rfl rfl rfl rfl rfl (.inr ⟨hawake, by simp, by simp⟩)
    · split
      · exact h.of_thread rfl rfl rfl rfl rfl (.inr ⟨hawake, by simp, by simp⟩)
      · split
        · exact h.of_thread rfl rfl rfl rfl rfl (.inr ⟨hawake, by simp, by simp⟩)
        · exact h
  · exact h

theorem Watchful.step (h : s.Watchful seed) (op : WatcherOp) : (s.step op).Watchful seed := by
  cases op with
  | copy contents =>
    have hlt : s.lastChange < s.changeCount + 1 := Nat.lt_succ_of_le h.behind
    exact ⟨h.seeded, h.started, h.seen, Nat.le_of_lt hlt, h.rising, h.within, h.fresh,
      fun _ he => absurd he (Nat.ne_of_lt hlt)⟩
  | recordWrite hash now => exact h.of_thread rfl rfl rfl rfl rfl (.inl rfl)
  | thread now => exact h.pollLoop now
  | receive =>
    unfold MacWatcher.step
    dsimp only
    split
    · exact h
    · exact h.of_thread rfl rfl rfl rfl rfl (.inl rfl)
  | close => exact h.of_thread rfl rfl rfl rfl rfl (.inl rfl)
  | stop => exact h.of_thread rfl rfl rfl rfl rfl (.inl rfl)
  | join =>
    unfold MacWatcher.step
    dsimp only
    split
    · exact h.of_thread rfl rfl rfl rfl rfl (.inl rfl)
    · exact h

/-- The thread's first step: it watches from the count that it finds. -/
theorem Watchful.begin (hthread : s.thread = .starting) (hlooks : s.looks = []) (now : Nat) :
    (s.pollLoop now).Watchful s.changeCount := by
  unfold MacWatcher.pollLoop
  rw [hthread]
  have hnone (l : Look) : l ∉ s.looks := by rw [hlooks]; exact List.not_mem_nil
  refine ⟨rfl, by simp, Nat.le_refl _, Nat.le_refl _, ?_, fun l hl => absurd hl (hnone l),
    fun hl => (by cases hl), fun _ _ hlt => absurd hlt (Nat.lt_irrefl _)⟩
  show (s.looks.map Look.change).Pairwise (· < ·)
  rw [hlooks]
  exact List.Pairwise.nil

theorem Begun.step {spawned : Nat} (h : s.Begun spawned) (op : WatcherOp) :
    (s.step op).Begun spawned := by
  rcases h with ⟨hseed, hthread, hlooks, hle⟩ | ⟨seed, hle, hs⟩
  · cases op with
    | copy contents => exact .inl ⟨hseed, hthread, hlooks, Nat.le_succ_of_le hle⟩
    | recordWrite hash now => exact .inl ⟨hseed, hthread, hlooks, hle⟩
    | thread now => exact .inr ⟨s.changeCount, hle, .begin hthread hlooks now⟩
    | receive =>
      unfold MacWatcher.step
      dsimp only
      split <;> exact .inl ⟨hseed, hthread, hlooks, hle⟩
    | close => exact .inl ⟨hseed, hthread, hlooks, hle⟩
    | stop => exact .inl ⟨hseed, hthread, hlooks, hle⟩
    | join =>
      unfold MacWatcher.step
      dsimp only
      split <;> exact .inl ⟨hseed, hthread, hlooks, hle⟩
  · exact .inr ⟨seed, hle, hs.step op⟩

variable (config ttl capacity changeCount contents) in
/-- **No copy is missed**: the looks are for rising counts above the one that the thread began with,
so what was on the pasteboard then is never reported; and when the thread is asleep and has seen the
count, the last look was at what is on the pasteboard now, unless nothing was copied since the thread
began. -/
theorem newest_looked_at (ops : List WatcherOp) :
    let s := (start config ttl capacity changeCount contents).run ops
    (s.looks.map Look.change).Pairwise (· < ·) ∧
      (∀ l ∈ s.looks, ∃ seed, s.seed = some seed ∧ changeCount ≤ seed ∧ seed < l.change) ∧
      (s.thread = .sleeping → s.lastChange = s.changeCount → s.seed ≠ some s.changeCount →
        ∃ l, s.looks.getLast? = some l ∧ l.poll = s.contents) := by
  intro s
  have hs : s.Begun changeCount :=
    run_preserves (P := Begun changeCount) (fun _ op h => h.step op)
      (.inl ⟨rfl, rfl, rfl, Nat.le_refl _⟩ :
        (start config ttl capacity changeCount contents).Begun changeCount) ops
  rcases hs with ⟨-, hthread, hlooks, -⟩ | ⟨seed, hle, hs⟩
  · rw [hlooks, hthread]
    exact ⟨List.Pairwise.nil, fun l hl => absurd hl List.not_mem_nil, fun h => (by cases h)⟩
  · refine ⟨hs.rising, fun l hl => ⟨seed, hs.seeded, hle, (hs.within l hl).1⟩,
      fun hthread he hne => ?_⟩
    have hlt : seed < s.lastChange := by
      refine Nat.lt_of_le_of_ne hs.seen fun h => hne ?_
      rw [hs.seeded, h, he]
    exact hs.newest (by rw [hthread]; simp) he hlt

/-! ## Shutdown -/

/-- The steps that a thread which was told to stop takes at most. -/
def stepsLeft : WatchThread → Nat
  | .exited => 0
  | .sleeping | .delivering _ => 1
  | .starting | .looking => 2

/-- The operation is a step of the thread. -/
def isThread : WatcherOp → Bool
  | .thread _ => true
  | _ => false

theorem stopping_step (h : s.stopping = true) (op : WatcherOp) : (s.step op).stopping = true := by
  cases op with
  | copy contents => exact h
  | recordWrite hash now => exact h
  | thread now =>
    show (s.pollLoop now).stopping = true
    unfold pollLoop
    split
    · exact h
    · rw [if_pos h]; exact h
    · exact h
    · unfold deliver
      rw [if_pos h]; exact h
    · exact h
  | receive =>
    unfold step
    dsimp only
    split <;> exact h
  | close => exact h
  | stop => rfl
  | join =>
    unfold step
    dsimp only
    split <;> exact h

theorem stepsLeft_thread (h : s.stopping = true) (now : Nat) :
    stepsLeft (s.pollLoop now).thread ≤ stepsLeft s.thread - 1 := by
  unfold pollLoop
  cases hthread : s.thread with
  | starting => exact Nat.le_refl 1
  | sleeping =>
    dsimp only
    rw [if_pos h]
    exact Nat.le_refl 0
  | looking => exact Nat.le_refl 1
  | delivering event =>
    dsimp only
    unfold deliver
    rw [if_pos h]
    exact Nat.le_refl 0
  | exited =>
    dsimp only
    rw [hthread]
    exact Nat.le_refl 0

theorem thread_step {op : WatcherOp} (h : isThread op = false) : (s.step op).thread = s.thread := by
  cases op with
  | copy contents => rfl
  | recordWrite hash now => rfl
  | thread now => cases h
  | receive =>
    unfold step
    dsimp only
    split <;> rfl
  | close => rfl
  | stop => rfl
  | join =>
    unfold step
    dsimp only
    split <;> rfl

theorem stepsLeft_run (h : s.stopping = true) (ops : List WatcherOp) :
    stepsLeft (s.run ops).thread ≤ stepsLeft s.thread - ops.countP isThread := by
  induction ops generalizing s with
  | nil => exact Nat.le_refl _
  | cons op ops ih =>
    refine (ih (stopping_step h op)).trans ?_
    cases hop : isThread op with
    | false =>
      rw [thread_step hop, List.countP_cons_of_neg (by rw [hop]; simp)]
    | true =>
      obtain ⟨now, rfl⟩ : ∃ now, op = .thread now := by
        cases op with
        | thread now => exact ⟨now, rfl⟩
        | _ => cases hop
      rw [List.countP_cons_of_pos hop]
      have := stepsLeft_thread h now
      show stepsLeft (s.pollLoop now).thread - _ ≤ _
      omega

/-- The handle is gone, and so is the thread. -/
structure Ended (s : MacWatcher) : Prop where
  stopping : s.joined = true → s.stopping = true
  exited : s.joined = true → s.thread = .exited

theorem Ended.step (h : s.Ended) (op : WatcherOp) : (s.step op).Ended := by
  have hkeep (s' : MacWatcher) (hj : s'.joined = s.joined) (hs : s.stopping = true → s'.stopping = true)
      (ht : s.thread = .exited → s'.thread = .exited) : s'.Ended :=
    ⟨fun hjoined => hs (h.stopping (hj ▸ hjoined)), fun hjoined => ht (h.exited (hj ▸ hjoined))⟩
  cases op with
  | copy contents => exact hkeep _ rfl id id
  | recordWrite hash now => exact hkeep _ rfl id id
  | thread now =>
    refine hkeep _ ?_ (fun hs => stopping_step hs (.thread now)) fun ht => ?_
    · show (s.pollLoop now).joined = s.joined
      unfold pollLoop
      split
      · rfl
      · split
        · rfl
        · split <;> rfl
      · rfl
      · unfold deliver
        split
        · rfl
        · split
          · rfl
          · split <;> rfl
      · rfl
    · show (s.pollLoop now).thread = .exited
      unfold pollLoop
      rw [ht]
      exact ht
  | receive =>
    unfold MacWatcher.step
    dsimp only
    split
    · exact h
    · exact hkeep _ rfl id id
  | close => exact hkeep _ rfl id id
  | stop => exact hkeep _ rfl (fun _ => rfl) id
  | join =>
    unfold MacWatcher.step
    dsimp only
    split
    · next hdone => exact ⟨fun _ => hdone.1, fun _ => hdone.2⟩
    · exact h

/-- What the channel was to bring: all of it, or what was received before the receiver went away. -/
def Settled (reports : List CaptureEvent) (s : MacWatcher) : Prop :=
  s.received ++ s.queue = reports ∨ s.closed = true ∧ s.queue = [] ∧ s.received <+: reports

theorem Settled.step {reports : List CaptureEvent} (h : s.Settled reports) (hthread : s.thread = .exited)
    (op : WatcherOp) : (s.step op).thread = .exited ∧ (s.step op).looks = s.looks ∧
      (s.step op).Settled reports := by
  cases op with
  | thread now =>
    have hsame : s.pollLoop now = s := by
      unfold pollLoop
      rw [hthread]
    show (s.pollLoop now).thread = _ ∧ (s.pollLoop now).looks = _ ∧ (s.pollLoop now).Settled reports
    rw [hsame]
    exact ⟨hthread, rfl, h⟩
  | receive =>
    refine ⟨(thread_step rfl).trans hthread, ?_⟩
    unfold MacWatcher.step
    dsimp only
    split
    · exact ⟨rfl, h⟩
    · next event queue hqueue =>
      refine ⟨rfl, ?_⟩
      rcases h with h | ⟨-, hempty, -⟩
      · refine .inl ?_
        show s.received ++ [event] ++ queue = reports
        rw [← h, hqueue, List.append_assoc, List.singleton_append]
      · rw [hqueue] at hempty
        cases hempty
  | close =>
    refine ⟨hthread, rfl, .inr ⟨rfl, rfl, ?_⟩⟩
    rcases h with h | ⟨-, -, h⟩
    · exact ⟨s.queue, h⟩
    · exact h
  | join =>
    refine ⟨(thread_step rfl).trans hthread, ?_⟩
    unfold MacWatcher.step
    dsimp only
    split <;> exact ⟨rfl, h⟩
  | copy contents => exact ⟨hthread, rfl, h⟩
  | recordWrite hash now => exact ⟨hthread, rfl, h⟩
  | stop => exact ⟨hthread, rfl, h⟩

theorem Settled.run {reports : List CaptureEvent} (h : s.Settled reports) (hthread : s.thread = .exited)
    (ops : List WatcherOp) : (s.run ops).looks = s.looks ∧ (s.run ops).Settled reports := by
  induction ops generalizing s with
  | nil => exact ⟨rfl, h⟩
  | cons op ops ih =>
    obtain ⟨hexited, hlooks, hsettled⟩ := h.step hthread op
    obtain ⟨hsame, hrun⟩ := ih hsettled hexited
    exact ⟨hsame.trans hlooks, hrun⟩

variable (config ttl capacity changeCount contents) in
/-- **Dropping the watcher returns**: once the thread was told to stop, two more of its steps end it,
whatever else happens between them and whether or not anybody empties the channel. After the drop
has returned, the thread looks at nothing and reports nothing any more: what the channel holds is
received, or dropped with the receiver. -/
theorem drop_returns (ops ops' : List WatcherOp) :
    let s := (start config ttl capacity changeCount contents).run ops
    (s.stopping = true → 2 ≤ ops'.countP isThread → (s.run ops').thread = .exited) ∧
      (s.joined = true → (s.run ops').looks = s.looks ∧
        ((s.run ops').received ++ (s.run ops').queue = s.received ++ s.queue ∨
          (s.run ops').closed = true ∧ (s.run ops').queue = [] ∧
            (s.run ops').received <+: s.received ++ s.queue)) := by
  intro s
  constructor
  · intro hstop hcount
    have hleft := stepsLeft_run hstop ops'
    have htwo : stepsLeft s.thread ≤ 2 := by
      cases s.thread <;> simp [stepsLeft]
    have hzero : stepsLeft (s.run ops').thread = 0 := by omega
    cases hthread : (s.run ops').thread with
    | exited => rfl
    | _ => rw [hthread] at hzero; cases hzero
  · intro hjoined
    have hended : s.Ended := run_preserves (P := Ended) (fun _ op h => h.step op)
      (⟨fun h => (by cases h), fun h => (by cases h)⟩ :
        (start config ttl capacity changeCount contents).Ended) ops
    exact Settled.run (.inl rfl : s.Settled (s.received ++ s.queue)) (hended.exited hjoined) ops'

end
end MacWatcher
end Clipse
