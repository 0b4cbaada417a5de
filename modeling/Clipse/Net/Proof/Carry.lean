import Clipse.Lib.Rest
import Clipse.Net.Proof.Framing
import Clipse.Sync.Proof.Deadlock

/-!
# Sessions on a link that counts

A session over a `PeerLink` goes on as the same session over a perfect link does (`Related`), step
by step, for as long as the frames of its traffic fit; when a step's frames do not fit, it fails
with a crypto error (`mirrors_step`).
-/

namespace Clipse

open Duplex

/-! ## What is in flight -/

section
variable [MessagePack]

/-- The number of frames of items. -/
def frameCount (is : List (Item SyncMessage Bytes)) : Nat := (is.flatMap segments).length

theorem frameCount_append (is js : List (Item SyncMessage Bytes)) :
    frameCount (is ++ js) = frameCount is + frameCount js := by
  unfold frameCount
  rw [List.flatMap_append, List.length_append]

theorem frameCount_singleton (i : Item SyncMessage Bytes) :
    frameCount [i] = (segments i).length := by
  unfold frameCount
  rw [List.flatMap_singleton]

variable [Snow]

namespace Noise

variable (N : Noise) (key : N.Key)

/-- The frames of an item on the control stream. -/
def controlFrames (n : Nat) : Item SyncMessage Bytes → List Bytes
  | .msg m => N.encryptFrom key n (segments (.msg m))
  | .stream _ => []

/-- The streams of an item. -/
def streamFrames (n : Nat) : Item SyncMessage Bytes → List (List Bytes)
  | .msg _ => []
  | .stream b => [N.encryptFrom key n (segments (.stream b))]

/-- The control stream with the frames of items, sealed one after the other from `n` on. -/
def control : Nat → List (Item SyncMessage Bytes) → List Bytes
  | _, [] => []
  | n, i :: is => N.controlFrames key n i ++ control (n + (segments i).length) is

/-- The streams of items, sealed one after the other from `n` on. -/
def streams : Nat → List (Item SyncMessage Bytes) → List (List Bytes)
  | _, [] => []
  | n, i :: is => N.streamFrames key n i ++ streams (n + (segments i).length) is

theorem control_snoc (n : Nat) (is : List (Item SyncMessage Bytes)) (i : Item SyncMessage Bytes) :
    N.control key n (is ++ [i]) =
      N.control key n is ++ N.controlFrames key (n + frameCount is) i := by
  induction is generalizing n with
  | nil => exact List.append_nil _
  | cons j is ih =>
    rw [List.cons_append, control, control, ih, List.append_assoc, Nat.add_assoc,
      ← frameCount_singleton j, ← frameCount_append]
    rfl

theorem streams_snoc (n : Nat) (is : List (Item SyncMessage Bytes)) (i : Item SyncMessage Bytes) :
    N.streams key n (is ++ [i]) =
      N.streams key n is ++ N.streamFrames key (n + frameCount is) i := by
  induction is generalizing n with
  | nil => exact List.append_nil _
  | cons j is ih =>
    rw [List.cons_append, streams, streams, ih, List.append_assoc, Nat.add_assoc,
      ← frameCount_singleton j, ← frameCount_append]
    rfl

end Noise

end

/-! ## Steps on the wire -/

section
variable [Snow] {α : Type} {s : SyncContext} {inbox : List Bytes} {st : List (List Bytes)}
  {log : List (Traffic Bytes (List Bytes))} {v : End linkWire α}

theorem steps_writeFrames (frames : List Bytes) (k : Proc linkWire α) :
    Steps (⟨writeFrames frames k, s, inbox, st, log⟩, v)
      (⟨k, s, inbox, st, log ++ frames.map .sent⟩, v.deliver frames []) := by
  induction frames generalizing log v with
  | nil =>
    rw [deliver_nil, List.map_nil, List.append_nil]
    exact .refl
  | cons frame frames ih =>
    have hstep : Steps (⟨writeFrames (frame :: frames) k, s, inbox, st, log⟩, v)
        (⟨writeFrames frames k, s, inbox, st, log ++ [.sent frame]⟩, v.deliver [frame] []) :=
      steps_next rfl
    have hrest := @ih (log ++ [.sent frame]) (v.deliver [frame] [])
    rw [deliver_deliver, List.append_assoc] at hrest
    exact hstep.trans hrest

variable [MessagePack] {N : Noise} {out inn : N.Key} {sealed opened : Nat} {sizes : List Nat}
  {f : List ClipSummary → SyncMessage → Option (List ClipSummary)}
  {k : List ClipSummary → SyncMessage → PeerLink → Proc linkWire α} {a : List ClipSummary}

/-- What the loop does with a message. -/
def afterMessage (f : List ClipSummary → SyncMessage → Option (List ClipSummary))
    (k : List ClipSummary → SyncMessage → PeerLink → Proc linkWire α) (a : List ClipSummary)
    (m : SyncMessage) (link : PeerLink) : Proc linkWire α :=
  match f a m with
  | some a => recvLoop f k a link
  | none => k a m link

/-- The rest of a message's segments arrive. -/
theorem steps_recvLoop {m : SyncMessage} {body : Bytes} (hb : MessagePack.toVec m = some body)
    (hlen : body.length ≤ maxMessageBytes) {ps : List Bytes} {link : PeerLink}
    (hbuf : link.decoder.buffer ++ ps.flatten = prefixed body) (hne : ps ≠ [])
    (hp : ∀ p ∈ ps, frameSize p ≤ maxNoiseMessage ∧ p ≠ [])
    (h : link.session.Tracks N out inn sealed opened sizes) :
    (Fits (sizes ++ ps.map frameSize) → ∃ link' log',
      link'.Carried N out inn sealed (opened + ps.length) (sizes ++ ps.map frameSize) ∧
      Steps (⟨recvLoop f k a link, s, N.encryptFrom inn opened ps ++ inbox, st, log⟩, v)
        (⟨afterMessage f k a m link', s, inbox, st, log'⟩, v)) ∧
    (¬ Fits (sizes ++ ps.map frameSize) → ∃ inbox' log',
      Steps (⟨recvLoop f k a link, s, N.encryptFrom inn opened ps ++ inbox, st, log⟩, v)
        (⟨.fail (.link (.crypto .rekeyRequired)), s, inbox', st, log'⟩, v)) := by
  induction ps generalizing link opened sizes log with
  | nil => exact absurd rfl hne
  | cons p ps ih =>
    obtain ⟨hsize, -⟩ := hp p List.mem_cons_self
    have hp' : ∀ q ∈ ps, frameSize q ≤ maxNoiseMessage ∧ q ≠ [] :=
      fun q hq => hp q (List.mem_cons_of_mem _ hq)
    rw [List.flatten_cons, ← List.append_assoc] at hbuf
    rw [List.map_cons]
    by_cases hr : Room sizes
    · rw [List.append_cons]
      by_cases hnil : ps = []
      · -- the message is complete
        subst hnil
        rw [List.flatten_nil, List.append_nil] at hbuf
        obtain ⟨s', hacc, h'⟩ := PeerLink.accept_last hlen hsize h hr hb hbuf
        refine ⟨fun _ => ⟨{ session := s', decoder := { buffer := [] } },
          log ++ [.received (N.encrypt inn opened p)], ⟨?_, rfl⟩, steps_quiet ?_⟩, fun hf => ?_⟩
        · rw [List.map_nil, List.append_nil]
          exact h'
        · simp only [End.next, recvLoop, Noise.encryptFrom, List.cons_append, List.nil_append, hacc,
            afterMessage]
          cases f a m <;> rfl
        · rw [List.map_nil, List.append_nil] at hf
          exact absurd h'.fits hf
      · -- there is more to come
        have hrest : ps.flatten ≠ [] := by
          obtain ⟨q, hq⟩ := List.exists_mem_of_ne_nil ps hnil
          exact fun he => (hp' q hq).2 (List.flatten_eq_nil_iff.1 he q hq)
        obtain ⟨s', hacc, h'⟩ := PeerLink.accept_part hlen hsize h hr hbuf hrest
        have hstep : ∀ inbox', Steps (⟨recvLoop f k a link, s,
            N.encrypt inn opened p :: inbox', st, log⟩, v)
            (⟨recvLoop f k a
              { session := s', decoder := { buffer := link.decoder.buffer ++ p } }, s, inbox', st,
              log ++ [.received (N.encrypt inn opened p)]⟩, v) := by
          intro inbox'
          refine steps_quiet ?_
          simp only [End.next, recvLoop, hacc]
        obtain ⟨hok, herr⟩ := @ih (log ++ [.received (N.encrypt inn opened p)]) (opened + 1)
          (sizes ++ [frameSize p])
          { session := s', decoder := { buffer := link.decoder.buffer ++ p } } hbuf hnil hp' h'
        refine ⟨fun hf => ?_, fun hf => ?_⟩
        · obtain ⟨link', log', hc, hs⟩ := hok hf
          rw [List.length_cons, Nat.add_comm ps.length, ← Nat.add_assoc]
          exact ⟨link', log', hc, (hstep _).trans hs⟩
        · obtain ⟨inbox', log', hs⟩ := herr hf
          exact ⟨inbox', log', (hstep _).trans hs⟩
    · refine ⟨fun hf => absurd hf.room hr, fun _ => ⟨N.encryptFrom inn (opened + 1) ps ++ inbox,
        log ++ [.received (N.encrypt inn opened p)], steps_quiet ?_⟩⟩
      simp only [End.next, recvLoop, Noise.encryptFrom, List.cons_append,
          PeerLink.accept_error h hr hsize]

/-- A message arrives, all of it. -/
theorem steps_message {m : SyncMessage} (hm : Sendable m) {link : PeerLink}
    (h : link.Carried N out inn sealed opened sizes) :
    (Fits (sizes ++ itemSizes (.msg m)) → ∃ link' log',
      link'.Carried N out inn sealed (opened + (segments (.msg m)).length)
        (sizes ++ itemSizes (.msg m)) ∧
      Steps (⟨recvLoop f k a link, s, N.encryptFrom inn opened (segments (.msg m)) ++ inbox, st,
          log⟩, v)
        (⟨afterMessage f k a m link', s, inbox, st, log'⟩, v)) ∧
    (¬ Fits (sizes ++ itemSizes (.msg m)) → ∃ inbox' log',
      Steps (⟨recvLoop f k a link, s, N.encryptFrom inn opened (segments (.msg m)) ++ inbox, st,
          log⟩, v)
        (⟨.fail (.link (.crypto .rekeyRequired)), s, inbox', st, log'⟩, v)) := by
  obtain ⟨body, hb, hlen⟩ := hm
  have hseg := segments_msg hb
  have hpos : 0 < segmentBytes := by decide
  refine steps_recvLoop hb hlen ?_ ?_ (fun p hp => ⟨frameSize_le hp, ?_⟩) h.session
  · rw [h.buffer, hseg, List.flatten_chunks hpos]
    rfl
  · rw [hseg]
    exact List.chunks_ne_nil hpos (List.append_ne_nil_of_left_ne_nil (List.cons_ne_nil _ _) _)
  · rw [hseg] at hp
    exact List.ne_nil_of_mem_chunks hpos hp

/-- A stream arrives. -/
theorem steps_recvBlob {q : Bytes → Session α} {frames : List Bytes} {b : Bytes}
    {link link' : PeerLink} (h : link.recvBlob frames = .ok (b, link')) :
    Steps (⟨onWire (.recvStream q) link, s, inbox, frames :: st, log⟩, v)
      (⟨onWire (q b) link', s, inbox, st, log ++ [Traffic.receivedStream frames]⟩, v) := by
  refine steps_quiet ?_
  simp only [onWire, End.next, h, ofLink]

theorem steps_recvBlob_error {q : Bytes → Session α} {frames : List Bytes} {e : LinkError}
    {link : PeerLink} (h : link.recvBlob frames = .error e) :
    Steps (⟨onWire (.recvStream q) link, s, inbox, frames :: st, log⟩, v)
      (⟨.fail (.link e), s, inbox, st, log ++ [Traffic.receivedStream frames]⟩, v) := by
  refine steps_quiet ?_
  simp only [onWire, End.next, h, ofLink]

end

/-! ## The two sessions side by side -/

section
variable [Snow] [MessagePack] {α : Type} {N : Noise} {k k' : N.Key}
  {is is' : List (Item SyncMessage Bytes)} {e p e' p' : End syncWire α} {w v : End linkWire α}
  {link link' : PeerLink}

/-- The end `w` is the end `e` on a link, with the items `is` in flight to it. -/
structure Mirrors (N : Noise) (out inn : N.Key) (is : List (Item SyncMessage Bytes))
    (e : End syncWire α) (w : End linkWire α) (link : PeerLink) : Prop where
  carried : link.Carried N out inn (frameCount (Traffic.sentItems e.log))
    (frameCount (Traffic.receivedItems e.log)) (frameSizes e.log)
  proc : w.proc = onWire e.proc link
  state : w.state = e.state
  inbox : w.inbox = N.control inn (frameCount (Traffic.receivedItems e.log)) is
  streams : w.streams = N.streams inn (frameCount (Traffic.receivedItems e.log)) is

/-- The two ends of a session and the same ends on their links. -/
def Related (N : Noise) (k k' : N.Key) (c : Link syncWire α) (w : Link linkWire α) : Prop :=
  ∃ is is' link link', Mirrors N k k' is' c.1 w.1 link ∧ Mirrors N k' k is c.2 w.2 link' ∧
    Traffic.sentItems c.1.log = Traffic.receivedItems c.2.log ++ is ∧
    Traffic.sentItems c.2.log = Traffic.receivedItems c.1.log ++ is'

theorem Related.swap {c : Link syncWire α} {w : Link linkWire α} (h : Related N k k' c w) :
    Related N k' k c.swap w.swap := by
  obtain ⟨is, is', link, link', hl, hr, hs, hs'⟩ := h
  exact ⟨is', is, link', link, hr, hl, hs', hs⟩

omit [Snow] [MessagePack] in
theorem mem_sentMsgs {log : List (Traffic SyncMessage Bytes)} {m : SyncMessage}
    (h : .msg m ∈ Traffic.sentItems log) : m ∈ Traffic.sentMsgs log := by
  obtain ⟨t, ht, he⟩ := List.mem_filterMap.1 h
  refine List.mem_filterMap.2 ⟨t, ht, ?_⟩
  cases t with
  | sent m' =>
    cases he
    rfl
  | received | sentStream | receivedStream => cases he

/-- Another item is on its way to the end. -/
theorem Mirrors.deliver (h : Mirrors N k' k is p v link) (i : Item SyncMessage Bytes)
    (ms : List SyncMessage) (bs : List Bytes) :
    Mirrors N k' k (is ++ [i]) (p.deliver ms bs)
      (v.deliver
        (N.controlFrames k (frameCount (Traffic.receivedItems p.log) + frameCount is) i)
        (N.streamFrames k (frameCount (Traffic.receivedItems p.log) + frameCount is) i)) link := by
  refine ⟨h.carried, h.proc, h.state, ?_, ?_⟩
  · show v.inbox ++ _ = _
    rw [h.inbox]
    exact (N.control_snoc k _ is i).symm
  · show v.streams ++ _ = _
    rw [h.streams]
    exact (N.streams_snoc k _ is i).symm

/-- One end sends an item for which there is room. -/
theorem related_send {proc : Proc syncWire α} {proc' : Proc linkWire α} {i : Item SyncMessage Bytes}
    {t : Traffic SyncMessage Bytes} {log : List (Traffic Bytes (List Bytes))}
    (he : Mirrors N k k' is' e w link) (hp : Mirrors N k' k is p v link')
    (hs : Traffic.sentItems e.log = Traffic.receivedItems p.log ++ is)
    (hs' : Traffic.sentItems p.log = Traffic.receivedItems e.log ++ is')
    (ht : itemOf t = i)
    (hsent : Traffic.sentItems (e.log ++ [t]) = Traffic.sentItems e.log ++ [i])
    (hrecv : Traffic.receivedItems (e.log ++ [t]) = Traffic.receivedItems e.log) {link₁ : PeerLink}
    (hc : link₁.Carried N k k' (frameCount (Traffic.sentItems e.log) + (segments i).length)
      (frameCount (Traffic.receivedItems e.log)) (frameSizes e.log ++ itemSizes i))
    (hproc : proc' = onWire proc link₁) (ms : List SyncMessage) (bs : List Bytes) :
    Related N k k' ({ e with proc, log := e.log ++ [t] }, p.deliver ms bs)
      ({ w with proc := proc', log },
        v.deliver (N.controlFrames k (frameCount (Traffic.sentItems e.log)) i)
          (N.streamFrames k (frameCount (Traffic.sentItems e.log)) i)) := by
  refine ⟨is ++ [i], is', link₁, link', ⟨?_, hproc, he.state, ?_, ?_⟩, ?_, ?_, ?_⟩
  · rw [hsent, hrecv, frameCount_append, frameCount_singleton, frameSizes_snoc, ht]
    exact hc
  · rw [hrecv]
    exact he.inbox
  · rw [hrecv]
    exact he.streams
  · rw [hs, frameCount_append]
    exact hp.deliver i ms bs
  · show Traffic.sentItems (e.log ++ [t]) = Traffic.receivedItems p.log ++ (is ++ [i])
    rw [hsent, hs, List.append_assoc]
  · show Traffic.sentItems p.log = Traffic.receivedItems (e.log ++ [t]) ++ is'
    rw [hrecv, hs']

/-- One end has received the item that was next. -/
theorem related_recv {proc : Proc syncWire α} {proc' : Proc linkWire α} {i : Item SyncMessage Bytes}
    {t : Traffic SyncMessage Bytes} {log : List (Traffic Bytes (List Bytes))}
    {inbox : List SyncMessage} {streams : List Bytes}
    (he : Mirrors N k k' (i :: is') e w link) (hp : Mirrors N k' k is p v link')
    (hs : Traffic.sentItems e.log = Traffic.receivedItems p.log ++ is)
    (hs' : Traffic.sentItems p.log = Traffic.receivedItems e.log ++ i :: is')
    (ht : itemOf t = i)
    (hsent : Traffic.sentItems (e.log ++ [t]) = Traffic.sentItems e.log)
    (hrecv : Traffic.receivedItems (e.log ++ [t]) = Traffic.receivedItems e.log ++ [i])
    {link₁ : PeerLink}
    (hc : link₁.Carried N k k' (frameCount (Traffic.sentItems e.log))
      (frameCount (Traffic.receivedItems e.log) + (segments i).length)
      (frameSizes e.log ++ itemSizes i))
    (hproc : proc' = onWire proc link₁) :
    Related N k k' ({ e with proc, inbox, streams, log := e.log ++ [t] }, p)
      ({ w with
          proc := proc'
          inbox := N.control k' (frameCount (Traffic.receivedItems e.log) + (segments i).length) is'
          streams :=
            N.streams k' (frameCount (Traffic.receivedItems e.log) + (segments i).length) is'
          log }, v) := by
  have hcount : frameCount (Traffic.receivedItems (e.log ++ [t])) =
      frameCount (Traffic.receivedItems e.log) + (segments i).length := by
    rw [hrecv, frameCount_append, frameCount_singleton]
  refine ⟨is, is', link₁, link', ⟨?_, hproc, he.state, ?_, ?_⟩, hp, ?_, ?_⟩
  · rw [hsent, hcount, frameSizes_snoc, ht]
    exact hc
  · rw [hcount]
  · rw [hcount]
  · rw [hsent]
    exact hs
  · show Traffic.sentItems p.log = Traffic.receivedItems (e.log ++ [t]) ++ is'
    rw [hrecv, hs', List.append_assoc]
    rfl

omit [Snow] [MessagePack] in
/-- The item that an end receives is the one that is next in flight. -/
theorem next_in_flight {i : Item SyncMessage Bytes}
    {sent got got' js : List (Item SyncMessage Bytes)} (hs : sent = got ++ is)
    (hrecv : got' = got ++ [i]) (hord : sent = got' ++ js) : is = i :: js := by
  rw [hs, hrecv, List.append_assoc] at hord
  exact List.append_cancel_left hord

/-- **One step of an end**: the end on its link goes the same way if the frames of the step fit,
and fails if they do not. -/
theorem mirrors_step (he : Mirrors N k k' is' e w link) (hp : Mirrors N k' k is p v link')
    (hs : Traffic.sentItems e.log = Traffic.receivedItems p.log ++ is)
    (hs' : Traffic.sentItems p.log = Traffic.receivedItems e.log ++ is')
    (hstep : e.step p = some (e', p')) (hord : Protocol.InOrder p' e')
    (hsend : ∀ m ∈ e'.sent ++ p'.sent, Sendable m) :
    (Fits (frameSizes e'.log) →
      ∃ w' v', Steps (w, v) (w', v') ∧ Related N k k' (e', p') (w', v')) ∧
    (¬ Fits (frameSizes e'.log) →
      ∃ w', Steps (w, v) (w', v) ∧ w'.proc = .fail (.link (.crypto .rekeyRequired))) := by
  obtain ⟨ms, bs, hn, rfl⟩ := End.step_eq_some.1 hstep
  obtain ⟨proc, state, inbox, streams, log⟩ := e
  obtain ⟨proc', state', inbox', streams', log'⟩ := w
  have he' := he
  obtain ⟨hc, hproc, hstate, hin, hst⟩ := he
  dsimp only at hc hproc hstate hin hst hs hs'
  subst hproc hstate hin hst
  obtain ⟨js, hjs, -, -⟩ := hord
  cases proc with
  | done | fail => simp [End.next] at hn
  | call name f q =>
    cases hn
    refine ⟨fun _ => ⟨_, v, steps_quiet rfl, is, is', link, link', ⟨hc, rfl, rfl, rfl, rfl⟩, ?_, hs,
      hs'⟩, fun hf => absurd hc.session.fits hf⟩
    rw [deliver_nil]
    exact hp
  | send m q =>
    cases hn
    have hm : Sendable m := hsend m (List.mem_append_left _ (by
      rw [End.sent, Traffic.sentMsgs_append]
      exact List.mem_append_right _ (List.mem_singleton_self m)))
    rw [frameSizes_snoc]
    refine ⟨fun hf => ?_, fun hf => ?_⟩
    · obtain ⟨link₁, hseal, hc₁⟩ := hc.sealMessage hm hf
      rw [onWire, hseal]
      exact ⟨_, _, steps_writeFrames _ _, related_send (t := .sent m) he' hp hs hs' rfl
        (Traffic.sentItems_append _ _)
        ((Traffic.receivedItems_append _ _).trans (List.append_nil _)) hc₁ rfl _ _⟩
    · refine ⟨_, .refl, ?_⟩
      show onWire (.send m q) link = _
      rw [onWire, hc.sealMessage_error hm hf]
      rfl
  | sendStream b q =>
    cases hn
    rw [frameSizes_snoc]
    refine ⟨fun hf => ?_, fun hf => ?_⟩
    · obtain ⟨link₁, hseal, hc₁⟩ := hc.sealBlob hf
      rw [onWire, hseal]
      exact ⟨_, _, steps_next rfl, related_send (t := .sentStream b) he' hp hs hs' rfl
        (Traffic.sentItems_append _ _)
        ((Traffic.receivedItems_append _ _).trans (List.append_nil _)) hc₁ rfl _ _⟩
    · refine ⟨_, .refl, ?_⟩
      show onWire (.sendStream b q) link = _
      rw [onWire, hc.sealBlob_error hf]
      rfl
  | recv q =>
    cases inbox with
    | nil => simp [End.next] at hn
    | cons m inbox =>
      cases hn
      rw [deliver_nil] at hjs hsend ⊢
      obtain rfl := next_in_flight hs' (Traffic.receivedItems_append _ _) hjs
      have hm : Sendable m := hsend m (List.mem_append_right _ (mem_sentMsgs (by
        rw [hs']
        exact List.mem_append_right _ List.mem_cons_self)))
      rw [frameSizes_snoc]
      obtain ⟨hok, herr⟩ := steps_message (f := fun _ _ => none) (k := fun _ m => onWire (q m))
        (a := []) hm hc
      refine ⟨fun hf => ?_, fun hf => ?_⟩
      · obtain ⟨link₁, log₁, hc₁, hsteps⟩ := hok hf
        exact ⟨_, _, hsteps, related_recv (t := .received m) he' hp hs hs' rfl
          ((Traffic.sentItems_append _ _).trans (List.append_nil _))
          (Traffic.receivedItems_append _ _) hc₁ rfl⟩
      · obtain ⟨inbox₁, log₁, hsteps⟩ := herr hf
        exact ⟨_, hsteps, rfl⟩
  | gather acc more q =>
    cases inbox with
    | nil => simp [End.next] at hn
    | cons m inbox =>
      obtain ⟨proc, hproc, rfl, rfl, rfl⟩ : ∃ proc,
          (∀ l, afterMessage more (fun acc m => onWire (q acc m)) acc m l = onWire proc l) ∧
            e' = ⟨proc, state', inbox, streams, log ++ [.received m]⟩ ∧ ms = [] ∧ bs = [] := by
        unfold afterMessage
        cases hmore : more acc m with
        | none =>
          simp only [End.next, hmore, Option.some.injEq, Prod.mk.injEq] at hn
          obtain ⟨rfl, rfl, rfl⟩ := hn
          exact ⟨_, fun _ => rfl, rfl, rfl, rfl⟩
        | some acc' =>
          simp only [End.next, hmore, Option.some.injEq, Prod.mk.injEq] at hn
          obtain ⟨rfl, rfl, rfl⟩ := hn
          exact ⟨_, fun _ => rfl, rfl, rfl, rfl⟩
      rw [deliver_nil] at hjs hsend ⊢
      obtain rfl := next_in_flight hs' (Traffic.receivedItems_append _ _) hjs
      have hm : Sendable m := hsend m (List.mem_append_right _ (mem_sentMsgs (by
        rw [hs']
        exact List.mem_append_right _ List.mem_cons_self)))
      rw [frameSizes_snoc]
      obtain ⟨hok, herr⟩ := steps_message (f := more) (k := fun acc m => onWire (q acc m))
        (a := acc) hm hc
      refine ⟨fun hf => ?_, fun hf => ?_⟩
      · obtain ⟨link₁, log₁, hc₁, hsteps⟩ := hok hf
        exact ⟨_, _, hsteps, related_recv (t := .received m) he' hp hs hs' rfl
          ((Traffic.sentItems_append _ _).trans (List.append_nil _))
          (Traffic.receivedItems_append _ _) hc₁ (hproc _)⟩
      · obtain ⟨inbox₁, log₁, hsteps⟩ := herr hf
        exact ⟨_, hsteps, rfl⟩
  | recvStream q =>
    cases streams with
    | nil => simp [End.next] at hn
    | cons b streams =>
      cases hn
      rw [deliver_nil] at hjs hsend ⊢
      obtain rfl := next_in_flight hs' (Traffic.receivedItems_append _ _) hjs
      rw [frameSizes_snoc]
      refine ⟨fun hf => ?_, fun hf => ?_⟩
      · obtain ⟨link₁, hread, hc₁⟩ := hc.recvBlob hf
        exact ⟨_, _, steps_recvBlob hread, related_recv (t := .receivedStream b) he' hp hs hs' rfl
          ((Traffic.sentItems_append _ _).trans (List.append_nil _))
          (Traffic.receivedItems_append _ _) hc₁ rfl⟩
      · exact ⟨_, steps_recvBlob_error (hc.recvBlob_error hf), rfl⟩

end

end Clipse
