import Clipse.Lib.Chunks
import Clipse.Lib.Duplex
import Clipse.Store.Basic
import Clipse.Sync.LoopGuard
import Clipse.Sync.Message

/-!
# A sync session (`clipsed/src/sync.rs`)

The program of each end of a session, call by call: every `link.send`, every `link.recv` and every
call of the store is one step, so other tasks can run between any two of them. The dialler takes
its turn first, then the responder; in a turn one end offers its history (`offerOurHistory`) and
the other takes what it lacks (`takeTheirHistory`, which merges each clip by `apply`).
-/

namespace Clipse

/-- `SUMMARY_PAGE`. -/
def summaryPage : Nat := 200

inductive SyncError where
  | link
  | store (e : StoreError)
  | protocolMismatch (theirs ours : UInt16)
  | unexpected (expected got : String)
  | identityMismatch (claimed actual : DeviceId)
deriving DecidableEq

inductive Role where
  | dialler
  | responder
deriving DecidableEq

/-- What the UIs are told about clips. -/
inductive Event where
  | clipAdded (clip : Clip)
  | clipUpdated (clip : Clip)
  | clipRemoved (id : ClipId)
deriving DecidableEq

/-- `SyncContext`: what all tasks of one daemon share. `time` lists the readings of the system
clock that are still to come. -/
structure SyncContext where
  store : Store
  clock : HlcClock
  loopGuard : LoopGuard
  label : String
  platform : String
  /-- The events published so far; `none` when there is no channel to publish to. -/
  events : Option (List Event)
  time : Nat → UInt64

namespace SyncContext

/-- The context of a daemon that has just started over `store`, without a UI. -/
def start (store : Store) (device : DeviceId) (time : Nat → UInt64) : SyncContext :=
  { store, clock := .new device, loopGuard := .default_, label := "desktop", platform := "linux",
    events := none, time }

@[simp] theorem start_store (store : Store) (device : DeviceId) (time : Nat → UInt64) :
    (start store device time).store = store := rfl

/-- Read the system clock. -/
def systemTime (ctx : SyncContext) : UInt64 × SyncContext :=
  (ctx.time 0, { ctx with time := fun n => ctx.time (n + 1) })

/-- `ctx.clock.now()`. -/
def now (ctx : SyncContext) : Hlc × SyncContext :=
  let (physical, ctx) := ctx.systemTime
  let (hlc, clock) := ctx.clock.now physical
  (hlc, { ctx with clock })

/-- `emit`. -/
def emit (ctx : SyncContext) (event : Event) : SyncContext :=
  { ctx with events := ctx.events.map (· ++ [event]) }

/-- `ctx.loop_guard.record_received`. -/
def recordReceived (ctx : SyncContext) (hash : ContentHash) (origin : DeviceId) : SyncContext :=
  let (now, ctx) := ctx.systemTime
  { ctx with loopGuard := ctx.loopGuard.recordReceived hash origin now }

/-- Run an operation of the store. -/
def onStore {α : Type} (ctx : SyncContext) (r : Except StoreError (α × Store)) :
    Except SyncError (α × SyncContext) :=
  match r with
  | .ok (a, store) => .ok (a, { ctx with store })
  | .error e => .error (.store e)

end SyncContext

/-- The calls that a session makes between its messages. -/
inductive SyncCall where
  | maxHlc
  | changesSince
  | serve (hash : ContentHash)
  | readBlob (digest : ContentHash)
  | compare (hash : ContentHash)
  | lookup (hash : ContentHash)
  | insert (clip : Clip)
  | setPinned (id : ClipId)
  | delete (id : ClipId)
  | get (id : ClipId)
  | emit
  | recordReceived (hash : ContentHash)
  | hasBlob (digest : ContentHash)
  | putBlob (digest : ContentHash)
  | clockNow
deriving DecidableEq

/-- The wire of a session: control messages, blob streams, and the receiver's summary list. -/
abbrev syncWire : Wire where
  Msg := SyncMessage
  Stream := Bytes
  State := SyncContext
  Acc := List ClipSummary
  Err := SyncError
  Call := SyncCall

/-- A program of one end of a session. -/
abbrev Session (α : Type) := Proc syncWire α

structure SyncOutcome where
  sent : Nat := 0
  received : Nat := 0
  rejected : Nat := 0
  blobsSent : Nat := 0
  blobsReceived : Nat := 0
  blobsRejected : Nat := 0
  newestReceived : Option ClipId := none
deriving DecidableEq

namespace Session

/-- The error for a message of the wrong kind. -/
def unexpected {α : Type} (expected : String) (got : SyncMessage) : Session α :=
  .fail (.unexpected expected got.variantName)

/-! ## Hello -/

/-- `send_hello`. -/
def sendHello (epoch : UInt64) : Session Unit := do
  let hello ← Proc.read .maxHlc fun ctx : SyncContext =>
    .hello ctx.clock.device epoch protocolVersion ctx.store.maxHlc ctx.label ctx.platform
  Proc.tell hello

/-- `receive_hello`. -/
def receiveHello (peer : DeviceId) : Session (Option Hlc) := do
  match ← Proc.hear with
  | .hello device _ protocol maxHlc _ _ =>
    if protocol ≠ protocolVersion then .fail (.protocolMismatch protocol protocolVersion)
    else if device ≠ peer then .fail (.identityMismatch device peer)
    else pure maxHlc
  | other => unexpected "Hello" other

/-! ## Offering -/

/-- The `Summary` messages for a history. -/
def summaryPages (summaries : List ClipSummary) : List SyncMessage :=
  if summaries.isEmpty then [.summary [] true]
  else
    let pages := summaries.chunks summaryPage
    pages.mapIdx fun index page => .summary page (index + 1 = pages.length)

/-- Send messages one after the other. -/
def sendAll : List SyncMessage → Session Unit
  | [] => pure ()
  | m :: ms => do
    Proc.tell m
    sendAll ms

/-- Receive a `Want`. -/
def recvWant (expected : String) : Session (List ContentHash) := do
  match ← Proc.hear with
  | .want hashes => pure hashes
  | other => unexpected expected other

/-- Look up the wanted clips: served from the store, not from the summary just sent. -/
def serve : List ContentHash → Session (List (Option Clip))
  | [] => pure []
  | hash :: wanted => do
    let clip ← Proc.read (.serve hash) fun ctx : SyncContext =>
      ctx.store.byHashIncludingDeleted hash
    let found ← serve wanted
    pure (clip :: found)

/-- Push the clips that were found. -/
def pushFound : List (Option Clip) → SyncOutcome → Session SyncOutcome
  | [], outcome => pure outcome
  | some clip :: found, outcome => do
    Proc.tell (.push clip)
    pushFound found { outcome with sent := outcome.sent + 1 }
  -- a wanted clip that is gone is skipped
  | none :: found, outcome => pushFound found outcome

/-- `store.read_blob`: its error is a value here. -/
def readBlob (digest : ContentHash) : Session (Except StoreError Bytes) :=
  Proc.act (.readBlob digest) fun ctx : SyncContext =>
    match ctx.store.readBlob digest with
    | .ok (bytes, store) => (.ok bytes, { ctx with store })
    | .error e => (.error e, ctx)

/-- Send one stream for each digest, an empty one for a blob that cannot be read. -/
def sendBlobs : List ContentHash → SyncOutcome → Session SyncOutcome
  | [], outcome => pure outcome
  | digest :: digests, outcome => do
    match ← readBlob digest with
    | .ok bytes => do
      Proc.tellStream bytes
      sendBlobs digests { outcome with blobsSent := outcome.blobsSent + 1 }
    | .error _ => do
      Proc.tellStream []
      sendBlobs digests outcome

/-- Receive the `Ack`. -/
def recvAck : Session Unit := do
  match ← Proc.hear with
  | .ack _ => pure ()
  | other => unexpected "Ack" other

/-- The limit that `offer_our_history` gives to `changes_since`. -/
def historyLimit : Nat := 100000

/-- The first part of `offer_our_history`: the whole history in pages. -/
def offerSummaries : Session Unit := do
  let clips ← Proc.read .changesSince fun ctx : SyncContext =>
    ctx.store.changesSince none historyLimit
  sendAll (summaryPages (clips.map ClipSummary.of))

/-- The clips that the peer wants. -/
def offerClips (outcome : SyncOutcome) : Session SyncOutcome := do
  offerSummaries
  let wanted ← recvWant "Want"
  let found ← serve wanted
  pushFound found outcome

/-- The blobs that the peer wants, and its `Ack`. -/
def offerBlobs (outcome : SyncOutcome) : Session SyncOutcome := do
  let blobDigests ← recvWant "Want (blobs)"
  let outcome ← sendBlobs blobDigests outcome
  recvAck
  pure outcome

/-- `offer_our_history`. -/
def offerOurHistory (outcome : SyncOutcome) : Session SyncOutcome := do
  let outcome ← offerClips outcome
  offerBlobs outcome

/-! ## Merging one clip -/

/-- `Applied`: what merging one incoming clip did. -/
inductive Applied where
  | inserted (id : ClipId)
  | updated
  | refused
deriving DecidableEq

/-- Publish an event. -/
def emit (event : Event) : Session Unit :=
  Proc.act .emit fun ctx : SyncContext => ((), ctx.emit event)

/-- Tell the loop guard where the content came from. -/
def record (clip : Clip) : Session Unit :=
  Proc.act (.recordReceived clip.hash) fun ctx : SyncContext =>
    ((), ctx.recordReceived clip.hash clip.hlc.device)

/-- `store.set_pinned`. -/
def setPinned (id : ClipId) (pinned : Bool) (hlc : Hlc) : Session Unit :=
  Proc.attempt (.setPinned id) fun ctx : SyncContext =>
    ctx.onStore ((ctx.store.setPinned id pinned hlc).map fun s => ((), s))

/-- `store.delete`. -/
def delete (id : ClipId) (hlc : Hlc) : Session Unit :=
  Proc.attempt (.delete id) fun ctx : SyncContext =>
    let (now, ctx) := ctx.systemTime
    ctx.onStore ((ctx.store.delete id hlc now).map fun s => ((), s))

section
variable [Blake3]

/-- `store.insert`. -/
def insert (clip : Clip) : Session InsertOutcome :=
  Proc.attempt (.insert clip) fun ctx : SyncContext => ctx.onStore (ctx.store.insert clip)

/-- The writes of `apply` for `UpdateMetadata`, to the clip found before. -/
def updateMetadata (existing clip : Clip) (pinned deleted : Bool) : Session Applied := do
  setPinned existing.id pinned clip.hlc
  if deleted then do
    delete existing.id clip.hlc
    emit (.clipRemoved existing.id)
    record clip
    pure .updated
  else do
    -- a peer's un-delete ends here too: the store has no way to revive a tombstone
    match ← Proc.read (.get existing.id) fun ctx : SyncContext => ctx.store.get existing.id with
    | some updated => do
      emit (.clipUpdated updated)
      record clip
      pure .updated
    | none => do
      record clip
      pure .updated

/-- `apply`: the row is read, `merge` decides, and the decision is written, each in a call of its
own. -/
def apply (clip : Clip) : Session Applied := do
  let stored ← Proc.read (.lookup clip.hash) fun ctx : SyncContext =>
    ctx.store.byHashIncludingDeleted clip.hash
  match merge stored clip, stored with
  | .reject, _ => pure .refused
  | .ignore, _ => pure .refused
  | .insert, _ => do
    let _ ← insert clip
    emit (.clipAdded clip)
    record clip
    pure (.inserted clip.id)
  | .updateMetadata pinned deleted, some existing => updateMetadata existing clip pinned deleted
  -- `merge` answers `UpdateMetadata` only for a stored clip
  | .updateMetadata _ _, none => pure .refused

/-! ## Taking -/

/-- The receiving loop for `Summary` pages goes on until the page that is marked complete. -/
def moreSummaries (entries : List ClipSummary) : SyncMessage → Option (List ClipSummary)
  | .summary page false => some (entries ++ page)
  | _ => none

/-- Receive the peer's summary. -/
def recvSummaries : Session (List ClipSummary) := do
  let (entries, last) ← Proc.hearWhile [] moreSummaries
  match last with
  | .summary page _ => pure (entries ++ page)
  | other => unexpected "Summary" other

/-- The hashes of a summary that this device lacks or has with an older HLC. -/
def compare : List ClipSummary → Session (List ContentHash)
  | [] => pure []
  | entry :: entries => do
    let existing ← Proc.read (.compare entry.hash) fun ctx : SyncContext =>
      ctx.store.byHashIncludingDeleted entry.hash
    let wanted ← compare entries
    let take :=
      match existing with
      | none => true
      | some existing => decide (existing.hlc < entry.hlc)
    pure (if take then entry.hash :: wanted else wanted)

/-- The variables of the loop over the pushed clips. -/
structure Taken where
  outcome : SyncOutcome
  missingBlobs : List ContentHash := []
  newest : Option (Hlc × ClipId) := none
deriving DecidableEq

/-- The loop's bookkeeping for one clip. -/
def Taken.note (t : Taken) (clip : Clip) : Applied → Taken
  | .inserted id =>
    { outcome := { t.outcome with received := t.outcome.received + 1 }
      missingBlobs := t.missingBlobs ++ clip.blobDigests
      newest :=
        match t.newest with
        | none => some (clip.hlc, id)
        | some (seen, id') => if seen < clip.hlc then some (clip.hlc, id) else some (seen, id') }
  | .updated =>
    { t with
      outcome := { t.outcome with received := t.outcome.received + 1 }
      missingBlobs := t.missingBlobs ++ clip.blobDigests }
  | .refused => { t with outcome := { t.outcome with rejected := t.outcome.rejected + 1 } }

/-- One pushed clip. -/
def takePush (t : Taken) (clip : Clip) : Session Taken := do
  let applied ← apply clip
  pure (t.note clip applied)

/-- Receive and merge as many clips as were asked for. -/
def takePushes : Nat → Taken → Session Taken
  | 0, t => pure t
  | expected + 1, t => do
    match ← Proc.hear with
    | .push clip => do
      let t ← takePush t clip
      takePushes expected t
    | other => unexpected "Push" other

/-- The blobs of the clips just applied that this device does not hold, each once. -/
def neededBlobs : List ContentHash → List ContentHash → Session (List ContentHash)
  | [], needed => pure needed
  | digest :: missing, needed => do
    let has ← Proc.read (.hasBlob digest) fun ctx : SyncContext => ctx.store.hasBlob digest
    neededBlobs missing (if !has && digest ∉ needed then needed ++ [digest] else needed)

/-- Receive one stream for each digest; bytes with another digest are discarded. -/
def takeBlobs : List ContentHash → SyncOutcome → Session SyncOutcome
  | [], outcome => pure outcome
  | digest :: needed, outcome => do
    let bytes ← Proc.hearStream
    if ContentHash.of bytes ≠ digest then
      takeBlobs needed { outcome with blobsRejected := outcome.blobsRejected + 1 }
    else do
      Proc.act (.putBlob digest) fun ctx : SyncContext =>
        ((), { ctx with store := ctx.store.putBlob digest bytes })
      takeBlobs needed { outcome with blobsReceived := outcome.blobsReceived + 1 }

/-- The HLC of the `Ack`: the newest stored, or a fresh one for an empty store. -/
def ackHlc : Session Hlc := do
  match ← Proc.read .maxHlc fun ctx : SyncContext => ctx.store.maxHlc with
  | some hlc => pure hlc
  | none => Proc.act .clockNow SyncContext.now

/-- Ask for the clips that this device lacks and merge them. -/
def takeClips (outcome : SyncOutcome) : Session Taken := do
  let entries ← recvSummaries
  let wanted ← compare entries
  Proc.tell (.want wanted)
  takePushes wanted.length { outcome }

/-- Ask for the blobs of the clips just applied; the newest clip is reported after them. -/
def takeMissing (taken : Taken) : Session SyncOutcome := do
  let needed ← neededBlobs taken.missingBlobs []
  Proc.tell (.want needed)
  let outcome ← takeBlobs needed taken.outcome
  let hlc ← ackHlc
  Proc.tell (.ack hlc)
  pure { outcome with newestReceived := taken.newest.map (·.2) }

/-- `take_their_history`. -/
def takeTheirHistory (outcome : SyncOutcome) : Session SyncOutcome := do
  let taken ← takeClips outcome
  takeMissing taken

/-- `run_session`, on a link to the authenticated device `peer` with the link's trust epoch. -/
def run (peer : DeviceId) (epoch : UInt64) : Role → Session SyncOutcome
  | .dialler => do
    sendHello epoch
    let _ ← receiveHello peer
    let outcome ← offerOurHistory {}
    takeTheirHistory outcome
  | .responder => do
    let _ ← receiveHello peer
    sendHello epoch
    let outcome ← takeTheirHistory {}
    offerOurHistory outcome

end

end Session
end Clipse
