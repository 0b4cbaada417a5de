import Clipse.Daemon.History
import Clipse.Sync.Session

/-!
# The history window's list (`apps/clipse-app/src/hooks/use-clip-history.ts`)

`useClipHistory` holds a list of clips. Pages that it fetches are appended to it, each from the offset
where the last one ended, and what the daemon pushes edits it. The other side is the daemon's store,
which captures, sessions and requests write to at any time.
-/

namespace Clipse

/-- `String.prototype.trim`: what counts as white space to it. -/
def jsWhitespace (c : Char) : Bool :=
  let n := c.toNat
  (9 ≤ n && n ≤ 13) || n = 32 || n = 0xA0 || n = 0x1680 || (0x2000 ≤ n && n ≤ 0x200A) ||
    n = 0x2028 || n = 0x2029 || n = 0x202F || n = 0x205F || n = 0x3000 || n = 0xFEFF

def jsTrim (text : List Char) : List Char :=
  ((text.dropWhile jsWhitespace).reverse.dropWhile jsWhitespace).reverse

inductive ClipTypeFilter where
  | all | text | image | files | link
deriving DecidableEq

def serverKindForFilter : ClipTypeFilter → Option ClipKind
  | .image => some .image
  | .files => some .files
  | _ => none

/-- `paramsRef`. -/
structure HistoryParams where
  searchText : List Char := []
  typeFilter : ClipTypeFilter := .all
  pinnedOnly : Bool := false

/-- `PAGE_SIZE`. -/
def historyPageSize : UInt32 := 150

/-- The request for a page. No request carries an offset of 2^32 or more. -/
def HistoryParams.request (params : HistoryParams) (offset : Nat) : Option HistoryRequest :=
  if offset < 2 ^ 32 then
    let query : IpcHistoryQuery :=
      { limit := historyPageSize, offset := offset.toUInt32,
        kind := serverKindForFilter params.typeFilter, pinnedOnly := params.pinnedOnly }
    let trimmed := jsTrim params.searchText
    if trimmed ≠ [] then some (.search trimmed query) else some (.history query)
  else none

/-- A call of `runFetch` that has not come back, with what the daemon has answered. -/
structure HistoryFetch where
  requestId : Nat
  reset : Bool
  offset : Nat
  answer : Option (List Clip) := none

/-- What `loadMore` reads of the state. -/
structure LoadFlags where
  loading : Bool := true
  loadingMore : Bool := false
  hasMore : Bool := true

inductive FetchFailure where
  | notConnected
  | other (message : String)

/-- The state of the hook; `rendered` is what the last rendering gave to `loadMore`. -/
structure ClipHistory where
  clips : List Clip := []
  offset : Nat := 0
  requestId : Nat := 0
  flags : LoadFlags := {}
  rendered : LoadFlags := {}
  offline : Bool := false
  errorMessage : Option String := none
  fetches : List HistoryFetch := []

namespace ClipHistory

/-- `runFetch`, up to its `await`. -/
def runFetch (s : ClipHistory) (reset : Bool) : ClipHistory :=
  let requestId := s.requestId + 1
  { s with
    requestId
    flags := if reset then { s.flags with loading := true } else { s.flags with loadingMore := true }
    fetches := s.fetches ++ [{ requestId, reset, offset := if reset then 0 else s.offset }] }

/-- What follows the `await` when it has a page. -/
def receive (s : ClipHistory) (f : HistoryFetch) (page : List Clip) : ClipHistory :=
  let s := { s with fetches := s.fetches.filter (·.requestId ≠ f.requestId) }
  if f.requestId ≠ s.requestId then s
  else
    { s with
      offline := false
      errorMessage := none
      offset := f.offset + page.length
      clips := if f.reset then page else s.clips ++ page
      flags :=
        { loading := false, loadingMore := false, hasMore := page.length = historyPageSize.toNat } }

/-- What follows when it fails. -/
def fail (s : ClipHistory) (f : HistoryFetch) (failure : FetchFailure) : ClipHistory :=
  let s := { s with fetches := s.fetches.filter (·.requestId ≠ f.requestId) }
  if f.requestId ≠ s.requestId then s
  else
    let s :=
      match failure with
      | .notConnected => { s with offline := true }
      | .other message => { s with errorMessage := some message }
    { s with
      clips := if f.reset then [] else s.clips
      flags := { loading := false, loadingMore := false, hasMore := false } }

/-- `loadMore`, as the last rendering has it. -/
def loadMore (s : ClipHistory) : ClipHistory :=
  if s.rendered.loading || s.rendered.loadingMore || !s.rendered.hasMore then s else s.runFetch false

def onClipAdded (s : ClipHistory) (clip : Clip) : ClipHistory :=
  if s.clips.any (·.id = clip.id) then s else { s with clips := clip :: s.clips }

def onClipUpdated (s : ClipHistory) (clip : Clip) : ClipHistory :=
  { s with clips := s.clips.map fun c => if c.id = clip.id then clip else c }

def onClipRemoved (s : ClipHistory) (id : ClipId) : ClipHistory :=
  { s with clips := s.clips.filter (·.id ≠ id) }

def setPinnedLocally (s : ClipHistory) (id : ClipId) (pinned : Bool) : ClipHistory :=
  { s with clips := s.clips.map fun c => if c.id = id then { c with pinned } else c }

def removeLocally (s : ClipHistory) (id : ClipId) : ClipHistory :=
  { s with clips := s.clips.filter (·.id ≠ id) }

/-- The handlers of what the daemon pushes. -/
def hear (s : ClipHistory) : Event → ClipHistory
  | .clipAdded clip => s.onClipAdded clip
  | .clipUpdated clip => s.onClipUpdated clip
  | .clipRemoved id => s.onClipRemoved id

/-- The hook after it is mounted: it fetches the first page. -/
def mounted : ClipHistory := ({} : ClipHistory).runFetch true

end ClipHistory

/-! ## The daemon's side -/

/-- A call of the store that changes clips, by who makes it. -/
inductive DaemonWrite where
  /-- `store_capture`, with the clip that it has built. -/
  | capture (clip : Clip)
  /-- `apply`, of a clip that a session was sent and that is to be inserted. -/
  | push (clip : Clip)
  /-- `Request::SetPinned` or `apply`; a session that goes on to delete the clip does not tell of its
  pin. -/
  | setPinned (id : ClipId) (pinned : Bool) (hlc : Hlc) (told : Bool)
  /-- `Request::Delete` or `apply`. -/
  | delete (id : ClipId) (hlc : Hlc) (now : UInt64)

/-- The store after the call, and the events that it leads to. -/
def DaemonWrite.run [Blake3] (s : Store) : DaemonWrite → Store × List Event
  | .capture clip =>
    match s.insert clip with
    | .ok (.inserted _, s') => (s', [.clipAdded clip])
    | .ok (.deduplicated id, s') => (s', (s'.get id).toList.map .clipUpdated)
    | .ok (.rejected, s') => (s', [])
    | .error _ => (s, [])
  | .push clip =>
    match s.insert clip with
    | .ok (_, s') => (s', [.clipAdded clip])
    | .error _ => (s, [])
  | .setPinned id pinned hlc told =>
    match s.setPinned id pinned hlc with
    | .ok s' => (s', if told then (s'.get id).toList.map .clipUpdated else [])
    | .error _ => (s, [])
  | .delete id hlc now =>
    match s.delete id hlc now with
    | .ok s' => (s', [.clipRemoved id])
    | .error _ => (s, [])

/-! ## Both sides -/

/-- The daemon's store, the events that have not reached the window, its deletions that have not
reached the daemon, and the window. -/
structure Browsing where
  store : Store
  events : List Event
  deleting : List ClipId
  window : ClipHistory

inductive BrowsingOp where
  /-- A capture, a session or another client writes. -/
  | write (w : DaemonWrite)
  /-- The daemon handles a deletion of the window. -/
  | handleDelete (id : ClipId) (hlc : Hlc) (now : UInt64)
  /-- It never reaches the daemon. -/
  | loseDelete (id : ClipId)
  /-- The event at this place reaches the window. -/
  | deliver (i : Nat)
  /-- The daemon answers a fetch from its history. -/
  | answer (requestId : Nat)
  /-- The answer reaches the window. -/
  | receive (requestId : Nat)
  | fail (requestId : Nat) (failure : FetchFailure)
  | reload
  | loadMore
  | render
  /-- `handleTogglePin`: the pin itself is a write. -/
  | togglePin (id : ClipId) (pinned : Bool)
  /-- `handleDelete` of the window. -/
  | delete (id : ClipId)

namespace Browsing

variable [Blake3] [Fts5]

/-- The fetch with the id. -/
def fetch? (s : Browsing) (requestId : Nat) : Option HistoryFetch :=
  s.window.fetches.find? (·.requestId = requestId)

/-- The page that answers a fetch now. -/
def pageOf (params : HistoryParams) (store : Store) (offset : Nat) : Option (List Clip) :=
  match (params.request offset).map (HistoryRequest.handle store) with
  | some (.clips page) => some page
  | _ => none

/-- What cannot happen in a state changes nothing. -/
def step (params : HistoryParams) (s : Browsing) : BrowsingOp → Browsing
  | .write w => { s with store := (w.run s.store).1, events := s.events ++ (w.run s.store).2 }
  | .handleDelete id hlc now =>
    if id ∈ s.deleting then
      let s := { s with deleting := s.deleting.erase id }
      match s.store.delete id hlc now with
      | .ok store => { s with store, events := s.events ++ [.clipRemoved id] }
      -- The window catches the error and reads its list again.
      | .error _ => { s with window := s.window.runFetch true }
    else s
  | .loseDelete id =>
    if id ∈ s.deleting then
      { s with deleting := s.deleting.erase id, window := s.window.runFetch true }
    else s
  | .deliver i =>
    match s.events[i]? with
    | some event => { s with events := s.events.eraseIdx i, window := s.window.hear event }
    | none => s
  | .answer requestId =>
    match s.fetch? requestId with
    | some { answer := none, offset, .. } =>
      match pageOf params s.store offset with
      | some page =>
        { s with
          window.fetches := s.window.fetches.map fun f =>
            if f.requestId = requestId then { f with answer := some page } else f }
      | none => s
    | _ => s
  | .receive requestId =>
    match s.fetch? requestId with
    | some f =>
      match f.answer with
      | some page => { s with window := s.window.receive f page }
      | none => s
    | none => s
  | .fail requestId failure =>
    match s.fetch? requestId with
    | some f => { s with window := s.window.fail f failure }
    | none => s
  | .reload => { s with window := s.window.runFetch true }
  | .loadMore => { s with window := s.window.loadMore }
  | .render => { s with window.rendered := s.window.flags }
  | .togglePin id pinned => { s with window := s.window.setPinnedLocally id pinned }
  | .delete id =>
    { s with window := s.window.removeLocally id, deleting := s.deleting ++ [id] }

/-- The window is opened. -/
def opened (store : Store) : Browsing := { store, events := [], deleting := [], window := .mounted }

end Browsing
end Clipse
