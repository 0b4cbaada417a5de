import Clipse.App.Fuzzy
import Clipse.App.History
import Clipse.Lib.Utf

/-!
# The hotkey popup (`apps/clipse-app/src/pages/popup-window.tsx`, `lib/popup-reducer.ts`)

The popup holds the newest clips of the daemon's history, narrows them by a filter and a query, and
answers keys: `popupKeyReducer` decides what a key does, the window carries it out. The reducer is
told how many rows there are by an effect that runs some time after the number has changed.

What is `dismiss`ed is hidden once its exit has been played; until the popup is shown again nothing
is pasted by a key.
-/

namespace Clipse

/-! ## Filters (`lib/clip-content.ts`) -/

/-- `getClipText`: `TextDecoder` leaves a byte order mark out. -/
def getClipText (clip : Clip) : Option (List Char) :=
  ((clip.payloads.find? (·.format = .text)).bind Payload.inlineBytes).map fun bytes =>
    Utf.decode8 (if [0xEF, 0xBB, 0xBF].isPrefixOf bytes then bytes.drop 3 else bytes)

/-- What the flag `i` makes of a letter of the alphabet. -/
def ignoringCase (c : Char) : Char := if 'A' ≤ c && c ≤ 'Z' then Char.ofNat (c.toNat + 32) else c

/-- `LOOKS_LIKE_URL`, `/^(https?:\/\/|www\.)\S+$/i`. -/
def looksLikeUrl (text : List Char) : Bool :=
  ["http://", "https://", "www."].any fun start =>
    let rest := text.drop start.length
    (text.take start.length).map ignoringCase = start.toList && rest ≠ [] &&
      rest.all (!jsWhitespace ·)

def looksLikeLink (clip : Clip) : Bool :=
  clip.kind = .text && looksLikeUrl (jsTrim ((getClipText clip).getD clip.preview.toList))

def matchesTypeFilter (clip : Clip) : ClipTypeFilter → Bool
  | .all => true
  | .image => clip.kind = .image
  | .files => clip.kind = .files
  | .link => looksLikeLink clip
  | .text => clip.kind = .text || clip.kind = .html || clip.kind = .rtf

/-! ## Ranking (`lib/fuzzy.ts`) -/

structure FuzzyHit (α : Type) where
  item : α
  score : Int
  indices : List Nat

/-- `fuzzyFilter`: best match first, equally good ones in the order in which they came. -/
def fuzzyFilter [Case.Unicode] {α : Type} (query : List Char) (items : List α)
    (getText : α → String) : List (FuzzyHit α) :=
  let trimmed := jsTrim query
  if trimmed.length = 0 then items.map fun item => { item, score := 0, indices := [] }
  else
    let hits := items.filterMap fun item =>
      (fuzzyMatch (Utf.encode16 trimmed) (Utf.encode16 (getText item).toList)).map fun m =>
        { item, score := m.score, indices := m.indices : FuzzyHit α }
    hits.insertionSort fun a b => b.score ≤ a.score

/-! ## Keys (`lib/popup-reducer.ts`) -/

/-- `CLIP_TYPE_FILTERS`. -/
def clipTypeFilters : List ClipTypeFilter := [.all, .text, .image, .files, .link]

structure PopupKeyState where
  selectedIndex : Int := 0
  filter : ClipTypeFilter := .all
  itemCount : Int := 0
deriving DecidableEq

inductive PopupKeyAction where
  | arrowDown | arrowUp | tab | enter
  | jumpTo (index : Int)
  | escape
  | setItemCount (count : Int)

inductive PopupKeyEffect where
  | none
  | paste (index : Int)
  | close
deriving DecidableEq

def clampIndex (index itemCount : Int) : Int :=
  if itemCount ≤ 0 then 0 else min (max index 0) (itemCount - 1)

def popupKeyReducer (state : PopupKeyState) : PopupKeyAction → PopupKeyState × PopupKeyEffect
  | .arrowDown =>
    if state.itemCount = 0 then (state, .none)
    else ({ state with selectedIndex := (state.selectedIndex + 1).tmod state.itemCount }, .none)
  | .arrowUp =>
    if state.itemCount = 0 then (state, .none)
    else
      let next := (state.selectedIndex - 1 + state.itemCount).tmod state.itemCount
      ({ state with selectedIndex := next }, .none)
  | .tab =>
    let currentIndex := clipTypeFilters.idxOf state.filter
    let filter := clipTypeFilters.getD ((currentIndex + 1) % clipTypeFilters.length) state.filter
    ({ state with filter, selectedIndex := 0 }, .none)
  | .enter =>
    if state.itemCount = 0 then (state, .none) else (state, .paste state.selectedIndex)
  | .jumpTo index =>
    if index < 0 || state.itemCount ≤ index then (state, .none)
    else ({ state with selectedIndex := index }, .paste index)
  | .escape => (state, .close)
  | .setItemCount count =>
    let count := max 0 count
    let selectedIndex := clampIndex state.selectedIndex count
    ({ state with itemCount := count, selectedIndex }, .none)

/-- The keys that the window listens to. -/
inductive PopupKey where
  | arrowDown | arrowUp | tab | enter | escape
  /-- Ctrl or Cmd with a digit; `n` is one less. -/
  | digit (n : Fin 9)
deriving DecidableEq

/-- `onKeyDown`. -/
def PopupKey.action : PopupKey → PopupKeyAction
  | .arrowDown => .arrowDown
  | .arrowUp => .arrowUp
  | .tab => .tab
  | .enter => .enter
  | .escape => .escape
  | .digit n => .jumpTo n.val

/-! ## The window -/

/-- `POPUP_BUFFER_SIZE`. -/
def popupBufferSize : Nat := 300

/-- The state of the window and of its hooks `usePopupClips` and `usePopupMotion`. -/
structure Popup where
  clips : List Clip := []
  loading : Bool := true
  offline : Bool := false
  query : List Char := []
  keyState : PopupKeyState := {}
  /-- `results.length` when the effect that depends on it last ran. -/
  counted : Option Nat := none
  leaving : Bool := false

/-- A row as `ClipList` draws it. -/
structure PopupRow where
  clip : Clip
  selected : Bool
  shortcutNumber : Option Nat

/-- The key is marked on the row: Enter by the highlight, a digit by its badge. -/
def PopupKey.Marks (key : PopupKey) (row : PopupRow) : Prop :=
  match key with
  | .enter => row.selected = true
  | .digit n => row.shortcutNumber = some (n.val + 1)
  | _ => False

inductive PopupOp where
  | key (key : PopupKey)
  | type (query : List Char)
  | pickFilter (filter : ClipTypeFilter)
  /-- The row at this place is clicked. -/
  | click (index : Nat)
  | hear (event : Event)
  /-- A request of `refresh` is answered; the daemon had this store. -/
  | receive (store : Store)
  | fail (notConnected : Bool)
  /-- The effect that depends on `results.length` runs. -/
  | countResults
  /-- The popup is shown. -/
  | shown
  /-- It gets the focus. -/
  | focus

namespace Popup

variable [Case.Unicode]

/-- `results`. -/
def results (s : Popup) : List Clip :=
  let byFilter := s.clips.filter (matchesTypeFilter · s.keyState.filter)
  if (jsTrim s.query).length = 0 then byFilter
  else (fuzzyFilter s.query byFilter (·.preview)).map (·.item)

/-- The row of a result. -/
def row (s : Popup) (index : Nat) (clip : Clip) : PopupRow where
  clip
  selected := s.keyState.selectedIndex = index
  shortcutNumber := if index < 9 then some (index + 1) else none

/-- The rows on the screen. -/
def rows (s : Popup) : List PopupRow :=
  if s.offline || (s.loading && s.clips.length = 0) then [] else s.results.mapIdx s.row

/-- `dismiss`, with the clip that is pasted before. -/
def dismiss (s : Popup) (before : Option ClipId) : Popup × Option ClipId :=
  if s.leaving then (s, none) else ({ s with leaving := true }, before)

/-- `performEffect`; a paste of a row that is not there does nothing. -/
def performEffect (s : Popup) (results : List Clip) : PopupKeyEffect → Popup × Option ClipId
  | .none => (s, none)
  | .paste index =>
    match if index < 0 then none else results[index.toNat]? with
    | some target => s.dismiss (some target.id)
    | none => (s, none)
  | .close => s.dismiss none

/-- `dispatch`. -/
def dispatch (s : Popup) (action : PopupKeyAction) : Popup × Option ClipId :=
  let (keyState, effect) := popupKeyReducer s.keyState action
  { s with keyState }.performEffect s.results effect

/-- The listeners of `usePopupClips`. -/
def hear (s : Popup) : Event → Popup
  | .clipAdded clip =>
    { s with clips := (clip :: s.clips.filter (·.id ≠ clip.id)).take popupBufferSize }
  | .clipUpdated clip => { s with clips := s.clips.map fun c => if c.id = clip.id then clip else c }
  | .clipRemoved id => { s with clips := s.clips.filter (·.id ≠ id) }

/-- The window after an event, and the clip that it asks the daemon to paste. -/
def step (s : Popup) : PopupOp → Popup × Option ClipId
  | .key key => s.dispatch key.action
  | .type query => ({ s with query }, none)
  | .pickFilter filter =>
    ({ s with keyState := { s.keyState with filter, selectedIndex := 0 } }, none)
  | .click index => (s, s.rows[index]?.map (·.clip.id))
  | .hear event => (s.hear event, none)
  | .receive store =>
    let page := store.recent (toStoreQuery { limit := popupBufferSize.toUInt32 })
    ({ s with clips := page.filter (!·.deleted), offline := false, loading := false }, none)
  | .fail notConnected => ({ s with offline := s.offline || notConnected, loading := false }, none)
  | .countResults =>
    let count := s.results.length
    if s.counted = some count then (s, none)
    else
      let keyState := (popupKeyReducer s.keyState (.setItemCount count)).1
      ({ s with counted := some count, keyState }, none)
  | .shown => ({ s with leaving := false }, none)
  | .focus =>
    let keyState := { s.keyState with selectedIndex := 0 }
    ({ s with leaving := false, query := [], keyState, loading := true }, none)

/-- The window after a run. -/
def run (s : Popup) (ops : List PopupOp) : Popup := ops.foldl (fun s op => (s.step op).1) s

end Popup
end Clipse
