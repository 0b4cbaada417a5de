import Clipse.Clipboard.Watch
import Clipse.Lib.Lines
import Mathlib.Data.List.DropRight

/-!
# The clipboard on Linux (`clipse-clipboard/src/platform/linux.rs`)

On X11 the owner of the selection serves one target, on Wayland the copy is offered under one MIME
type and what the copying library offers beside it. Both write the text of a clip if it has one, else
its first payload.
-/

namespace Clipse

/-- `str::trim`. -/
def trim (l : List Char) : List Char := (l.dropWhile isWhitespace).rdropWhile isWhitespace

/-- `u8::to_ascii_lowercase`. -/
def asciiLower (b : UInt8) : UInt8 := if 65 ≤ b && b ≤ 90 then b + 32 else b

/-- The hint of a password manager: `secret`, in any case. -/
def isSecretHint (hint : Bytes) : Bool := hint.map asciiLower = utf8 "secret"

/-- The payload that is written: the text, else the first. -/
def chosen (payloads : List (ClipFormat × Bytes)) : Option (ClipFormat × Bytes) :=
  (payloads.find? (·.1 = .text)).or payloads.head?

/-! ## X11 -/

namespace X11

inductive Target where
  | utf8String | html | rtf | png | uriList | passwordHint
deriving DecidableEq

/-- What the owner of the selection answers, target by target. -/
abbrev Selection := Target → Option Bytes

/-- The selection after `x11_clipboard::Clipboard::store`. -/
def store (target : Target) (bytes : Bytes) : Selection :=
  fun t => if t = target then some bytes else none

/-- The target for each format. -/
def target : ClipFormat → Target
  | .html => .html
  | .rtf => .rtf
  | .png => .png
  | .fileList => .uriList
  | .text | .jpeg | .svg | .other _ => .utf8String

/-- `X11Clipboard::write`. -/
def write (payloads : List (ClipFormat × Bytes)) : Option Selection :=
  (chosen payloads).map fun p => store (target p.1) p.2

/-- `uri_list_to_paths`. -/
def uriListToPaths (bytes : Bytes) : Bytes :=
  let lines := (Lines.lines (Utf.decode8 bytes)).map trim
  Utf.encode8 (Lines.unlines (lines.filter fun l => l ≠ [] && l.head? ≠ some '#'))

/-- `SelectionReader::load`. -/
def load (selection : Selection) (target : Target) : Option Bytes :=
  (selection target).filter (· ≠ [])

/-- `SelectionReader::poll`. -/
def poll (selection : Selection) : RawPoll :=
  if (load selection .passwordHint).any isSecretHint then .concealed
  else
    let payloads := [
      (load selection .utf8String).map (ClipFormat.text, ·),
      (load selection .html).map (ClipFormat.html, ·),
      (load selection .rtf).map (ClipFormat.rtf, ·),
      (load selection .png).map (ClipFormat.png, ·),
      (load selection .uriList).map fun bytes => (ClipFormat.fileList, uriListToPaths bytes)]
    .of (payloads.filterMap id) none

/-- Every change of the selection's owner is looked at. -/
def backend : Backend :=
  { Contents := Selection, write, poll, sees := fun _ _ => true }

end X11

/-! ## Wayland -/

namespace Wayland

/-- `wl-clipboard-rs`: under which MIME types it offers what was copied under one of them. -/
structure CopyLibrary where
  offers : String → String → Bool
  offers_self : ∀ mime, offers mime mime

/-- What is offered, by MIME type. -/
abbrev Offer := String → Option Bytes

def copy (lib : CopyLibrary) (mime : String) (bytes : Bytes) : Offer :=
  fun asked => if lib.offers mime asked then some bytes else none

/-- The MIME type for each format. -/
def mime : ClipFormat → String
  | .text => "text/plain;charset=utf-8"
  | .html => "text/html"
  | .rtf => "text/rtf"
  | .png => "image/png"
  | .jpeg => "image/jpeg"
  | .svg => "image/svg+xml"
  | .fileList => "text/uri-list"
  | .other name => name

/-- `WaylandClipboard::write`. -/
def write (lib : CopyLibrary) (payloads : List (ClipFormat × Bytes)) : Option Offer :=
  (chosen payloads).map fun p => copy lib (mime p.1) p.2

/-- `read_mime`. -/
def readMime (offer : Offer) (mime : String) : Option Bytes := (offer mime).filter (· ≠ [])

/-- `PASSWORD_HINT_MIME`. -/
def passwordHintMime : String := "x-kde-passwordManagerHint"

/-- The MIME types that are read, and the format of each. -/
def readTypes : List (String × ClipFormat) :=
  [("text/plain;charset=utf-8", .text), ("text/html", .html), ("text/rtf", .rtf),
    ("image/png", .png), ("text/uri-list", .fileList)]

/-- `read_clipboard`. -/
def readClipboard (offer : Offer) : RawPoll :=
  if (readMime offer passwordHintMime).any isSecretHint then .concealed
  else .of (readTypes.filterMap fun t => (readMime offer t.1).map (t.2, ·)) none

/-- `same`. -/
def same [Blake3] : RawPoll → RawPoll → Bool
  | .empty, .empty => true
  | .concealed, .concealed => true
  | .data x, .data y => hashPayloads x.payloads = hashPayloads y.payloads
  | _, _ => false

/-- The loop looks at what differs from the look before. -/
def backend [Blake3] (lib : CopyLibrary) : Backend :=
  { Contents := Offer, write := write lib, poll := readClipboard,
    sees := fun last current => !same current last }

end Wayland
end Clipse
