import Clipse.Clipboard.Watch
import Clipse.Lib.Lines
import Mathlib.Data.List.DropRight

/-!
# The clipboard on Windows (`clipse-clipboard/src/platform/windows.rs`)

A write empties the clipboard and sets one block of memory for each format that Windows has: text as
UTF-16, HTML in the `CF_HTML` wrapper, a list of files as `DROPFILES`. Blocks are read back at the
size they were set with.
-/

namespace Clipse
namespace Windows

inductive Format where
  | unicodeText | html | rtf | png | hdrop | exclude
deriving DecidableEq

/-- The blocks on the clipboard, by format. -/
abbrev Blocks := Format → Option Bytes

/-! ## HTML -/

/-- `StartFragment:` and its like: the text after the first place where `key` stands. -/
def after (key : List Char) : List Char → Option (List Char)
  | [] => if key = [] then some [] else none
  | c :: text => if key.isPrefixOf (c :: text) then some ((c :: text).drop key.length)
      else after key text

/-- `str::parse::<usize>` of digits. -/
def parseUsize (digits : List Char) : Option Nat :=
  if digits = [] then none
  else if Nat.ofDigitChars 10 digits 0 < 2 ^ 64 then some (Nat.ofDigitChars 10 digits 0) else none

/-- `find_offset`. -/
def findOffset (header key : List Char) : Option Nat :=
  (after key header).bind fun text => parseUsize (text.takeWhile Char.isDigit)

/-- `parse_cf_html`. -/
def parseCfHtml (bytes : Bytes) : Bytes :=
  let header := Utf.decode8 bytes
  match findOffset header "StartFragment:".toList, findOffset header "EndFragment:".toList with
  | some start, some stop =>
    if start < stop && stop ≤ bytes.length then (bytes.take stop).drop start else bytes
  | _, _ => bytes

/-- `{n:09}`. -/
def padded (n : Nat) : List Char := (Nat.toDigits 10 n).leftpad 9 '0'

/-- `PREFIX` and `SUFFIX` of `build_cf_html`. -/
def cfPrefix : List Char := "<html>\r\n<body>\r\n<!--StartFragment-->".toList
def cfSuffix : List Char := "<!--EndFragment-->\r\n</body>\r\n</html>\r\n".toList

/-- `header_of`. -/
def headerOf (startHtml endHtml startFragment endFragment : Nat) : List Char :=
  "Version:0.9\r\nStartHTML:".toList ++ padded startHtml ++
    "\r\nEndHTML:".toList ++ padded endHtml ++
    "\r\nStartFragment:".toList ++ padded startFragment ++
    "\r\nEndFragment:".toList ++ padded endFragment ++ "\r\n".toList

/-- The offsets of `build_cf_html`. -/
def startHtml : Nat := (Utf.encode8 (headerOf 0 0 0 0)).length
def startFragment : Nat := startHtml + (Utf.encode8 cfPrefix).length
def endFragment (size : Nat) : Nat := startFragment + size
def endHtml (size : Nat) : Nat := endFragment size + (Utf.encode8 cfSuffix).length

/-- `build_cf_html`. -/
def buildCfHtml (fragment : Bytes) : Bytes :=
  let size := fragment.length
  Utf.encode8 (headerOf startHtml (endHtml size) startFragment (endFragment size)) ++
    Utf.encode8 cfPrefix ++ fragment ++ Utf.encode8 cfSuffix

/-! ## Lists of files -/

/-- `u32::to_le_bytes` and back. -/
def u32Bytes (n : Nat) : Bytes := (List.range 4).map fun i => UInt8.ofNat (n / 256 ^ i % 256)
def u32Of (bytes : Bytes) : Nat := bytes.foldr (fun b n => b.toNat + 256 * n) 0

/-- `size_of::<DropFilesHeader>()`. -/
def headerLen : Nat := 20

/-- `DropFilesHeader`, of a list in UTF-16: `p_files`, `pt_x`, `pt_y`, `f_nc`, `f_wide`. -/
def dropFilesHeader : Bytes :=
  u32Bytes headerLen ++ u32Bytes 0 ++ u32Bytes 0 ++ u32Bytes 0 ++ u32Bytes 1

/-- `build_hdrop`. -/
def buildHdrop (bytes : Bytes) : Bytes :=
  let files := (Lines.lines (Utf.decode8 bytes)).filter (· ≠ [])
  dropFilesHeader ++ Utf.bytesOf ((files.flatMap fun l => Utf.encode16 l ++ [0]) ++ [0])

/-- `split_double_null_utf16`, with the units of the segment so far. -/
def splitDoubleNull (segment : List UInt16) : List UInt16 → List (List Char)
  | [] => []
  | u :: units =>
    if u = 0 then
      if segment = [] then [] else Utf.decode16 segment :: splitDoubleNull [] units
    else splitDoubleNull (segment ++ [u]) units

/-- `read_hdrop`. -/
def readHdrop (raw : Bytes) : Option Bytes :=
  if raw.length < headerLen then none
  else if raw.length < u32Of (raw.take 4) then none
  else
    let list := raw.drop (u32Of (raw.take 4))
    let paths :=
      if u32Of ((raw.drop 16).take 4) ≠ 0 then splitDoubleNull [] (Utf.unitsOf list)
      else ((list.splitOn 0).takeWhile (· ≠ [])).map Utf.decode8
    if paths = [] then none else some (Utf.encode8 (Lines.unlines paths))

/-! ## Reading and writing -/

/-- `read_unicode_text`. -/
def readUnicodeText (raw : Bytes) : Bytes :=
  Utf.encode8 (Utf.decode16 ((Utf.unitsOf raw).takeWhile (· ≠ 0)))

/-- `strip_trailing_nuls`. -/
def stripTrailingNuls (bytes : Bytes) : Bytes := bytes.rdropWhile (· = 0)

/-- `poll_clipboard`. -/
def poll (owner : Option String) (blocks : Blocks) : RawPoll :=
  if (blocks .exclude).isSome then .concealed
  else
    let payloads := [
      (blocks .unicodeText).map fun raw => (ClipFormat.text, readUnicodeText raw),
      (blocks .html).map fun raw => (ClipFormat.html, parseCfHtml raw),
      (blocks .rtf).map fun raw => (ClipFormat.rtf, stripTrailingNuls raw),
      (blocks .png).map (ClipFormat.png, ·),
      ((blocks .hdrop).bind readHdrop).map (ClipFormat.fileList, ·)]
    .of (payloads.filterMap id) owner

/-- `set_global`: a block has at least one byte, which is what was in memory if none is written. -/
def setGlobal (stale : UInt8) (blocks : Blocks) (format : Format) (bytes : Bytes) : Blocks :=
  Function.update blocks format (some (if bytes = [] then [stale] else bytes))

/-- `write_one`. -/
def writeOne (stale : UInt8) (blocks : Blocks) (p : ClipFormat × Bytes) : Blocks :=
  match p.1 with
  | .text =>
    setGlobal stale blocks .unicodeText
      (Utf.bytesOf (Utf.encode16 (Utf.decode8 p.2) ++ [0]))
  | .html => setGlobal stale blocks .html (buildCfHtml p.2)
  | .rtf => setGlobal stale blocks .rtf (p.2 ++ [0])
  | .png => setGlobal stale blocks .png p.2
  | .fileList => setGlobal stale blocks .hdrop (buildHdrop p.2)
  | .jpeg | .svg | .other _ => blocks

/-- `WindowsClipboard::write`. -/
def write (stale : UInt8) (payloads : List (ClipFormat × Bytes)) : Blocks :=
  payloads.foldl (writeOne stale) fun _ => none

/-- Every `WM_CLIPBOARDUPDATE` is looked at. `owner` is the file name of the process that owns the
clipboard, where it can be told. -/
def backend (stale : UInt8) (owner : Option String) : Backend :=
  { Contents := Blocks, write := fun payloads => some (write stale payloads), poll := poll owner,
    sees := fun _ _ => true }

end Windows
end Clipse
