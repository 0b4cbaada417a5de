import Clipse.Daemon.Paste
import Clipse.Lib.Base64
import Clipse.Lib.Chunks

/-!
# The picture of a clip (`apps/clipse-app/src/hooks/use-clip-payload.ts`, `lib/clip-content.ts`)

A picture that is in the clip's row is drawn from there, a larger one is asked for. Whoever looks may
have gone on to another clip when the answer comes, so an effect that asks leaves a cleanup, which
takes down the flag of its call.

The window encodes with `btoa`, the command `get_payload` with the `base64` crate (`Base64Standard`).
-/

namespace Clipse

/-! ## Data URLs -/

/-- The standard alphabet, in the order of the values. -/
def base64Alphabet : List Char :=
  "ABCDEFGHIJKLMNOPQRSTUVWXYZabcdefghijklmnopqrstuvwxyz0123456789+/".toList

/-- The standard encoding, padded to groups of four. -/
def base64Standard (bytes : Bytes) : List Char :=
  let symbols := (Base64.sextets bytes).map fun v => base64Alphabet.getD v 'A'
  symbols ++ List.replicate ((4 - symbols.length % 4) % 4) '='

/-- `base64::engine::general_purpose::STANDARD`. -/
class Base64Standard where
  encode : Bytes → List Char
  encode_eq : ∀ bytes, encode bytes = base64Standard bytes

/-- `btoa`, of a text whose characters are bytes. -/
def btoa (binary : List Char) : List Char :=
  base64Standard (binary.map fun c => UInt8.ofNat c.toNat)

/-- `bytesToBase64`: the text is put together from chunks. -/
def bytesToBase64 (bytes : Bytes) : List Char :=
  btoa ((bytes.chunks 0x8000).foldl
    (fun binary chunk => binary ++ chunk.map fun b => Char.ofNat b.toNat) [])

/-- `mimeForFormat`, with `IMAGE_MIME`. -/
def mimeForFormat : ClipFormat → Option String
  | .png => some "image/png"
  | .jpeg => some "image/jpeg"
  | .svg => some "image/svg+xml"
  | _ => none

def payloadDataUrl (format : ClipFormat) (base64 : List Char) : Option String :=
  (mimeForFormat format).map fun mime => "data:" ++ mime ++ ";base64," ++ String.ofList base64

def findPayload (clip : Clip) (format : ClipFormat) : Option Payload :=
  clip.payloads.find? (·.format = format)

/-- The loop of `getClipImageDataUrl`: the first of the formats that the clip has decides. -/
def imageDataUrlOf (clip : Clip) : List ClipFormat → Option String
  | [] => none
  | format :: formats =>
    match findPayload clip format with
    | none => imageDataUrlOf clip formats
    | some p => p.inlineBytes.bind fun bytes => payloadDataUrl format (bytesToBase64 bytes)

def getClipImageDataUrl (clip : Clip) : Option String := imageDataUrlOf clip [.png, .jpeg, .svg]

/-! ## The hook -/

/-- `ClipPayload`, what is drawn. -/
structure ClipPayload where
  imageUrl : Option String
  loading : Bool
  tooLarge : Bool
deriving DecidableEq

/-- `IDLE`. -/
def ClipPayload.idle : ClipPayload := { imageUrl := none, loading := false, tooLarge := false }

/-- How far a call of `getPayload` is. -/
inductive CallPhase where
  | asked
  /-- What comes back: the daemon's response, or an error on the way. -/
  | answered (response : Option ClipResponse)
  | over
deriving DecidableEq

/-- A call, and the flag `live` of the effect that has made it. -/
structure PayloadCall where
  id : ClipId
  format : ClipFormat
  live : Bool
  phase : CallPhase
deriving DecidableEq

/-- A component that uses the hook; without a clip there is nothing to see. -/
structure ClipPicture where
  maxBytes : Option Nat
  /-- `latest`: the clip of the last rendering. -/
  latest : Option Clip
  /-- The clip that the last effect has found there. -/
  current : Option Clip
  /-- The state, which a rendering returns. -/
  shown : ClipPayload
  calls : List PayloadCall
  /-- The call that the cleanup of the last effect takes down. -/
  cleanup : Option Nat

namespace ClipPicture

/-- Before the first rendering. -/
def initial (maxBytes : Option Nat) : ClipPicture :=
  { maxBytes, latest := none, current := none, shown := .idle, calls := [], cleanup := none }

def idle (s : ClipPicture) : ClipPicture := { s with shown := .idle, cleanup := none }

/-- The payload that is asked for. -/
def wanted (clip : Clip) : Option Payload :=
  findPayload clip .png <|> findPayload clip .jpeg <|> findPayload clip .svg

/-- Ask for a payload. -/
def ask (s : ClipPicture) (clip : Clip) (p : Payload) : ClipPicture :=
  { s with
    shown := { imageUrl := none, loading := true, tooLarge := false }
    calls := s.calls ++ [{ id := clip.id, format := p.format, live := true, phase := .asked }]
    cleanup := some s.calls.length }

/-- The effect. -/
def effect (s : ClipPicture) : ClipPicture :=
  match s.current with
  | none => s.idle
  | some clip =>
    if clip.kind ≠ .image then s.idle
    else
      match getClipImageDataUrl clip with
      | some url => { s.idle with shown := { imageUrl := url, loading := false, tooLarge := false } }
      | none =>
        match wanted clip with
        | none => s.idle
        | some p =>
          if s.maxBytes.any (· < p.size.toNat) then
            { s.idle with shown := { imageUrl := none, loading := false, tooLarge := true } }
          else s.ask clip p

/-- What the last effect has left to be called before the next. -/
def takeDown (s : ClipPicture) : ClipPicture :=
  match s.cleanup with
  | none => s
  | some n => { s with calls := s.calls.modify n fun c => { c with live := false }, cleanup := none }

/-- The effect depends on the id of the clip alone. React runs it some time after the rendering that
has changed the id. -/
def flush (s : ClipPicture) : ClipPicture :=
  if s.latest.map (·.id) = s.current.map (·.id) then s
  else { s.takeDown with current := s.latest }.effect

/-- The component is rendered. An effect that is still to be run is run before. -/
def render (s : ClipPicture) (clip : Option Clip) : ClipPicture := { s.flush with latest := clip }

def setPhase (s : ClipPicture) (n : Nat) (phase : CallPhase) : ClipPicture :=
  { s with calls := s.calls.modify n fun c => { c with phase } }

variable [Base64Standard]

/-- What is shown for a response, which the command `get_payload` has encoded. -/
def shownFor (format : ClipFormat) : Option ClipResponse → ClipPayload
  | some (.payloadBytes bytes) =>
    { imageUrl := bytes.bind fun bytes => payloadDataUrl format (Base64Standard.encode bytes)
      loading := false
      tooLarge := bytes.isNone }
  | _ => .idle

/-- What comes back reaches the window. -/
def deliver (s : ClipPicture) (n : Nat) : ClipPicture :=
  match s.calls[n]? with
  | some { id := _, format, live, phase := .answered response } =>
    if live then { s.setPhase n .over with shown := shownFor format response }
    else s.setPhase n .over
  | _ => s

end ClipPicture
end Clipse
