import Clipse.Daemon.IpcServer
import Clipse.Net.Pack
import Clipse.Store.Search

/-!
# Pages of the history (`clipse-ipc/src/codec.rs`, `clipsed/src/daemon.rs`)

The requests `History` and `Search`, how the daemon answers them from its store, and how the answer
is framed. `serve_connection` ends with the error of a frame that is too large.
-/

namespace Clipse

/-- `clipse_ipc::HistoryQuery`. -/
structure IpcHistoryQuery where
  limit : UInt32
  offset : UInt32 := 0
  kind : Option ClipKind := none
  pinnedOnly : Bool := false
deriving DecidableEq

/-- The requests for a page. -/
inductive HistoryRequest where
  | history (query : IpcHistoryQuery)
  | search (text : List Char) (query : IpcHistoryQuery)
deriving DecidableEq

/-- The responses to them. -/
inductive HistoryResponse where
  | clips (clips : List Clip)
  | error (error : IpcError)
deriving DecidableEq

/-- `to_store_query`. -/
def toStoreQuery (query : IpcHistoryQuery) : Store.HistoryQuery where
  limit := query.limit.toUInt64
  offset := query.offset.toUInt64
  kind := query.kind
  pinnedOnly := query.pinnedOnly

/-- `Daemon::handle`, of the requests for a page. What SQLite refuses is an error of the store. -/
def HistoryRequest.handle [Fts5] (store : Store) : HistoryRequest → HistoryResponse
  | .history query => .clips (store.recent (toStoreQuery query))
  | .search text query =>
    match store.search text (toStoreQuery query) with
    | .ok clips => .clips clips
    | .error e => .error { code := .internal, message := "sqlite error: " ++ e }

/-! ## Frames -/

namespace MessagePack

def packErrorCode : ErrorCode → Bytes
  | .versionMismatch => packStr "VersionMismatch"
  | .notFound => packStr "NotFound"
  | .badRequest => packStr "BadRequest"
  | .unsupported => packStr "Unsupported"
  | .internal => packStr "Internal"

def packIpcError (e : IpcError) : Bytes :=
  packFields [("code", packErrorCode e.code), ("message", packStr e.message)]

def packHistoryResponse : HistoryResponse → Bytes
  | .clips clips => packVariant "Clips" (packSeq packClip clips)
  | .error e => packVariant "Error" (packIpcError e)

/-- The frame of a response. -/
def packResponse (id : UInt64) (response : HistoryResponse) : Bytes :=
  packFields
    [("id", packUint id.toNat), ("body", packVariant "Response" (packHistoryResponse response))]

end MessagePack

/-- `MAX_FRAME_BYTES`. -/
def Ipc.maxFrameBytes : Nat := 32 * 1024 * 1024

/-- `FrameError`, of a frame that is written to a client that is there. -/
inductive FrameError where
  | tooLarge (size : Nat)
deriving DecidableEq

/-- `write_frame`, of the encoding of a frame: what is written. -/
def writeFrame (body : Bytes) : Except FrameError Bytes :=
  if 2 ^ 32 ≤ body.length then .error (.tooLarge (2 ^ 32 - 1))
  else if Ipc.maxFrameBytes < body.length then .error (.tooLarge body.length)
  else .ok (le32 body.length ++ body)

/-! ## The connection -/

namespace IpcConnection

variable {E : Type} [Broadcast E]

/-- What follows when `handle` returns: the frame is written, or the connection ends with the
error. -/
def answer (c : IpcConnection HistoryRequest HistoryResponse E) (id : UInt64)
    (response : HistoryResponse) : IpcConnection HistoryRequest HistoryResponse E :=
  match writeFrame (MessagePack.packResponse id response) with
  | .ok _ => (c.step (.respond response)).step .flushed
  | .error _ => (c.step (.respond response)).step .broken

/-- A request, and the store when it is handled. -/
structure Asked where
  id : UInt64
  request : HistoryRequest
  store : Store

/-- The client asks for pages, one after the other. -/
def serve [Fts5] (c : IpcConnection HistoryRequest HistoryResponse E) :
    List Asked → IpcConnection HistoryRequest HistoryResponse E
  | [] => c
  | a :: asked =>
    let c := (c.step (.read ⟨a.id, .request (.other a.request)⟩)).step .request
    (c.answer a.id (a.request.handle a.store)).serve asked

end IpcConnection
end Clipse
