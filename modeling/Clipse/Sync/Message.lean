import Clipse.Core.Clip

/-!
# What two daemons say to each other (`clipse-sync/src/message.rs`) and merging (`merge.rs`)

Content is immutable, so merging decides about metadata only: the larger `Hlc` wins.
-/

namespace Clipse

/-- `clipse_core::PROTOCOL_VERSION`. -/
def protocolVersion : UInt16 := 1

/-- What a peer needs to decide whether it wants a clip. -/
structure ClipSummary where
  hash : ContentHash
  hlc : Hlc
  kind : ClipKind
  pinned : Bool
  deleted : Bool
  totalSize : UInt64
deriving DecidableEq

/-- `ClipSummary::of`. -/
def ClipSummary.of (c : Clip) : ClipSummary :=
  { hash := c.hash, hlc := c.hlc, kind := c.kind, pinned := c.pinned, deleted := c.deleted,
    totalSize := Clipse.totalSize c.payloads }

inductive SyncMessage where
  | hello (device : DeviceId) (epoch : UInt64) (protocol : UInt16) (maxHlc : Option Hlc)
      (label platform : String)
  | summary (entries : List ClipSummary) (complete : Bool)
  | want (hashes : List ContentHash)
  | push (clip : Clip)
  | blobOffer (digest : ContentHash) (size : UInt64) (chunkSize : UInt32)
  | blobWant (digest : ContentHash) (fromChunk : UInt32)
  | blobChunk (digest : ContentHash) (index : UInt32) (bytes : Bytes)
  | blobEnd (digest : ContentHash)
  | ack (hlc : Hlc)
  | bye (reason : String)
deriving DecidableEq

/-- `variant_name`, for the error texts. -/
def SyncMessage.variantName : SyncMessage → String
  | hello .. => "Hello"
  | summary .. => "Summary"
  | want _ => "Want"
  | push _ => "Push"
  | blobOffer .. => "BlobOffer"
  | blobWant .. => "BlobWant"
  | blobChunk .. => "BlobChunk"
  | blobEnd _ => "BlobEnd"
  | ack _ => "Ack"
  | bye _ => "Bye"

/-- `MergeAction`: what to do with an incoming clip. -/
inductive MergeAction where
  | insert
  | updateMetadata (pinned deleted : Bool)
  | ignore
  | reject
deriving DecidableEq

/-- `merge`: `stored` is what this device has for the hash of `incoming`. -/
def merge [Blake3] (stored : Option Clip) (incoming : Clip) : MergeAction :=
  if !incoming.hashMatches then .reject
  else
    match stored with
    | none => .insert
    | some stored =>
      if stored.hlc < incoming.hlc then .updateMetadata incoming.pinned incoming.deleted
      -- equal HLCs are the same event seen twice
      else .ignore

end Clipse
