import Clipse.Lib.Stepwise
import Clipse.Lib.Tasks
import Clipse.Store.Proof.Replica
import Clipse.Sync.Session

/-!
# Writers of one content (`clipsed/src/sync.rs`, `peers.rs`, `daemon.rs`, `capture.rs`)

The accept loop runs a task for each inbound link and the dial loop one of its own; each merges what
it is pushed by `apply`. Captures and the user's pins and deletions go to the same store. Nothing is
locked between two calls, so any task can run between any two calls of another.
-/

namespace Clipse

/-- A task that writes one content, with what it has been stamped with. -/
inductive Writer where
  | merge (clip : Clip)
  | capture (id : ClipId) (payloads : List Payload) (source : ClipSource) (hlc : Hlc)
  | setPinned (id : ClipId) (pinned : Bool) (hlc : Hlc)
  | delete (id : ClipId) (hlc : Hlc)

/-- What a writer has to say of the content: when, and the flags that it sets. -/
structure ClipEvent where
  hlc : Hlc
  pinned : Option Bool
  deleted : Option Bool
deriving DecidableEq

namespace ClipEvent

/-- The flags are as the event sets them. -/
def Flags (e : ClipEvent) (r : ClipRow) : Prop :=
  (∀ pinned, e.pinned = some pinned → r.pinned = pinned) ∧
    ∀ deleted, e.deleted = some deleted → r.deleted = deleted

/-- The row carries the event. -/
def Carried (e : ClipEvent) (r : ClipRow) : Prop := r.hlc = e.hlc ∧ e.Flags r

/-- What a row says. -/
def of (r : ClipRow) : ClipEvent :=
  { hlc := r.hlc, pinned := some r.pinned, deleted := some r.deleted }

end ClipEvent

namespace Writer

variable [Blake3]

/-- The calls of the task. -/
def program : Writer → Session Unit
  | .merge clip => Session.apply clip >>= fun _ => pure ()
  | .capture id payloads source hlc =>
    Session.insert (.new id payloads source hlc) >>= fun _ => pure ()
  | .setPinned id pinned hlc => Session.setPinned id pinned hlc
  | .delete id hlc => Session.delete id hlc

/-- A forged clip says nothing. A capture that is a re-copy leaves the pin as it is. -/
def event : Writer → Option ClipEvent
  | .merge clip =>
    if clip.hashMatches then
      some { hlc := clip.hlc, pinned := some clip.pinned, deleted := some clip.deleted }
    else none
  | .capture _ _ _ hlc => some { hlc, pinned := none, deleted := some false }
  | .setPinned _ pinned hlc => some { hlc, pinned := some pinned, deleted := none }
  | .delete _ hlc => some { hlc, pinned := none, deleted := some true }

/-- What is merged or captured has this content. -/
def Writes (hash : ContentHash) : Writer → Prop
  | .merge clip => clip.hash = hash
  | .capture id payloads source hlc => (Clip.new id payloads source hlc).hash = hash
  | .setPinned _ _ _ | .delete _ _ => True

end Writer

/-- The writers of a content, over the context that all tasks of the daemon share. -/
abbrev Writing (ι : Type) := Tasks syncWire ι Unit

namespace Writing

variable [Blake3] {ι : Type} [DecidableEq ι]

def start (ctx : SyncContext) (writers : ι → Writer) : Writing ι where
  state := ctx
  programs := fun i => (writers i).program

/-- The writers' calls, one after another. -/
def run (ctx : SyncContext) (writers : ι → Writer) (schedule : List ι) : Writing ι :=
  schedule.foldl Tasks.step (start ctx writers)

/-- What is said of the content: by the row that was there before, and by the writers. -/
def Said (hash : ContentHash) (ctx : SyncContext) (writers : ι → Writer) (e : ClipEvent) : Prop :=
  (∃ r, ctx.store.rep hash = some r ∧ e = .of r) ∨ ∃ i, (writers i).event = some e

/-- The last writer wins: once all are done, the row carries an event that none is newer than. -/
def LastWins (hash : ContentHash) (ctx : SyncContext) (writers : ι → Writer)
    (schedule : List ι) : Prop :=
  (∀ i, ((run ctx writers schedule).programs i).Ended) → (∃ e, Said hash ctx writers e) →
    ∃ r e, (run ctx writers schedule).state.store.rep hash = some r ∧ Said hash ctx writers e ∧
      (∀ e', Said hash ctx writers e' → e'.hlc ≤ e.hlc) ∧ e.Carried r

end Writing
end Clipse
