import Clipse.Store.Proof.Calls
import Clipse.Sync.Proof.Run

/-!
# A fleet of paired devices

Every device has a store, and two of them have a session from time to time, which can break off
anywhere. In between, every device calls its own store.
-/

namespace Clipse

open Duplex Session

/-- The devices, with what each of them stores. -/
abbrev Fleet (ι : Type) := ι → SyncContext

inductive FleetOp (ι : Type) where
  /-- A capture, a pin, a delete or a purge. -/
  | call (i : ι) (c : Store.Call)
  /-- A session, as far as it got. -/
  | session (dialler responder : ι)

namespace Fleet

variable {ι : Type} [DecidableEq ι] [Blake3]

inductive Step (w : Fleet ι) : FleetOp ι → Fleet ι → Prop where
  | call (i : ι) (c : Store.Call) :
      Step w (.call i c) (Function.update w i { w i with store := (w i).store.call c })
  | session {i j : ι} (hne : i ≠ j) {epochA epochB : UInt64} {F : Link syncWire SyncOutcome}
      (h : Steps (sessionLink (w i) (w j) epochA epochB) F) :
      Step w (.session i j) (Function.update (Function.update w i F.1.state) j F.2.state)

end Fleet
end Clipse
