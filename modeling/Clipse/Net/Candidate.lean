import Clipse.Crypto.Device
import Clipse.Lib.Table
import Mathlib.Data.List.Sort

/-!
# Candidate addresses (`clipse-net/src/candidate.rs`)

Every way to reach one peer, each address once (the key of the table). `dial_order` tries the LAN
before the tailnet, and of each what was seen last first.
-/

namespace Clipse

/-- `Reachability`, in the order of its derived `Ord`. -/
inductive Reachability where
  | lan
  | tailnet
deriving DecidableEq

namespace Reachability

def rank : Reachability → Nat
  | lan => 0
  | tailnet => 1

/-- `Ord::min`. -/
def min (a b : Reachability) : Reachability := if b.rank < a.rank then b else a

end Reachability

/-- `Candidate`: `lastSeenMs` is `none` as long as nobody has seen the address. -/
structure Candidate where
  addr : SocketAddr
  reachability : Reachability
  lastSeenMs : Option UInt64
deriving DecidableEq

namespace Candidate

def lan (addr : SocketAddr) : Candidate := { addr, reachability := .lan, lastSeenMs := none }

def tailnet (addr : SocketAddr) : Candidate :=
  { addr, reachability := .tailnet, lastSeenMs := none }

def seenAt (c : Candidate) (ms : UInt64) : Candidate := { c with lastSeenMs := some ms }

/-- `last_seen_ms` as `Option`'s derived `Ord` compares it: `None` before every time. -/
def seen (c : Candidate) : Nat :=
  match c.lastSeenMs with
  | none => 0
  | some ms => ms.toNat + 1

/-- How `dial_order` compares. -/
def before (a b : Candidate) : Prop :=
  a.reachability.rank < b.reachability.rank ∨
    a.reachability.rank = b.reachability.rank ∧ b.seen ≤ a.seen

instance (a b : Candidate) : Decidable (a.before b) := inferInstanceAs (Decidable (_ ∨ _))

end Candidate

/-- `MAX_LAN_CANDIDATES`. -/
def maxLanCandidates : Nat := 6

structure CandidateList where
  candidates : Table Candidate.addr

namespace CandidateList

def default_ : CandidateList := ⟨.empty⟩

def isEmpty (l : CandidateList) : Bool := l.candidates.rows.isEmpty

/-- `upsert`: the address once, with the fresher sighting and the nearer way. -/
def upsert (l : CandidateList) (c : Candidate) : CandidateList :=
  ⟨(l.candidates.insert? c).getD (l.candidates.modify (·.addr = c.addr)
    (fun e =>
      { e with
        lastSeenMs := if e.seen < c.seen then c.lastSeenMs else e.lastSeenMs
        reachability := e.reachability.min c.reachability })
    fun _ => rfl)⟩

/-- `CandidateList::new`. -/
def new (candidates : List Candidate) : CandidateList := candidates.foldl upsert default_

/-- `dial_order`: a stable sort. -/
def dialOrder (l : CandidateList) : List Candidate :=
  l.candidates.rows.insertionSort Candidate.before

/-- The addresses that `prune_lan` drops: of the LAN's, what comes after the six seen last. -/
def doomed (l : CandidateList) : List Candidate :=
  ((l.candidates.rows.filter (·.reachability = .lan)).insertionSort
    (fun a b => b.seen ≤ a.seen)).drop maxLanCandidates

/-- `prune_lan`. -/
def pruneLan (l : CandidateList) : CandidateList :=
  ⟨l.candidates.erase (· ∈ l.doomed)⟩

/-- `refresh_lan`: what discovery has found. -/
def refreshLan (l : CandidateList) (discovered : List SocketAddr) (nowMs : UInt64) :
    CandidateList :=
  (discovered.foldl (fun l addr => l.upsert ((Candidate.lan addr).seenAt nowMs)) l).pruneLan

/-- `set_tailnet`. -/
def setTailnet (l : CandidateList) (addr : Option SocketAddr) (nowMs : UInt64) : CandidateList :=
  let l : CandidateList := ⟨l.candidates.erase (·.reachability = .tailnet)⟩
  match addr with
  | some addr => l.upsert ((Candidate.tailnet addr).seenAt nowMs)
  | none => l

end CandidateList
end Clipse
