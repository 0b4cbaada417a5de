import Clipse.Clipboard.Sensitive

/-!
# Clipboard changes (`clipse-clipboard/src/capture.rs`, `own_write_guard.rs`, `watch.rs`)

What a platform reads from the clipboard goes through `classify`, which refuses what is private and
what this device wrote itself: `OwnWriteGuard` remembers the hash of the last write, for one match
and for a limited time.

* `classify_data_eq`: a change is captured exactly if none of the rules applies to it.
-/

namespace Clipse

/-- `Capture`: the formats of one clipboard change and the application that owns it. -/
structure Capture where
  payloads : List (ClipFormat × Bytes)
  app : Option String
deriving DecidableEq

/-- The order in which `hash_payloads` takes them: by label, stable. -/
def sortByLabel (payloads : List (ClipFormat × Bytes)) : List (ClipFormat × Bytes) :=
  payloads.insertionSort (fun a b => a.1.label ≤ b.1.label)

/-- `hash_payloads`. -/
def hashPayloads [Blake3] (payloads : List (ClipFormat × Bytes)) : ContentHash :=
  .ofParts ((sortByLabel payloads).map fun p => (p.1.label, p.2))

/-- The bytes over all representations (`Capture::total_bytes`). -/
def totalBytes (payloads : List (ClipFormat × Bytes)) : Nat := (payloads.map (·.2.length)).sum

/-! ## The guard -/

/-- What the guard remembers of a write: the hash and the time. -/
structure Pending where
  hash : ContentHash
  writtenAt : Nat

structure OwnWriteGuard where
  ttl : Nat
  pending : Option Pending

namespace OwnWriteGuard

def new (ttl : Nat) : OwnWriteGuard := { ttl, pending := none }

/-- `record_write`: only the newest write is remembered. -/
def recordWrite (g : OwnWriteGuard) (hash : ContentHash) (now : Nat) : OwnWriteGuard :=
  { g with pending := some { hash, writtenAt := now } }

/-- `check`: a match or the end of its time clears the entry. -/
def check (g : OwnWriteGuard) (hash : ContentHash) (now : Nat) : Bool × OwnWriteGuard :=
  match g.pending with
  | none => (false, g)
  | some p =>
    if g.ttl < now - p.writtenAt then (false, { g with pending := none })
    else if p.hash = hash then (true, { g with pending := none })
    else (false, g)

theorem check_recordWrite {g : OwnWriteGuard} {hash hash' : ContentHash} {written now : Nat}
    (h : now - written ≤ g.ttl) :
    ((g.recordWrite hash written).check hash' now).1 = decide (hash = hash') := by
  unfold check recordWrite
  simp only [Nat.not_lt.2 h, if_false]
  split <;> simp_all

end OwnWriteGuard

/-! ## Classification -/

inductive SuppressionReason where
  | concealedFormat
  | blockedApp (app : String)
  | detectedSecret (kind : SecretKind)
  | empty
  | tooLarge (bytes : Nat)
  | ownWrite
deriving DecidableEq

inductive CaptureEvent where
  | captured (capture : Capture)
  | suppressed (reason : SuppressionReason)
deriving DecidableEq

/-- The settings of the watcher that `classify` reads. -/
structure WatchConfig where
  appBlocklist : AppBlocklist
  maxPayloadBytes : UInt64
  detectSecrets : Bool

/-- `WatchConfig::default`. -/
def WatchConfig.default_ : WatchConfig :=
  { appBlocklist := .defaults, maxPayloadBytes := 64 * 1024 * 1024, detectSecrets := true }

/-- What one look at the clipboard gave. -/
inductive RawPoll where
  | concealed
  | empty
  | data (capture : Capture)
deriving DecidableEq

/-- Formats that are searched for secrets. -/
def ClipFormat.isTextLike : ClipFormat → Bool
  | .text | .html | .rtf => true
  | _ => false

/-- `detect_secret_in_payloads`. -/
def detectSecretInPayloads [Regex] (payloads : List (ClipFormat × Bytes)) : Option SecretKind :=
  payloads.findSome? fun p => if p.1.isTextLike then detectSecret (Utf.decode8 p.2) else none

/-- The owner of the clipboard, if it is blocked. -/
def WatchConfig.blocked (config : WatchConfig) (app : Option String) : Option String :=
  app.filter config.appBlocklist.isBlocked

/-- The secret found in a capture, if secrets are looked for. -/
def WatchConfig.secret [Regex] (config : WatchConfig) (payloads : List (ClipFormat × Bytes)) :
    Option SecretKind :=
  if config.detectSecrets then detectSecretInPayloads payloads else none

/-- `classify`. -/
def classify [Blake3] [Regex] (poll : RawPoll) (config : WatchConfig) (guard : OwnWriteGuard)
    (now : Nat) : CaptureEvent × OwnWriteGuard :=
  match poll with
  | .concealed => (.suppressed .concealedFormat, guard)
  | .empty => (.suppressed .empty, guard)
  | .data capture =>
    if capture.payloads = [] then (.suppressed .empty, guard)
    else if config.maxPayloadBytes.toNat < totalBytes capture.payloads then
      (.suppressed (.tooLarge (totalBytes capture.payloads)), guard)
    else
      match config.blocked capture.app with
      | some app => (.suppressed (.blockedApp app), guard)
      | none =>
        let (own, guard) := guard.check (hashPayloads capture.payloads) now
        if own then (.suppressed .ownWrite, guard)
        else
          match config.secret capture.payloads with
          | some kind => (.suppressed (.detectedSecret kind), guard)
          | none => (.captured capture, guard)

/-- The rules that look at the capture alone refuse it. -/
def WatchConfig.Refuses [Regex] (config : WatchConfig) (capture : Capture) : Prop :=
  capture.payloads = [] ∨ config.maxPayloadBytes.toNat < totalBytes capture.payloads ∨
    config.blocked capture.app ≠ none ∨ config.secret capture.payloads ≠ none

/-- **What is captured**: what no rule refuses and the guard does not know. -/
theorem classify_data_eq [Blake3] [Regex] {config : WatchConfig} {guard : OwnWriteGuard} {now : Nat}
    {capture capture' : Capture} :
    (classify (.data capture) config guard now).1 = .captured capture' ↔
      capture' = capture ∧ ¬ config.Refuses capture ∧
        (guard.check (hashPayloads capture.payloads) now).1 = false := by
  unfold classify WatchConfig.Refuses
  by_cases hempty : capture.payloads = []
  · simp [hempty]
  by_cases hlarge : config.maxPayloadBytes.toNat < totalBytes capture.payloads
  · simp [hempty, hlarge]
  cases hblocked : config.blocked capture.app with
  | some app => simp [hempty, hlarge, hblocked]
  | none =>
    cases hown : (guard.check (hashPayloads capture.payloads) now).1 with
    | true => simp [hempty, hlarge, hblocked, hown]
    | false =>
      cases hsecret : config.secret capture.payloads with
      | some kind => simp [hempty, hlarge, hblocked, hown, hsecret]
      | none => simp [hempty, hlarge, hblocked, hown, hsecret, eq_comm]

/-! ## Platforms -/

/-- What there is to classify once the formats have been read. -/
def RawPoll.of (payloads : List (ClipFormat × Bytes)) (app : Option String) : RawPoll :=
  if payloads = [] then .empty else .data { payloads, app }

/-- A platform: how it writes to the clipboard (`Clipboard::write`; `none` leaves it as it was),
what a look at the contents gives, and whether the watch loop takes a look for a change, given the
look before. -/
structure Backend where
  Contents : Type
  write : List (ClipFormat × Bytes) → Option Contents
  poll : Contents → RawPoll
  sees : RawPoll → RawPoll → Bool

/-- What the watch loop reports after this device wrote to the clipboard at the time `written` and
the loop came to look at the time `now`: one write, recorded before that look. A look between the
write and its record, and a second write before the look, are not modelled. -/
def Backend.echo [Blake3] [Regex] (b : Backend) (config : WatchConfig) (guard : OwnWriteGuard)
    (last : RawPoll) (payloads : List (ClipFormat × Bytes)) (written now : Nat) :
    Option CaptureEvent :=
  match b.write payloads with
  | none => none
  | some contents =>
    let guard := guard.recordWrite (hashPayloads payloads) written
    if b.sees last (b.poll contents) then some (classify (b.poll contents) config guard now).1
    else none

end Clipse
