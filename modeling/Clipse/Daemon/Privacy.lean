import Clipse.Daemon.Apply
import Clipse.Daemon.Saved

/-!
# Settings of a running daemon (`clipsed/src/lib.rs`, `daemon.rs`, `capture.rs`)

`run` starts the watcher and opens the store with the settings that it has read; requests replace the
daemon's own settings later. What the watcher reports waits in a channel until the capture loop takes
it. A change is listed with what `classify` was given, and with the settings that the user had been
told were saved.
-/

namespace Clipse

/-- `AppBlocklist::with_extra`. -/
def AppBlocklist.withExtra (l : AppBlocklist) (entries : List String) : AppBlocklist :=
  { normalized := l.normalized ++ (new entries).normalized }

/-- The `watch_config` of `run`. -/
def WatchConfig.of (settings : Settings) : WatchConfig :=
  { WatchConfig.default_ with
    appBlocklist := AppBlocklist.defaults.withExtra settings.blockedApps
    detectSecrets := settings.detectSecrets }

/-- What the watcher reported of one clipboard change. -/
structure Change where
  event : CaptureEvent
  poll : RawPoll
  guard : OwnWriteGuard
  now : Nat
  saved : Option Settings

/-- A daemon between start and shutdown. -/
structure RunningDaemon where
  /-- The settings that `run` has read. -/
  started : Settings
  watch : WatchConfig
  guard : OwnWriteGuard
  changes : List Change
  daemon : Daemon
  paused : Bool
  ctx : SyncContext
  /-- The settings of the last `UpdateSettings` that was answered `Ok`. -/
  saved : Option Settings

inductive RunningOp where
  | updateSettings (settings : Settings) (outcome : WriteOutcome)
  | setPaused (paused : Bool)
  /-- The clipboard changes. -/
  | change (poll : RawPoll) (now : Nat)
  /-- This device writes to the clipboard. -/
  | ownWrite (hash : ContentHash) (now : Nat)
  /-- The capture loop takes the next event; the id is generated for its clip. -/
  | take (id : ClipId)
  /-- Sessions and other requests. -/
  | others (ctx : SyncContext)

namespace RunningDaemon

/-- `run`, once it has read the settings and opened the store. -/
def run (daemon : Daemon) (guard : OwnWriteGuard) (ctx : SyncContext) : RunningDaemon where
  started := daemon.config.settings
  watch := .of daemon.config.settings
  guard
  changes := []
  daemon
  paused := false
  ctx := { ctx with
    store := { ctx.store with blobQuotaBytes := daemon.config.settings.blobQuotaBytes } }
  saved := none

section
variable [Blake3] [Regex] [SavedFormats]

def step (s : RunningDaemon) : RunningOp → RunningDaemon
  | .updateSettings settings outcome =>
    match s.daemon.updateSettings settings outcome with
    | (.ok (), daemon) => { s with daemon, saved := some settings }
    | (.error _, daemon) => { s with daemon }
  | .setPaused paused => { s with paused }
  | .change poll now =>
    let classified := classify poll s.watch s.guard now
    { s with
      guard := classified.2
      changes := s.changes ++ [⟨classified.1, poll, s.guard, now, s.saved⟩] }
  | .ownWrite hash now => { s with guard := s.guard.recordWrite hash now }
  | .take id =>
    match s.changes with
    | [] => s
    | c :: changes =>
      match s.ctx.onCaptureEvent s.paused id c.event with
      | .ok ctx => { s with changes, ctx }
      | .error _ => { s with changes }
  -- Nothing sets the quota of a store that is open.
  | .others ctx =>
    if ctx.store.blobQuotaBytes = s.ctx.store.blobQuotaBytes then { s with ctx } else s

end

end RunningDaemon
end Clipse
