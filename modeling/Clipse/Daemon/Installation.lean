import Clipse.Daemon.Saved
import Mathlib.Logic.Function.Basic

/-!
# An installation over its lifetime (`clipsed/src/lib.rs`, `config.rs`, `identity.rs`)

`run` loads the two files of the data directory, or makes them on the first start, before it binds the
endpoint that only one daemon should have; requests write them while the daemon runs, and its end
writes the settings once more. Any number of processes do this, each at its own pace, and each of them
can be killed at any point. A write is one step: where it was cut off is its `WriteOutcome`, as for one
that failed.
-/

namespace Clipse

/-- How far a process is with `run`. -/
inductive Process where
  | ended
  /-- `config.toml` is to be read. -/
  | begun
  /-- There was no `config.toml`; this is to be saved. -/
  | newConfig (config : Config)
  /-- `identity.json` is to be read. -/
  | configured (config : Config)
  /-- There was no `identity.json`; this is to be saved. -/
  | newIdentity (config : Config) (this : Identity)
  /-- The endpoint is to be bound. -/
  | loaded (config : Config) (this : Identity)
  | running (d : Daemon)
  | failed (e : StartError)

/-- The data directory, and the processes that use it. -/
structure Installation where
  configFile : SavedFile
  identityFile : SavedFile
  process : Nat → Process

/-- What one process does. -/
inductive LifeOp where
  | start
  /-- The next step of loading the files. -/
  | load (first : FirstStart)
  /-- `Listener::bind` lets the process go on, or not. -/
  | bind (free : Bool)
  | request (r : DaemonRequest) (outcome : WriteOutcome)
  /-- Discovery and sessions change the peer table. -/
  | loops (peers : DeviceId → Option PeerState)
  /-- The daemon shuts down; `persist` comes last. -/
  | exit (outcome : WriteOutcome)
  | kill

namespace Installation

/-- No process has started yet. -/
def initial (configFile identityFile : SavedFile) : Installation :=
  { configFile, identityFile, process := fun _ => .ended }

def move (s : Installation) (p : Nat) (next : Process) : Installation :=
  { s with process := Function.update s.process p next }

section
variable [SavedFormats]

open SavedFormats

/-- `Config::load_or_create` and `Identity::load_or_create`, step by step. -/
def load (s : Installation) (p : Nat) (first : FirstStart) : Installation :=
  match s.process p with
  | .begun =>
    match s.configFile.text with
    | some text =>
      match fromToml text with
      | .error source => s.move p (.failed (.parse s.configFile.path source))
      | .ok config => s.move p (.configured config)
    | none =>
      s.move p (.newConfig { device := first.device, settings := .default_ first.deviceLabel })
  | .newConfig config =>
    match config.save s.configFile first.configOutcome with
    | (.error message, configFile) => { s.move p (.failed (.save message)) with configFile }
    | (.ok (), configFile) => { s.move p (.configured config) with configFile }
  | .configured config =>
    match s.identityFile.text with
    | some text =>
      match fromJson text with
      | .error source => s.move p (.failed (.parse s.identityFile.path source))
      | .ok stored =>
        if stored.identity.deviceId ≠ config.device then
          s.move p (.failed (.mismatch s.identityFile.path stored.identity.deviceId config.device))
        else s.move p (.loaded config stored)
    | none =>
      s.move p (.newIdentity config
        { identity := first.generate config.device, trust := .new config.device })
  | .newIdentity config this =>
    match saveParts this s.identityFile first.identityOutcome with
    | (.error message, identityFile) => { s.move p (.failed (.save message)) with identityFile }
    | (.ok (), identityFile) => { s.move p (.loaded config this) with identityFile }
  | _ => s

/-- The daemon as it starts out with what it has loaded. -/
def daemonOf (s : Installation) (config : Config) (this : Identity) : Daemon where
  config
  peers := if config.settings.syncEnabled then some (.new this.identity this.trust) else none
  configFile := s.configFile
  identityFile := s.identityFile

def step (s : Installation) (p : Nat) (op : LifeOp) : Installation :=
  match op, s.process p with
  | .start, .ended => s.move p .begun
  | .load first, _ => s.load p first
  | .bind free, .loaded config this =>
    if free then s.move p (.running (s.daemonOf config this)) else s.move p .ended
  | .request r outcome, .running d =>
    -- The files are what all processes have made of them.
    let d := ({ d with configFile := s.configFile, identityFile := s.identityFile }.handle outcome r).2
    { s.move p (.running d) with configFile := d.configFile, identityFile := d.identityFile }
  | .loops peers, .running d =>
    s.move p (.running { d with peers := d.peers.map fun manager => { manager with peers } })
  | .exit outcome, .running d =>
    { s.move p .ended with configFile := (d.config.save s.configFile outcome).2 }
  | .kill, _ => s.move p .ended
  | _, _ => s

/-- Any process does something. -/
def stepOf (s : Installation) (op : Nat × LifeOp) : Installation := s.step op.1 op.2

def run (s : Installation) (ops : List (Nat × LifeOp)) : Installation := ops.foldl stepOf s

end

end Installation
end Clipse
