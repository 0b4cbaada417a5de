import Clipse.Daemon.IpcServer
import Clipse.Daemon.Peers

/-!
# What a daemon keeps on disk (`clipsed/src/config.rs`, `identity.rs`, `daemon.rs`)

The settings and the trust set are in memory and in a file each. Three requests change them:
`commit_pairing`, `forget_device` and `UpdateSettings` change memory first and then write the file.
What becomes of the writing is an argument of the request; that a file which is there can be read is
assumed. The text formats are other crates', so `SavedFormats` is a parameter.
-/

namespace Clipse

/-! ## Files -/

/-- A file that `write_atomically` writes, and its sibling. -/
structure SavedFile where
  path : String
  text : Option String
  tmp : Option Bytes

/-- What becomes of one `write_atomically`. -/
inductive WriteOutcome where
  | done
  /-- `create_dir_all` fails. -/
  | noDirectory (source : String)
  /-- `fs::write` fails, and leaves this as the sibling. -/
  | unwritten (source : String) (tmp : Option Bytes)
  /-- `fs::rename` fails. -/
  | unrenamed (source : String)
deriving DecidableEq

/-- `write_atomically`. -/
def SavedFile.writeAtomically (f : SavedFile) (text : String) :
    WriteOutcome → Except String Unit × SavedFile
  | .done => (.ok (), { f with text := some text, tmp := none })
  | .noDirectory source => (.error ("writing " ++ f.path ++ ": " ++ source), f)
  | .unwritten source tmp => (.error ("writing " ++ f.path ++ ": " ++ source), { f with tmp })
  | .unrenamed source =>
    (.error ("writing " ++ f.path ++ ": " ++ source), { f with tmp := some (utf8 text) })

/-- What both files are saved with: `text` is what the value is serialised as. -/
def SavedFile.save (f : SavedFile) (what : String) (text : Except String String)
    (outcome : WriteOutcome) : Except String Unit × SavedFile :=
  match text with
  | .error source => (.error ("could not serialise " ++ what ++ ": " ++ source), f)
  | .ok text => f.writeAtomically text outcome

/-! ## What is in them -/

/-- `clipse_ipc::Settings`. -/
structure Settings where
  hotkey : String
  applyIncomingToClipboard : Bool
  blobQuotaBytes : UInt64
  blockedApps : List String
  detectSecrets : Bool
  syncEnabled : Bool
  announceOnNetwork : Bool
  startAtLogin : Bool
  deviceLabel : String
deriving DecidableEq

/-- `Settings::default`, with `default_device_label`. -/
def Settings.default_ (deviceLabel : String) : Settings where
  hotkey := "CmdOrCtrl+Shift+V"
  applyIncomingToClipboard := true
  blobQuotaBytes := 2 * 1024 * 1024 * 1024
  blockedApps := []
  detectSecrets := true
  syncEnabled := true
  announceOnNetwork := true
  startAtLogin := true
  deviceLabel

@[ext]
structure Config where
  device : DeviceId
  settings : Settings
deriving DecidableEq

/-- `Identity`: the device key, and whom the device trusts. -/
structure Identity where
  identity : DeviceIdentity
  trust : Trust

/-- `toml` and `serde_json` on the two files, with the texts of their errors. -/
class SavedFormats where
  toToml : Config → Except String String
  fromToml : String → Except String Config
  toJson : Identity → Except String String
  fromJson : String → Except String Identity

/-- The same devices under the same epoch. -/
structure Trust.Same (t t' : Trust) : Prop where
  localDeviceId : t'.localDeviceId = t.localDeviceId
  epoch : t'.epoch = t.epoch
  peer : ∀ d, t'.peer d = t.peer d

/-- What is written is read back. -/
structure SavedFormats.ReadsBack (formats : SavedFormats) : Prop where
  config : ∀ config text, toToml config = .ok text → fromToml text = .ok config
  identity : ∀ this text, toJson this = .ok text →
    ∃ read, fromJson text = .ok read ∧ read.identity = this.identity ∧ this.trust.Same read.trust

inductive StartError where
  /-- The file is not what `load_or_create` can parse. -/
  | parse (path source : String)
  /-- `IdentityError::Mismatch`. -/
  | mismatch (path : String) (stored expected : DeviceId)
  | save (message : String)

section
variable [SavedFormats]

open SavedFormats

/-- `Config::save`. -/
def Config.save (config : Config) (f : SavedFile) (outcome : WriteOutcome) :
    Except String Unit × SavedFile := f.save "config" (toToml config) outcome

/-- `save_parts`. -/
def saveParts (this : Identity) (f : SavedFile) (outcome : WriteOutcome) :
    Except String Unit × SavedFile := f.save "the identity" (toJson this) outcome

/-- `Config::load_or_create`. Where there is no file, the id and the label are new. -/
def Config.loadOrCreate (f : SavedFile) (device : DeviceId) (deviceLabel : String)
    (outcome : WriteOutcome) : Except StartError (Config × SavedFile) :=
  match f.text with
  | some text =>
    match fromToml text with
    | .error source => .error (.parse f.path source)
    | .ok config => .ok (config, f)
  | none =>
    let config : Config := { device, settings := .default_ deviceLabel }
    match config.save f outcome with
    | (.error message, _) => .error (.save message)
    | (.ok (), f) => .ok (config, f)

/-- `Identity::load_or_create`. Where there is no file, the key is new. -/
def Identity.loadOrCreate (f : SavedFile) (device : DeviceId) (generated : DeviceIdentity)
    (outcome : WriteOutcome) : Except StartError (Identity × SavedFile) :=
  match f.text with
  | some text =>
    match fromJson text with
    | .error source => .error (.parse f.path source)
    | .ok stored =>
      if stored.identity.deviceId ≠ device then
        .error (.mismatch f.path stored.identity.deviceId device)
      else .ok (stored, f)
  | none =>
    let this : Identity := { identity := generated, trust := .new device }
    match saveParts this f outcome with
    | (.error message, _) => .error (.save message)
    | (.ok (), f) => .ok (this, f)

end

/-! ## The daemon -/

/-- What the three requests change. -/
structure Daemon where
  config : Config
  /-- `PeerManager`, and the trust set that it shares; none if sync is disabled. -/
  peers : Option PeerManager
  configFile : SavedFile
  identityFile : SavedFile

/-- What a first start makes up and how its writes end. -/
structure FirstStart where
  device : DeviceId
  deviceLabel : String
  /-- `DeviceIdentity::generate`. -/
  generate : DeviceId → DeviceIdentity
  generate_deviceId : ∀ device, (generate device).deviceId = device
  configOutcome : WriteOutcome
  identityOutcome : WriteOutcome

inductive DaemonRequest where
  /-- The end of a ceremony, on either side. -/
  | commitPairing (peer : PairedDevice)
  | forgetDevice (device : DeviceId)
  | updateSettings (settings : Settings)

namespace Daemon

section
variable [SavedFormats]

/-- `run`, as far as it reads the two files. -/
def start (configFile identityFile : SavedFile) (first : FirstStart) :
    Except StartError Daemon := do
  let (config, configFile) ←
    Config.loadOrCreate configFile first.device first.deviceLabel first.configOutcome
  let (this, identityFile) ← Identity.loadOrCreate identityFile config.device
    (first.generate config.device) first.identityOutcome
  let peers := if config.settings.syncEnabled then some (.new this.identity this.trust) else none
  return { config, peers, configFile, identityFile }

/-- `commit_pairing`. -/
def commitPairing (d : Daemon) (peer : PairedDevice) (outcome : WriteOutcome) :
    Except String Unit × Daemon :=
  match d.peers with
  | none => (.error "sync is disabled", d)
  | some manager =>
    let manager := { manager with trust := manager.trust.addPeer peer }
    match saveParts ⟨manager.identity, manager.trust⟩ d.identityFile outcome with
    | (.error e, identityFile) => (.error e, { d with peers := some manager, identityFile })
    | (.ok (), identityFile) =>
      (.ok (), { d with peers := some manager.reloadFromTrust, identityFile })

/-- `forget_device`. -/
def forgetDevice (d : Daemon) (device : DeviceId) (outcome : WriteOutcome) :
    Except IpcError Unit × Daemon :=
  match d.peers with
  | none =>
    (.error ⟨.unsupported, "sync is disabled, so there is nothing to pair with"⟩, d)
  | some manager =>
    match manager.trust.removePeer device with
    | .error e => (.error ⟨.notFound, e.text⟩, d)
    | .ok (_, trust) =>
      let manager := { manager with trust }
      match saveParts ⟨manager.identity, manager.trust⟩ d.identityFile outcome with
      | (.error e, identityFile) =>
        (.error ⟨.internal, e⟩, { d with peers := some manager, identityFile })
      | (.ok (), identityFile) =>
        (.ok (), { d with peers := some manager.reloadFromTrust, identityFile })

/-- `handle`, of `UpdateSettings`. -/
def updateSettings (d : Daemon) (settings : Settings) (outcome : WriteOutcome) :
    Except IpcError Unit × Daemon :=
  let config := { d.config with settings }
  match config.save d.configFile outcome with
  | (.error e, configFile) => (.error ⟨.internal, e⟩, { d with config, configFile })
  | (.ok (), configFile) => (.ok (), { d with config, configFile })

/-- Whether the request succeeds, and the daemon after it. -/
def handle (d : Daemon) (outcome : WriteOutcome) : DaemonRequest → Bool × Daemon
  | .commitPairing peer => ((d.commitPairing peer outcome).1.isOk, (d.commitPairing peer outcome).2)
  | .forgetDevice device =>
    ((d.forgetDevice device outcome).1.isOk, (d.forgetDevice device outcome).2)
  | .updateSettings settings =>
    ((d.updateSettings settings outcome).1.isOk, (d.updateSettings settings outcome).2)

end

end Daemon
end Clipse
