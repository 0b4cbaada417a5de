import Clipse.Crypto.Device
import Clipse.Sync.Message

/-!
# Devices on the local network (`clipse-net/src/mdns.rs`, `discovery.rs`)

A device advertises a `ServiceRecord` as a set of named texts, and reads those of others back.
`Discovery` turns what a browse reports into sightings of devices: it remembers which device it has
seen under which name, because a withdrawal names no device. How UUIDs are read is another crate's,
so `UuidText` is a parameter.
-/

namespace Clipse

/-- `Uuid::parse_str`: it reads back what `Uuid::to_string` writes. -/
class UuidText where
  parseStr : String → Option DeviceId
  parseStr_text : ∀ d : DeviceId, parseStr (String.ofList d.text) = some d

/-- `u16::from_str`. -/
def parseU16 (s : String) : Option UInt16 :=
  let digits := if s.toList.head? = some '+' then s.toList.tail else s.toList
  if digits = [] ∨ ¬ digits.all Char.isDigit then none
  else
    let n := Nat.ofDigitChars 10 digits 0
    if n < 2 ^ 16 then some (.ofNat n) else none

/-- `DeviceId::short`. -/
def DeviceId.short (d : DeviceId) : String :=
  String.ofList ((d.key.flatMap DeviceId.hexByte).take 6)

/-! ## Records -/

/-- `MAX_LABEL_BYTES`. -/
def maxLabelBytes : Nat := 63

/-- `str::len`. -/
def utf8Len (text : List Char) : Nat := (text.map Char.utf8Size).sum

/-- `str::is_char_boundary`. -/
def isCharBoundary : List Char → Nat → Bool
  | _, 0 => true
  | [], _ + 1 => false
  | c :: text, n + 1 => c.utf8Size ≤ n + 1 && isCharBoundary text (n + 1 - c.utf8Size)

/-- `&s[..end]`, for an end that is a boundary. -/
def sliceTo : List Char → Nat → List Char
  | _, 0 => []
  | [], _ + 1 => []
  | c :: text, n + 1 => c :: sliceTo text (n + 1 - c.utf8Size)

/-- The loop of `truncate_on_char_boundary`. -/
def boundaryBelow (text : List Char) : Nat → Nat
  | 0 => 0
  | n + 1 => if isCharBoundary text (n + 1) then n + 1 else boundaryBelow text n

/-- `truncate_on_char_boundary`. -/
def truncateOnCharBoundary (text : List Char) (maxBytes : Nat) : List Char :=
  if utf8Len text ≤ maxBytes then text else sliceTo text (boundaryBelow text maxBytes)

inductive RecordError where
  | missing (field : String)
  | malformed (field : String)
  | protocolMismatch (theirs ours : UInt16)
deriving DecidableEq

structure ServiceRecord where
  protocol : UInt16
  device : DeviceId
  fingerprint : String
  label : String
  platform : String
deriving DecidableEq

namespace ServiceRecord

def new (device : DeviceId) (fingerprint label platform : String) : ServiceRecord where
  protocol := protocolVersion
  device
  fingerprint
  label := String.ofList (truncateOnCharBoundary label.toList maxLabelBytes)
  platform

/-- `instance_name`. -/
def instanceName (r : ServiceRecord) : String := "clipse-" ++ r.device.short

/-- `to_txt`, in the order of the map's keys. -/
def toTxt (r : ServiceRecord) : List (String × String) :=
  [("fp", r.fingerprint),
    ("id", String.ofList r.device.text),
    ("label", r.label),
    ("os", r.platform),
    ("v", toString r.protocol.toNat)]

/-- `get` on the pairs collected into a map: the last one with the key. -/
def collect (properties : List (String × String)) (key : String) : Option String :=
  (properties.reverse.find? fun p => p.1 = key).map (·.2)

/-- The value of a field. -/
def field (txt : String → Option String) (key : String) : Except RecordError String :=
  match txt key with
  | some value => .ok value
  | none => .error (.missing key)

variable [UuidText]

/-- `from_txt`. -/
def fromTxt (txt : String → Option String) : Except RecordError ServiceRecord := do
  let v ← field txt "v"
  match parseU16 v with
  | none => .error (.malformed "v")
  | some protocol =>
    if protocol ≠ protocolVersion then .error (.protocolMismatch protocol protocolVersion)
    else
      let id ← field txt "id"
      match UuidText.parseStr id with
      | none => .error (.malformed "id")
      | some device =>
        let fingerprint ← field txt "fp"
        let label ← field txt "label"
        let platform ← field txt "os"
        return { protocol, device, fingerprint, label, platform }

end ServiceRecord

/-! ## Browsing -/

inductive IpAddr where
  | v4 (octets : Vector UInt8 4)
  | v6 (octets : Vector UInt8 16)
deriving DecidableEq

/-- `SocketAddr::new`. -/
def SocketAddr.new : IpAddr → UInt16 → SocketAddr
  | .v4 octets, port => .v4 octets port
  | .v6 octets, port => .v6 octets port 0 0

/-- `dialable`: no link-local IPv6 address. -/
def dialable : SocketAddr → Bool
  | .v4 _ _ => true
  | .v6 octets _ _ _ => ((octets.get 0).toNat * 256 + (octets.get 1).toNat) &&& 0xffc0 ≠ 0xfe80

/-- `mdns_sd::ResolvedService`. -/
structure ResolvedService where
  fullname : String
  port : UInt16
  addresses : List IpAddr
  txtProperties : List (String × String)

/-- `mdns_sd::ServiceEvent`. -/
inductive ServiceEvent where
  | resolved (info : ResolvedService)
  | removed (fullName : String)
  /-- Everything else. -/
  | other

/-- `DiscoveredPeer`. -/
structure DiscoveredPeer where
  device : DeviceId
  label : String
  platform : String
  fingerprint : String
  addresses : List SocketAddr
  nonempty : addresses ≠ []

/-- `DiscoveryEvent`, as `Discovery` reports it. -/
inductive Sighting where
  | found (peer : DiscoveredPeer)
  | lost (device : DeviceId)
  | incompatible (instanceName reason : String)

/-- `instance_of`. -/
def instanceOf (fullName : String) : String := String.ofList (fullName.toList.takeWhile (· ≠ '.'))

/-- `Discovery`, without the daemon that browses. -/
structure Discovery where
  instanceName : String
  known : String → Option DeviceId
  selfDevice : DeviceId

namespace Discovery

def start (record : ServiceRecord) : Discovery where
  instanceName := record.instanceName
  known := fun _ => none
  selfDevice := record.device

variable [UuidText]

/-- What `on_resolved` reports. -/
def seen (s : Discovery) (info : ResolvedService) : Option Sighting :=
  if instanceOf info.fullname = s.instanceName then none
  else
    match ServiceRecord.fromTxt (ServiceRecord.collect info.txtProperties) with
    | .error (.protocolMismatch theirs ours) =>
      some (.incompatible info.fullname ("speaks protocol " ++ toString theirs.toNat ++
        ", this device speaks " ++ toString ours.toNat))
    | .error _ => none
    | .ok record =>
      if record.device = s.selfDevice then none
      else
        let addresses := (info.addresses.map (SocketAddr.new · info.port)).filter dialable
        if nonempty : addresses = [] then none
        else some (.found { record with addresses, nonempty })

/-- `on_resolved`: a device that is found is remembered. -/
def onResolved (s : Discovery) (info : ResolvedService) : Option Sighting × Discovery :=
  match s.seen info with
  | some (.found peer) =>
    (some (.found peer),
      { s with known := Function.update s.known (instanceOf info.fullname) (some peer.device) })
  | sighting => (sighting, s)

/-- One event of a sweep. -/
def receive (s : Discovery) : ServiceEvent → Option Sighting × Discovery
  | .resolved info => s.onResolved info
  | .removed fullName =>
    match s.known (instanceOf fullName) with
    | some device =>
      (some (.lost device), { s with known := Function.update s.known (instanceOf fullName) none })
    | none => (none, s)
  | .other => (none, s)

/-- `sweep`, for the events that arrive within its budget. -/
def sweep (s : Discovery) : List ServiceEvent → List Sighting × Discovery
  | [] => ([], s)
  | event :: events =>
    ((s.receive event).1.toList ++ ((s.receive event).2.sweep events).1,
      ((s.receive event).2.sweep events).2)

/-- The sweeps of a run. -/
def sweeps (s : Discovery) (runs : List (List ServiceEvent)) : Discovery :=
  runs.foldl (fun s events => (s.sweep events).2) s

end Discovery
end Clipse
