import LinkFabric.Address.Text
import LinkFabric.Coordination.Registry
import LinkFabric.Datagram.Message
import LinkFabric.Election.Agent
import LinkFabric.Settings.Spec
import LinkFabric.Text.Blank

/-!
# The settings of a node

A node is set up by named variables with texts as values. Every variable has a default.
Variables are read in a fixed order, and the first that cannot be read is reported.
-/

namespace LinkFabric

/-- Where beacons, messages of the leader and messages to the leader arrive. -/
structure Ports where
  election : UInt16 := 44701
  link : UInt16 := 44637
  manager : UInt16 := 44638
  deriving DecidableEq, Repr

/-- The settings of a node, which is known by the address that it listens at. Links are declared
and keys are created at the start. -/
structure Settings where
  election : ElectionConfig
  realm : UInt32 := 0
  tags : List Tag := []
  serviceFlags : UInt32 := 0
  bindAddress : Address := Address.ofOctets 0 0 0 0
  broadcastAddress : Address := Address.ofOctets 255 255 255 255
  ports : Ports := {}
  advertInterval : Span := Span.ofMs 2000
  heartbeatInterval : Span := Span.ofMs 1000
  coordinationInterval : Span := Span.ofMs 1000
  bindingStale : Span := Span.ofMs 5000
  limits : RegistryLimits := {}
  maxFollowers : Nat := 256
  bindChunk : Nat := Message.maxBindings
  links : List LinkSpec := []
  keys : List KeySpec := []

/-- Why the value of a variable cannot be read. -/
inductive SettingFault where
  | numeral (fault : NumeralFault)
  | address
  | tags (cause : LinkError)
  | json
  deriving DecidableEq, Repr

/-- The wording of a fault; none for JSON. -/
def SettingFault.message? : SettingFault → Option String
  | numeral fault => some fault.message
  | address => some "invalid IP address syntax"
  | tags cause => some cause.message
  | json => none

/-- A variable that cannot be read, and why. -/
structure SettingError where
  name : String
  fault : SettingFault
  deriving DecidableEq, Repr

/-- The wording of an error; none for JSON. -/
def SettingError.message? (e : SettingError) : Option String :=
  e.fault.message?.map fun reason => "invalid " ++ e.name ++ ": " ++ reason

/-- Variables by name. -/
abbrev Variables := String → Option String

namespace Variables

/-- Reads a variable as it stands, or takes the default. -/
def readRaw {α : Type} (vars : Variables) (name : String) (default : α)
    (read : String → Except SettingFault α) : Except SettingError α :=
  match vars name with
  | none => .ok default
  | some raw => (read raw).mapError fun fault => ⟨name, fault⟩

/-- Reads a variable without the white space around it, or takes the default. -/
def readTrimmed {α : Type} (vars : Variables) (name : String) (default : α)
    (read : List Char → Except SettingFault α) : Except SettingError α :=
  vars.readRaw name default fun raw => read (trimBlank raw.toList)

/-- Reads a decimal number of at most `bound`. -/
def readNat (vars : Variables) (name : String) (default bound : Nat) : Except SettingError Nat :=
  vars.readTrimmed name default fun cs => (Numeral.read 10 bound cs).mapError .numeral

/-- Reads a 16-bit number. -/
def readWord16 (vars : Variables) (name : String) (default : UInt16) : Except SettingError UInt16 :=
  (vars.readNat name default.toNat (UInt16.size - 1)).map UInt16.ofNat

/-- Reads a number of machine size. -/
def readSize (vars : Variables) (name : String) (default : Nat) : Except SettingError Nat :=
  vars.readNat name default (UInt64.size - 1)

/-- Reads a number of milliseconds. -/
def readSpan (vars : Variables) (name : String) (default : Span) : Except SettingError Span :=
  (vars.readNat name default.toMs (UInt64.size - 1)).map Span.ofMs

/-- Reads an address. -/
def readAddress (vars : Variables) (name : String) (default : Address) :
    Except SettingError Address :=
  vars.readTrimmed name default fun cs =>
    match Address.read? cs with
    | some address => .ok address
    | none => .error .address

/-- Reads a list in JSON. -/
def readList {α : Type} (vars : Variables) (name : String) (read : Json → Option α) :
    Except SettingError (List α) :=
  vars.readRaw name [] fun raw =>
    match Json.list? read raw with
    | some items => .ok items
    | none => .error .json

end Variables

namespace Settings

/-- A 64-bit number, decimal or hexadecimal. -/
def number64 (cs : List Char) : Except SettingFault Nat :=
  (Numeral.readPrefixed (UInt64.size - 1) cs).mapError .numeral

/-- A 32-bit number, decimal or hexadecimal. The digits are read as a 64-bit number first,
so a wrong digit is found before the number is too large for 32 bits. -/
def number32 (cs : List Char) : Except SettingFault UInt32 := do
  let n ← number64 cs
  if n < UInt32.size then .ok (UInt32.ofNat n) else .error (.numeral .tooLarge)

/-- The pieces between commas that are not blank. -/
def pieces (cs : List Char) : List (List Char) :=
  ((splitOnChar ',' cs).map trimBlank).filter fun piece => !piece.isEmpty

/-- Tags between commas, in canonical form. -/
def readTags (cs : List Char) : Except SettingFault (List Tag) := do
  let tags ← (pieces cs).mapM number32
  match TagQuery.ofTags tags with
  | .ok query => .ok query.tags
  | .error cause => .error (.tags cause)

/-- The settings of a device with a priority, with defaults for the rest. -/
def new (device : DeviceId) (priority : UInt16) : Settings :=
  { election := { device, priority } }

/-- The settings of a node of the usual priority. -/
def default (device : DeviceId) : Settings := new device ElectionConfig.lowPriority

/-- Reads settings from variables. A node that no variable gives a device is the device
`fallback`. -/
def ofVariables (fallback : DeviceId) (vars : Variables) : Except SettingError Settings := do
  let d := default fallback
  let device ← (vars.readTrimmed "HIVELINK_DEVICE_ID" fallback.toNat number64).map UInt64.ofNat
  let priority ← vars.readWord16 "HIVELINK_PRIORITY" d.election.priority
  let window ← vars.readSpan "HIVELINK_ELECTION_WINDOW_MS" d.election.window
  let leaderTimeout ← vars.readSpan "HIVELINK_LEADER_TIMEOUT_MS" d.election.leaderTimeout
  let beaconInterval ← vars.readSpan "HIVELINK_BEACON_INTERVAL_MS" d.election.beaconInterval
  let startupBeacons ←
    vars.readNat "HIVELINK_STARTUP_BEACONS" d.election.startupBeacons (UInt32.size - 1)
  let tags ← vars.readRaw "HIVELINK_TAGS" d.tags fun raw => readTags raw.toList
  let maxLinks ← vars.readSize "HIVELINK_MAX_LINKS" d.limits.maxLinks
  let maxContributors ← vars.readSize "HIVELINK_MAX_NODES_PER_LINK" d.limits.maxContributors
  let realm ← vars.readNat "HIVELINK_UNIVERSE" d.realm.toNat (UInt32.size - 1)
  let serviceFlags ← vars.readTrimmed "HIVELINK_SERVICE_FLAGS" d.serviceFlags number32
  let bindAddress ← vars.readAddress "HIVELINK_BIND_IP" d.bindAddress
  let broadcastAddress ← vars.readAddress "HIVELINK_BROADCAST_IP" d.broadcastAddress
  let electionPort ← vars.readWord16 "HIVELINK_ELECTION_PORT" d.ports.election
  let linkPort ← vars.readWord16 "HIVELINK_LINK_PORT" d.ports.link
  let managerPort ← vars.readWord16 "HIVELINK_LINK_MANAGER_PORT" d.ports.manager
  let advertInterval ← vars.readSpan "HIVELINK_ADVERT_INTERVAL_MS" d.advertInterval
  let heartbeatInterval ← vars.readSpan "HIVELINK_HEARTBEAT_INTERVAL_MS" d.heartbeatInterval
  let coordinationInterval ←
    vars.readSpan "HIVELINK_COORDINATION_INTERVAL_MS" d.coordinationInterval
  let bindingStale ← vars.readSpan "HIVELINK_BINDING_STALE_MS" d.bindingStale
  let maxFollowers ← vars.readSize "HIVELINK_MAX_FOLLOWERS" d.maxFollowers
  let bindChunk ← vars.readSize "HIVELINK_BIND_CHUNK" d.bindChunk
  let links ← vars.readList "HIVELINK_LINKS" LinkSpec.ofJson?
  let keys ← vars.readList "HIVELINK_KEYS" KeySpec.ofJson?
  return {
    election := { device, priority, window, leaderTimeout, beaconInterval, startupBeacons }
    realm := UInt32.ofNat realm
    tags, serviceFlags, bindAddress, broadcastAddress
    ports := ⟨electionPort, linkPort, managerPort⟩
    advertInterval, heartbeatInterval, coordinationInterval, bindingStale
    limits := ⟨maxLinks, maxContributors⟩
    maxFollowers, bindChunk, links, keys }

/-- The place of the node on the segment. -/
def station (s : Settings) : Station := ⟨s.election.device, s.realm⟩

/-- What the node tells the leader about itself. -/
def heartbeat (s : Settings) : Heartbeat := ⟨s.serviceFlags, s.tags⟩

/-- Whether the node can advertise. A timer without a period stops what it drives. -/
def advertises (s : Settings) : Bool := decide (0 < s.advertInterval ∧ 0 < s.heartbeatInterval)

/-- Whether the node can coordinate others. -/
def coordinates (s : Settings) : Bool := decide (0 < s.coordinationInterval)

end Settings

end LinkFabric
