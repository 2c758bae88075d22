import LinkFabric.Address.Text
import LinkFabric.Datagram.Beacon
import LinkFabric.Election.Rank

/-!
# The election agent of a device

An agent hears the beacons of others and decides, at regular ticks, whether its device
is a candidate, a leader or a follower.

* A candidate listens for a window. Then it leads if it may and outranks all it hears,
  and otherwise follows the best of them.
* A leader steps down for a beacon that outranks it, and says so.
* A follower changes over to a better ranked device, and becomes a candidate again when
  its leader gives up or falls silent.

The agent has no clock of its own: every event comes with its time.
-/

namespace LinkFabric

/-- How a device takes part in the election; with priority zero it only ever follows. A
candidate listens for a window before it decides, and pauses for one after `rounds` beacons. A
device that is silent for `leaderTimeout` is forgotten. When it starts, the device takes itself
out of the election with `startupBeacons` beacons. -/
structure ElectionConfig where
  device : DeviceId
  priority : UInt16
  window : Span := Span.ofSeconds 3
  leaderTimeout : Span := Span.ofSeconds 4
  beaconInterval : Span := Span.ofSeconds 1
  rounds : Nat := 8
  startupBeacons : Nat := 3
  deriving DecidableEq, Repr

namespace ElectionConfig

/-- Whether the device may lead. -/
def eligible (c : ElectionConfig) : Bool := 0 < c.priority

/-- The rank of the device. -/
def rank (c : ElectionConfig) : Rank := ⟨c.priority, c.device⟩

/-- The priority from which constrained devices count. -/
def lowPriority : UInt16 := 128

/-- The priority from which capable devices count. -/
def highPriority : UInt16 := 256

/-- The pause after a startup beacon, from a random word: steps of 16 ms. -/
def startupPause (draw : UInt16) : Span := Span.ofMs ((draw >>> 9).toNat * 16)

/-- The pause after a candidate's beacon, from a random word: steps of 1 ms. -/
def candidacyPause (draw : UInt16) : Span := Span.ofMs (draw >>> 5).toNat

end ElectionConfig

/-- The part that a device plays. A follower reaches its leader at an address. -/
inductive Role where
  | candidate
  | follower (leader : DeviceId) (address : Address)
  | leader
  deriving DecidableEq

/-- The text of a role. -/
def Role.text : Role → String
  | candidate => "Candidate"
  | follower device address =>
    "Follower(" ++ Hex.number device.toNat ++ "@" ++ address.text ++ ")"
  | leader => "Leader"

/-- The election agent of a device. Devices heard of are kept by their last beacon, and
`candidateSince` only matters to a candidate. -/
structure Agent where
  config : ElectionConfig
  role : Role
  observed : SortedMap DeviceId Peer
  candidateSince : Instant
  started : Instant

namespace Agent

/-- An agent that starts as a candidate and has heard of nobody. -/
def start (config : ElectionConfig) (now : Instant) : Agent :=
  ⟨config, .candidate, .empty, now, now⟩

/-- Whether the device leads. -/
def isLeader (a : Agent) : Bool := a.role == .leader

/-- Whether the device follows another. -/
def isFollower (a : Agent) : Bool :=
  match a.role with
  | .follower _ _ => true
  | _ => false

/-- Whether the device asks to lead. -/
def isCampaigning (a : Agent) : Bool := a.role == .candidate && a.config.eligible

/-- The number of devices heard of. -/
def peerCount (a : Agent) : Nat := a.observed.size

/-- The agent's beacon. -/
def beacon (a : Agent) (drop : Bool) (now : Instant) : Beacon :=
  Beacon.new a.config.device a.config.priority (UInt64.ofNat (Span.toMs (now.since a.started))) drop

/-- The agent as a candidate from now on. -/
def becomeCandidate (a : Agent) (now : Instant) : Agent :=
  { a with role := .candidate, candidateSince := now }

/-! ## Beacons of others -/

/-- Takes a device out of the election. -/
def forget (a : Agent) (device : DeviceId) (now : Instant) : Agent :=
  let a := { a with observed := a.observed.erase device }
  match a.role with
  | .follower leader _ => if leader = device then a.becomeCandidate now else a
  | _ => a

/-- Takes in that a device is there. -/
def observe (a : Agent) (source : Address) (b : Beacon) (now : Instant) : Agent :=
  { a with observed := a.observed.insert b.device ⟨b.priority, source, now⟩ }

/-- The rank of a followed leader by its last beacon. A leader not heard of ranks as if it
had no priority. -/
def leaderRank (a : Agent) (leader : DeviceId) : Rank :=
  match a.observed.find? leader with
  | some peer => peer.rank leader
  | none => ⟨0, leader⟩

/-- Responds to an observed device that may lead. A leader that steps down returns the
beacon that says so. -/
def respond (a : Agent) (source : Address) (b : Beacon) (now : Instant) : Agent × Option Beacon :=
  let sender : Rank := ⟨b.priority, b.device⟩
  let followed := { a with role := .follower b.device source }
  match a.role with
  | .follower leader _ =>
    if leader = b.device ∨ sender.outranks (a.leaderRank leader) then (followed, none)
    else (a, none)
  | .leader =>
    if sender.outranks a.config.rank then (followed, some (followed.beacon true now))
    else (a, none)
  | .candidate => (a, none)

/-- Takes in a beacon, and returns the beacon to send in answer, if any. -/
def receive (a : Agent) (source : Address) (b : Beacon) (now : Instant) : Agent × Option Beacon :=
  if b.device = a.config.device then (a, none)
  else if b.isDrop then (a.forget b.device now, none)
  else if b.priority = 0 then (a.observe source b now, none)
  else (a.observe source b now).respond source b now

/-! ## Ticks -/

/-- Forgets the devices that have been silent for too long. -/
def age (a : Agent) (now : Instant) : Agent :=
  { a with
    observed := a.observed.filter fun _ p => decide (now.since p.lastSeen < a.config.leaderTimeout) }

/-- Whether the device wins against the best of the others. -/
def wins (a : Agent) (best : Option (DeviceId × Peer)) : Bool :=
  a.config.eligible &&
    match best with
    | none => true
    | some (device, peer) => a.config.rank.outranks (peer.rank device)

/-- Decides the election among the devices listed. -/
def decideAmong (a : Agent) (observed : List (DeviceId × Peer)) : Agent :=
  let best := Election.bestPeer observed
  if a.wins best then { a with role := .leader }
  else
    match best with
    | some (device, peer) => { a with role := .follower device peer.address }
    | none => a

/-- Forgets the silent, and decides the election when it is time to. -/
def tick (a : Agent) (now : Instant) : Agent :=
  let a := a.age now
  match a.role with
  | .follower leader _ => if a.observed.contains leader then a else a.becomeCandidate now
  | .candidate =>
    if a.config.window ≤ now.since a.candidateSince then a.decideAmong a.observed.entries else a
  | .leader => a

end Agent

end LinkFabric
