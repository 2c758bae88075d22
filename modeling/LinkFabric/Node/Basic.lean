import LinkFabric.Coordination.Coordinator
import LinkFabric.Declarations
import LinkFabric.Node.Binder
import LinkFabric.Node.Error
import LinkFabric.Settings.Basic

/-!
# A whole node

A node takes part in the election, advertises its links to the leader, does what its
bindings say, and does the leader's work while it leads. Messages to the leader go over
the network, unless the node leads itself: then they are handed over directly, as are
the leader's messages to its own node.

A node is driven from outside: it is told what arrived and what time it is. What it
sends lies in its outbox until the network takes it.

The part that advertises and the part that coordinates each need timers. A part whose
timer has no period stops at the start: it does nothing, what is handed to it is lost,
and requests to it are refused. The rest of the node goes on.
-/

namespace LinkFabric

/-- The ports of a node: for beacons, for messages of the leader, and for messages to the
leader. -/
inductive Port where
  | election | link | manager
  deriving DecidableEq, Repr

namespace Port

/-- The name of a port. -/
def name : Port → String
  | election => "election"
  | link => "link"
  | manager => "manager"

/-- The port with the given name. -/
def ofName? (s : String) : Option Port := [election, link, manager].find? fun p => p.name == s

end Port

/-- A datagram on its way to a port of a node. -/
structure Outgoing where
  address : Address
  port : Port
  bytes : Bytes
  deriving DecidableEq

/-- How far a node is in the election. It starts by taking itself out of the election a number
of times, the next time at an instant. Then its agent is at work, has sent a number of beacons
in a row and sends the next at an instant. -/
inductive Candidacy where
  | starting (left : Nat) (next : Instant)
  | running (agent : Agent) (rounds : Nat) (next : Instant)

/-- A node. Beacons that arrive before the agent is at work wait in the backlog. The pauses
between beacons take random words by number, of which `drawn` have been used. The outbox holds
what the network has not taken yet. -/
structure Node where
  settings : Settings
  candidacy : Candidacy
  role : Role
  declarations : Declarations
  binder : Binder
  coordinator : Coordinator
  backlog : List (Address × Bytes)
  words : Nat → UInt16
  drawn : Nat
  outbox : List Outgoing

namespace Node

/-- The most messages that a leader hands over to its own node at once. -/
def handoverCapacity : Nat := 256

/-- The time between two ticks of the election agent. -/
def electionTick : Span := Span.ofMs 50

/-- The time between two ticks for sources and for values on their way. -/
def valueTick : Span := Span.ofMs rateMin

/-- A new node with the values of a store. Links from the settings are declared if they can
be. -/
def start (settings : Settings) (store : KeyStore) (words : Nat → UInt16) : Node :=
  let declare (d : Declarations) (spec : LinkSpec) : Declarations :=
    match spec.toLink with
    | .ok link => d.tryDeclare store link
    | .error _ => d
  { settings
    candidacy := .starting settings.election.startupBeacons 0
    role := .candidate
    declarations := settings.links.foldl declare .empty
    binder := ⟨.empty settings.bindingStale, store⟩
    coordinator := .empty settings.limits settings.maxFollowers settings.bindChunk
    backlog := []
    words
    drawn := 0
    outbox := [] }

/-- The address of the node. -/
def address (n : Node) : Address := n.settings.bindAddress

/-- Whether the node leads. -/
def isLeading (n : Node) : Bool := n.role == .leader

/-! ## Sending -/

/-- Puts a datagram into the outbox. -/
def post (n : Node) (address : Address) (port : Port) (bytes : Bytes) : Node :=
  { n with outbox := n.outbox ++ [⟨address, port, bytes⟩] }

/-- Sends a message over the network. One that cannot be written is dropped. -/
def postMessage (n : Node) (address : Address) (port : Port) (m : Message) : Node :=
  match m.encode n.settings.station with
  | .ok datagrams => datagrams.foldl (fun n bytes => n.post address port bytes) n
  | .error _ => n

/-- Broadcasts a beacon. -/
def postBeacon (n : Node) (b : Beacon) : Node :=
  n.post n.settings.broadcastAddress .election b.encode

/-- Hands a message to the part that coordinates. -/
def handOver (n : Node) (source : Address) (now : Instant) (m : Message) : Node :=
  if n.settings.coordinates then { n with coordinator := n.coordinator.ingest source now m } else n

/-- Sends a message to the leader. Says whether there is one. -/
def uplink (n : Node) (now : Instant) (m : Message) : Node × Bool :=
  match n.role with
  | .leader => (n.handOver n.address now m, true)
  | .follower _ leader => (n.postMessage leader .manager m, true)
  | .candidate => (n, false)

/-- Sends the messages of the leader, to its own node directly. -/
def downlink (n : Node) (now : Instant) (deliveries : List Delivery) : Node :=
  let own := (deliveries.filter fun d => d.address == n.address).take handoverCapacity
  let others := deliveries.filter fun d => d.address != n.address
  let n := { n with binder := own.foldl (fun b d => b.apply now d.message) n.binder }
  others.foldl (fun n d => n.postMessage d.address .link d.message) n

/-! ## Telling the leader -/

/-- Advertises the declared links, if there are any. -/
def advertise (n : Node) (now : Instant) : Node :=
  if !n.settings.advertises || n.declarations.isEmpty then n
  else
    let (n, sent) := n.uplink now (.advert n.declarations.links)
    if sent then { n with declarations := n.declarations.markAdvertised now } else n

/-- Sends a heartbeat. -/
def sendHeartbeat (n : Node) (now : Instant) : Node :=
  if n.settings.advertises then (n.uplink now (.heartbeat n.settings.heartbeat)).1 else n

/-- Takes on a role. A node that finds a new leader introduces itself at once, and one that
does not lead forgets what it knew as a leader. -/
def takeRole (n : Node) (now : Instant) (role : Role) : Node :=
  if n.role = role then n
  else
    let n := { n with role, coordinator := n.coordinator.roleChanged role }
    if role = .candidate then n else (n.sendHeartbeat now).advertise now

/-! ## The election -/

/-- Takes the next random word. -/
def draw (n : Node) : UInt16 × Node := (n.words n.drawn, { n with drawn := n.drawn + 1 })

/-- Hands a datagram to an agent. -/
def hearBeacon (n : Node) (now : Instant) (source : Address) (bytes : Bytes) : Node :=
  match n.candidacy with
  | .starting _ _ => { n with backlog := n.backlog ++ [(source, bytes)] }
  | .running agent rounds next =>
    match Beacon.decode bytes with
    | .error _ => n
    | .ok b =>
      let (agent, reply) := agent.receive source b now
      let n := { n with candidacy := .running agent rounds next }
      let n := match reply with
        | some r => n.postBeacon r
        | none => n
      n.takeRole now agent.role

/-- Sends the beacons of the start that are due, and then sets the agent to work. -/
def begin (n : Node) (now : Instant) : (left : Nat) → (next : Instant) → Node
  | left, next =>
    if now < next then { n with candidacy := .starting left next }
    else
      match left with
      | 0 =>
        let ready :=
          { n with candidacy := .running (.start n.settings.election now) 0 now, backlog := [] }
        n.backlog.foldl (fun m p => m.hearBeacon now p.1 p.2) ready
      | left + 1 =>
        let c := n.settings.election
        let (w, n) := n.draw
        let n := n.postBeacon
          (Beacon.new c.device c.priority (UInt64.ofNat (Span.toMs now)) true)
        begin n now left (now + ElectionConfig.startupPause w)

/-- Sends the beacon that is due, and sets the time of the next. A candidate pauses for a
window after a number of beacons. -/
def sendBeacon (n : Node) (now : Instant) (agent : Agent) (rounds : Nat) : Node :=
  if agent.isLeader then
    { n.postBeacon (agent.beacon false now) with
      candidacy := .running agent 0 (now + agent.config.beaconInterval) }
  else if agent.isCampaigning then
    if rounds < agent.config.rounds then
      let (w, n) := n.draw
      { n.postBeacon (agent.beacon false now) with
        candidacy := .running agent (rounds + 1) (now + ElectionConfig.candidacyPause w) }
    else { n with candidacy := .running agent 0 (now + agent.config.window) }
  else { n with candidacy := .running agent 0 (now + agent.config.beaconInterval) }

/-- Whether something that repeats from `first` on is due. -/
def isDue (period : Span) (first now : Instant) : Bool :=
  decide (0 < period ∧ first ≤ now ∧ (now - first) % period = 0)

/-- What the election asks for at an instant. -/
def runElection (n : Node) (now : Instant) : Node :=
  let n := match n.candidacy with
    | .starting left next => n.begin now left next
    | .running _ _ _ => n
  match n.candidacy with
  | .starting _ _ => n
  | .running agent rounds next =>
    let agent := if isDue electionTick agent.started now then agent.tick now else agent
    let n := { n with candidacy := .running agent rounds next }
    let n := n.takeRole now agent.role
    if next ≤ now then n.sendBeacon now agent rounds else n

/-! ## Events -/

/-- Takes in a datagram. Only so many bytes of it are received. -/
def receive (n : Node) (now : Instant) (port : Port) (source : Address) (bytes : Bytes) : Node :=
  let bytes := bytes.take Datagram.receiveLength
  match port with
  | .election => n.hearBeacon now source bytes
  | .link =>
    { n with binder := n.binder.receive n.settings.station n.role source bytes now }
  | .manager =>
    if n.isLeading then
      match Message.decode n.settings.station bytes with
      | .ok (_, m) => n.handOver source now m
      | .error _ => n
    else n

/-- Drops stale bindings and sends the values that are due. -/
def runBinder (n : Node) (now : Instant) : Node :=
  let (binder, records) := n.binder.tick now
  let n := { n with binder }
  if records.isEmpty then n else (n.uplink now (.data records)).1

/-- A coordination cycle, if the node leads. -/
def runCoordination (n : Node) (now : Instant) : Node :=
  if n.isLeading && n.settings.coordinates then
    let (coordinator, deliveries) := n.coordinator.coordinate
    { n with coordinator }.downlink now deliveries
  else n

/-- Sends on the values that are due, if the node leads. -/
def runFanout (n : Node) (now : Instant) : Node :=
  if n.isLeading && n.settings.coordinates then
    let (coordinator, deliveries) := n.coordinator.fanout now
    { n with coordinator }.downlink now deliveries
  else n

/-- Does what is due at an instant. Everything that repeats does so from time zero on. -/
def run (n : Node) (now : Instant) : Node :=
  let s := n.settings
  let perform (period : Span) (act : Node → Instant → Node) (n : Node) : Node :=
    if isDue period 0 now then act n now else n
  n.runElection now
    |> perform s.advertInterval advertise
    |> perform s.heartbeatInterval sendHeartbeat
    |> perform s.coordinationInterval runCoordination
    |> perform valueTick runFanout
    |> perform valueTick runBinder

/-! ## Requests -/

/-- Declares a link, which is advertised from the next round on. -/
def declare (n : Node) (link : Link) : Except NodeError (Node × LinkId) :=
  if n.settings.advertises then
    match n.declarations.declare n.binder.store link with
    | .ok (declarations, id) => .ok ({ n with declarations }, id)
    | .error cause => .error (.link cause)
  else .error .stopped

/-- Withdraws a link. Says whether it was declared. -/
def withdraw (n : Node) (id : LinkId) : Except NodeError (Node × Bool) :=
  if n.settings.advertises then
    let (declarations, found) := n.declarations.withdraw id
    .ok ({ n with declarations }, found)
  else .error .stopped

/-- What the node declares. -/
def declared (n : Node) : Except NodeError Declarations :=
  if n.settings.advertises then .ok n.declarations else .error .stopped

/-- What the node knows as a leader. -/
def knowledge (n : Node) : Except NodeError Coordinator :=
  if n.settings.coordinates then .ok n.coordinator else .error .stopped

/-- Puts a value into the node's store. -/
def define (n : Node) (key : Key) (value : Value) : Node :=
  { n with binder := { n.binder with store := n.binder.store.define key value } }

end Node

end LinkFabric
