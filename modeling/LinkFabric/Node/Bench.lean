import LinkFabric.Node.Basic

/-!
# A node on a bench

To watch a node at work it is put on a bench with a clock that moves only on request,
in steps of a millisecond, and with peers that send it datagrams and see what it sends.
The segment between them either carries everything or nothing at all.
-/

namespace LinkFabric

/-- The state of the segment between a node and its peers: datagrams arrive at once, or nothing
can be sent. -/
inductive Segment where
  | up | down
  deriving DecidableEq, Repr

/-- What a peer sees: a message about links, or a device that leaves the election. -/
inductive Sighting where
  | message (m : Message)
  | drop (priority : UInt16) (device : DeviceId)
  deriving DecidableEq

/-- A node on a bench, with the milliseconds since it started and what has reached its peers. -/
structure Bench where
  node : Node
  clock : Nat
  peers : List Address
  segment : Segment
  arrived : List Outgoing

namespace Bench

/-- The time on the bench. -/
def now (b : Bench) : Instant := Span.ofMs b.clock

/-- Takes what the node sent to its peers, if the segment carries it. -/
def carry (b : Bench) : Bench :=
  let sent := match b.segment with
    | .up => b.node.outbox.filter fun o => b.peers.contains o.address
    | .down => []
  { b with node := { b.node with outbox := [] }, arrived := b.arrived ++ sent }

/-- Lets the node do something. -/
def act (b : Bench) (f : Node → Instant → Node) : Bench :=
  { b with node := f b.node b.now }.carry

/-- Words that make every pause one of middle length. -/
def middleWords (_ : Nat) : UInt16 := 0x8000

/-- Puts a node on a bench. It is known by the loopback address and sends its beacons to the
first peer. -/
def start (settings : Settings) (store : KeyStore) (peers : List Address) (segment : Segment)
    (words : Nat → UInt16) : Bench :=
  let settings :=
    { settings with
      bindAddress := Address.loopback
      broadcastAddress := peers.headD Address.loopback }
  let bench : Bench := ⟨.start settings store words, 0, peers, segment, []⟩
  bench.act Node.run

/-- Moves the clock by a number of milliseconds. -/
def advance (b : Bench) : Nat → Bench
  | 0 => b
  | ms + 1 => ({ b with clock := b.clock + 1 }.act Node.run).advance ms

/-- Lets a peer send a datagram to the node. There is no way on a segment that is down. -/
def send? (b : Bench) (source : Address) (port : Port) (bytes : Bytes) : Option Bench :=
  match b.segment with
  | .up => some (b.act fun n now => n.receive now port source bytes)
  | .down => none

/-- Begins to collect anew what reaches the peers. -/
def forgetArrived (b : Bench) : Bench := { b with arrived := [] }

/-- What a peer makes of a datagram. Ordinary beacons are not told. -/
def sighting? (b : Bench) (o : Outgoing) : Option Sighting :=
  let device := b.node.settings.election.device
  match o.port with
  | .election =>
    match Beacon.decode o.bytes with
    | .ok beacon => if beacon.isDrop then some (.drop beacon.priority beacon.device) else none
    | .error _ => none
  | .link | .manager =>
    match Message.decode ⟨device + 1, b.node.settings.realm⟩ o.bytes with
    | .ok (_, m) => some (.message m)
    | .error _ => none

/-- What reached the peers, with the peer and the port. -/
def sightings (b : Bench) : List (Address × Port × Sighting) :=
  b.arrived.filterMap fun o => (b.sighting? o).map fun s => (o.address, o.port, s)

end Bench

end LinkFabric
