import LinkFabric.Coordination.Aggregator
import LinkFabric.Coordination.Assignment
import LinkFabric.Election.Agent

/-!
# The work of a leader

A leader takes in what nodes tell it, assigns bindings in every coordination cycle and
sends values on. All it knows was told to it while it led; when it leads no more, it
forgets.
-/

namespace LinkFabric

/-- A message for the node at an address. -/
structure Delivery where
  address : Address
  message : Message
  deriving DecidableEq

/-- What a leader knows, and how many bindings it wishes for in a datagram. -/
structure Coordinator where
  registry : Registry
  roster : Roster
  aggregator : Aggregator
  chunk : Nat

namespace Coordinator

/-- A leader that knows nothing yet. -/
def empty (limits : RegistryLimits) (maxFollowers chunk : Nat) : Coordinator :=
  ⟨.empty limits, .empty maxFollowers, .empty, chunk⟩

/-- Takes in a message of a node. Bindings are for nodes only. -/
def ingest (c : Coordinator) (source : Address) (now : Instant) : Message → Coordinator
  | .advert links =>
    { c with registry := links.foldl (fun r link => r.tryUpdate link source) c.registry }
  | .heartbeat h => { c with roster := c.roster.tryHeartbeat source h }
  | .data records =>
    { c with aggregator := records.foldl (fun a d => a.ingest d.key d.value now) c.aggregator }
  | .bind _ _ => c

/-- The bind messages of an assignment; the first begins a new one. -/
def deliveries (a : Assignment) : List Delivery :=
  a.chunks.zipIdx.map fun p => ⟨a.address, .bind (p.2 == 0) p.1⟩

/-- A coordination cycle: what is old goes, and every follower gets its bindings. -/
def coordinate (c : Coordinator) : Coordinator × List Delivery :=
  let c := { c with registry := c.registry.expire.1, roster := c.roster.tick.1 }
  (c, (c.registry.assignments c.chunk c.roster.toList).flatMap deliveries)

/-- The values for each follower, in the order of addresses. -/
def group (due : List Fanout) (followers : List Follower) : SortedMap Address (List Datum) :=
  due.foldl
    (fun byTarget f =>
      (f.targets followers).foldl
        (fun byTarget address =>
          byTarget.insert address ((byTarget.find? address).getD [] ++ [⟨f.destKey, f.value⟩]))
        byTarget)
    .empty

/-- Sends on the values that are due. -/
def fanout (c : Coordinator) (now : Instant) : Coordinator × List Delivery :=
  let (aggregator, due) := c.aggregator.fanout c.registry now
  ({ c with aggregator },
    (group due c.roster.toList).entries.map fun p => ⟨p.1, .data p.2⟩)

/-- Forgets everything. -/
def clear (c : Coordinator) : Coordinator :=
  { c with registry := c.registry.clear, roster := c.roster.clear, aggregator := .empty }

/-- Takes notice of the part that the device plays. One that does not lead forgets, if it
knows any link or follower. -/
def roleChanged (c : Coordinator) (role : Role) : Coordinator :=
  if role = .leader then c
  else if c.registry.isEmpty && c.roster.isEmpty then c
  else c.clear

end Coordinator

end LinkFabric
