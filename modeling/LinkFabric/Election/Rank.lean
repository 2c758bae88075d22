import LinkFabric.Address.Basic
import LinkFabric.Datagram.Header
import LinkFabric.Time

/-!
# Rank in the election

Devices are ranked by priority, and devices of one priority by their number, the lower
first. A device of priority zero never leads. What a device knows of another is what
its last beacon said.
-/

namespace LinkFabric

/-- What a device is ranked by: a higher priority comes first and, of one priority, a lower
device. -/
structure Rank where
  priority : UInt16
  device : DeviceId
  deriving DecidableEq, Repr

/-- Whether one rank comes before another. -/
def Rank.outranks (a b : Rank) : Bool :=
  b.priority < a.priority || (a.priority == b.priority && a.device < b.device)

/-- What the last beacon of a device said, where it came from and when. -/
structure Peer where
  priority : UInt16
  address : Address
  lastSeen : Instant
  deriving DecidableEq

/-- The rank of a device by its last beacon. -/
def Peer.rank (device : DeviceId) (peer : Peer) : Rank := ⟨peer.priority, device⟩

namespace Election

/-- The better ranked of two devices, the first if neither outranks the other. -/
def prefer (best next : DeviceId × Peer) : DeviceId × Peer :=
  if (next.2.rank next.1).outranks (best.2.rank best.1) then next else best

/-- The best ranked device that may lead, among those listed. -/
def bestPeer (observed : List (DeviceId × Peer)) : Option (DeviceId × Peer) :=
  match observed.filter fun p => decide (0 < p.2.priority) with
  | [] => none
  | p :: rest => some (rest.foldl prefer p)

end Election

end LinkFabric
