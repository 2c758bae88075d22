import LinkFabric.Coordination.Error
import LinkFabric.Datagram.Record
import LinkFabric.SortedMap

/-!
# The followers of the leader

A node follows as long as its heartbeats come. Each gives it a number of cycles, and a
node that has none left is evicted. Followers are kept in the order of their addresses.
-/

namespace LinkFabric

/-- A node that the leader knows, with its tags, none of them zero, and its remaining cycles. -/
structure Follower where
  address : Address
  tags : List Tag
  serviceFlags : UInt32
  timeout : Nat
  deriving DecidableEq

/-- The followers by address. -/
structure Roster where
  limit : Nat
  followers : SortedMap Address Follower

namespace Follower

/-- The cycles that a follower has after a heartbeat. -/
def fullTimeout : Nat := 5

/-- A follower as its heartbeat describes it. Of its tags, those other than zero count, as
many as a query can name. -/
def new (address : Address) (tags : List Tag) (serviceFlags : UInt32) : Follower :=
  ⟨address, (tags.filter (· ≠ 0)).take maxQueryTags, serviceFlags, fullTimeout⟩

end Follower

namespace Roster

/-- A roster without followers. -/
def empty (limit : Nat) : Roster := ⟨limit, .empty⟩

/-- The number of followers. -/
def size (r : Roster) : Nat := r.followers.size

/-- Whether there are no followers. -/
def isEmpty (r : Roster) : Bool := r.followers.isEmpty

/-- The followers in the order of their addresses. -/
def toList (r : Roster) : List Follower := r.followers.values

/-- The follower at an address. -/
def find? (r : Roster) (address : Address) : Option Follower := r.followers.find? address

/-- Takes in a heartbeat. Says whether the follower is new. -/
def heartbeat (r : Roster) (address : Address) (h : Heartbeat) :
    Except AdmissionError (Roster × Bool) :=
  let follower := Follower.new address h.tags h.serviceFlags
  let admitted : Roster := { r with followers := r.followers.insert address follower }
  if r.followers.contains address then .ok (admitted, false)
  else if r.limit ≤ r.followers.size then .error (.rosterFull address r.limit)
  else .ok (admitted, true)

/-- Takes in a heartbeat if it can be, and changes nothing otherwise. -/
def tryHeartbeat (r : Roster) (address : Address) (h : Heartbeat) : Roster :=
  match r.heartbeat address h with
  | .ok (r', _) => r'
  | .error _ => r

/-- Ends a cycle. Returns the evicted followers in the order of their addresses. -/
def tick (r : Roster) : Roster × List Address :=
  let kept := r.followers.filterMap fun _ f =>
    if f.timeout ≤ 1 then none else some { f with timeout := f.timeout - 1 }
  let evicted := r.followers.filter fun _ f => decide (f.timeout ≤ 1)
  ({ r with followers := kept }, evicted.keys)

/-- Forgets all followers. -/
def clear (r : Roster) : Roster := { r with followers := .empty }

end Roster

end LinkFabric
