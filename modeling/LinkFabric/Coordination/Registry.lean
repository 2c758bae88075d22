import LinkFabric.Coordination.Error
import LinkFabric.SortedMap

/-!
# The links of the fleet

The leader keeps one entry for each link that nodes advertise, in the order of the
links' names. An entry lists the nodes that advertised it, each with the number of
cycles it has left before it is forgotten. A node that goes on advertising stays.
-/

namespace LinkFabric

/-- A node that advertised a link, and the cycles left to it. -/
structure Contributor where
  address : Address
  ttl : Nat
  deriving DecidableEq

/-- A link of the fleet and the nodes that advertised it, in the order in which they came. -/
structure RegistryEntry where
  link : Link
  contributors : List Contributor
  deriving DecidableEq

/-- How many links a registry may hold, and how many nodes for each of them. -/
structure RegistryLimits where
  maxLinks : Nat := 1024
  maxContributors : Nat := 64
  deriving DecidableEq, Repr

/-- What an advertised link changed: the link is new, the node is new to it, or the node starts
anew on its cycles. -/
inductive Admission where
  | created | joined | refreshed
  deriving DecidableEq, Repr

/-- The name of an outcome. -/
def Admission.name : Admission → String
  | created => "created"
  | joined => "joined"
  | refreshed => "refreshed"

/-- The links of the fleet by name. -/
structure Registry where
  limits : RegistryLimits
  entries : SortedMap LinkId RegistryEntry

namespace RegistryEntry

/-- Whether a node advertised the link. -/
def hasContributor (e : RegistryEntry) (address : Address) : Bool :=
  e.contributors.any fun c => c.address == address

theorem hasContributor_iff {e : RegistryEntry} {address : Address} :
    e.hasContributor address = true ↔ ∃ c ∈ e.contributors, c.address = address := by
  simp only [hasContributor, List.any_eq_true, beq_iff_eq]

/-- Gives a node all its cycles again. -/
def refresh (e : RegistryEntry) (address : Address) (ttl : Nat) : RegistryEntry :=
  { e with contributors := e.contributors.map fun c =>
      if c.address = address then { c with ttl } else c }

/-- Takes in a node that is new to the link. -/
def join (e : RegistryEntry) (address : Address) (ttl : Nat) : RegistryEntry :=
  { e with contributors := e.contributors ++ [⟨address, ttl⟩] }

/-- Takes a cycle from every node, and drops the entry when no node is left. -/
def age (e : RegistryEntry) : Option RegistryEntry :=
  let contributors := e.contributors.filterMap fun c =>
    if c.ttl ≤ 1 then none else some { c with ttl := c.ttl - 1 }
  if contributors.isEmpty then none else some { e with contributors }

end RegistryEntry

namespace Registry

/-- The cycles that a node has after it advertised. -/
def fullTtl : Nat := 60

/-- A registry without links. -/
def empty (limits : RegistryLimits) : Registry := ⟨limits, .empty⟩

/-- The number of links. -/
def size (r : Registry) : Nat := r.entries.size

/-- Whether there are no links. -/
def isEmpty (r : Registry) : Bool := r.entries.isEmpty

/-- The entry of a link. -/
def find? (r : Registry) (id : LinkId) : Option RegistryEntry := r.entries.find? id

/-- Whether a link is known. -/
def contains (r : Registry) (id : LinkId) : Bool := r.entries.contains id

/-- Takes in that a node advertised a link. -/
def update (r : Registry) (link : Link) (address : Address) :
    Except AdmissionError (Registry × Admission) :=
  let id := link.id
  match link.checkKeys with
  | .error cause => .error (.invalidLink id address cause)
  | .ok () =>
    match r.entries.find? id with
    | some entry =>
      if entry.hasContributor address then
        .ok ({ r with entries := r.entries.insert id (entry.refresh address fullTtl) }, .refreshed)
      else if r.limits.maxContributors ≤ entry.contributors.length then
        .error (.contributorsFull id address r.limits.maxContributors)
      else
        .ok ({ r with entries := r.entries.insert id (entry.join address fullTtl) }, .joined)
    | none =>
      if r.limits.maxLinks ≤ r.entries.size then .error (.registryFull r.limits.maxLinks)
      else
        .ok ({ r with entries := r.entries.insert id ⟨link, [⟨address, fullTtl⟩]⟩ }, .created)

/-- Takes in an advertised link if it can be, and changes nothing otherwise. -/
def tryUpdate (r : Registry) (link : Link) (address : Address) : Registry :=
  match r.update link address with
  | .ok (r', _) => r'
  | .error _ => r

/-- Ends a cycle. Returns the number of links that no node is left for. -/
def expire (r : Registry) : Registry × Nat :=
  let entries := r.entries.filterMap fun _ e => e.age
  ({ r with entries }, r.entries.size - entries.size)

/-- Forgets all links. -/
def clear (r : Registry) : Registry := { r with entries := .empty }

end Registry

end LinkFabric
