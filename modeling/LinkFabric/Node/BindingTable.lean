import LinkFabric.Datagram.Record
import LinkFabric.SortedMap
import LinkFabric.Time

/-!
# The bindings of a node

A node does what the leader's last assignment says. The first message of an assignment
replaces what was there, further ones extend it. Without any message for a while the
node drops its bindings.

For every key that the node sends, the table holds the time of the next sending.
-/

namespace LinkFabric

/-- The bindings of a node, in the order in which they came, when each of its sources is next
due, and how long the leader may be silent after its last message. -/
structure BindingTable where
  bindings : List Binding
  nextDue : SortedMap Key Instant
  lastBind : Option Instant
  staleAfter : Span

namespace BindingTable

/-- A table without bindings. -/
def empty (staleAfter : Span) : BindingTable := ⟨[], .empty, none, staleAfter⟩

/-- Takes in a binding: one with the same key and role takes its rate, otherwise it comes
last. -/
def merge : List Binding → Binding → List Binding
  | [], b => [b]
  | held :: rest, b =>
    if held.key = b.key ∧ held.role = b.role then { held with rate := b.rate } :: rest
    else held :: merge rest b

/-- The keys that bindings send, in their order. -/
def sourceKeys (bindings : List Binding) : List Key :=
  (bindings.filter fun b => b.role == .source).map (·.key)

/-- The bindings that send. -/
def sources (t : BindingTable) : List Binding := t.bindings.filter fun b => b.role == .source

/-- Gives a key a time, unless it has one. -/
def schedule (now : Instant) (due : SortedMap Key Instant) (key : Key) : SortedMap Key Instant :=
  if due.contains key then due else due.insert key now

/-- Takes in a message of an assignment. Sources that are new are due at once; the others
keep their time. -/
def apply (t : BindingTable) (first : Bool) (received : List Binding) (now : Instant) :
    BindingTable :=
  let bindings := received.foldl merge (if first then [] else t.bindings)
  let keys := sourceKeys bindings
  let kept := t.nextDue.filter fun key _ => keys.contains key
  { t with
    bindings
    nextDue := keys.foldl (schedule now) kept
    lastBind := some now }

/-- Whether the leader has been silent for too long. -/
def isStale (t : BindingTable) (now : Instant) : Bool :=
  match t.lastBind with
  | none => false
  | some last => !t.bindings.isEmpty && decide (t.staleAfter ≤ now.since last)

/-- Drops the bindings of a silent leader. Says whether it did. -/
def expire (t : BindingTable) (now : Instant) : BindingTable × Bool :=
  if t.isStale now then ({ t with bindings := [], nextDue := .empty }, true) else (t, false)

/-- Whether values may be written to a key. -/
def isSink (t : BindingTable) (key : Key) : Bool :=
  t.bindings.any fun b => b.key == key && b.role == .sink

/-- Sends a source that is due, and sets its next time. -/
def send (now : Instant) (state : SortedMap Key Instant × List Key) (b : Binding) :
    SortedMap Key Instant × List Key :=
  match state.1.find? b.key with
  | some time =>
    if time ≤ now then
      (state.1.insert b.key (now + Span.ofMs b.rate.toNat), state.2 ++ [b.key])
    else state
  | none => state

/-- The source keys that are due, in the order of their bindings; each gets its next time. -/
def dueSources (t : BindingTable) (now : Instant) : BindingTable × List Key :=
  let (nextDue, keys) := t.sources.foldl (send now) (t.nextDue, [])
  ({ t with nextDue }, keys)

end BindingTable

end LinkFabric
