import LinkFabric.Coordination.Reduction
import LinkFabric.Coordination.Registry
import LinkFabric.Coordination.Roster
import LinkFabric.Time

/-!
# Values on their way through the leader

Sources send values to the leader, which keeps the latest of each key for a while. For
every link that receives, as often as its rate allows, the values that came since the
last time become one value for the link's destination.
-/

namespace LinkFabric

/-- A value that a source sent, and when it arrived. -/
structure Sample where
  value : Value
  time : Instant
  deriving DecidableEq

/-- A value ready for the receivers of a link, which the query selects. -/
structure Fanout where
  link : LinkId
  destKey : Key
  query : TagQuery
  value : Value
  deriving DecidableEq

/-- Those of some followers that receive. -/
def Fanout.targets (f : Fanout) (followers : List Follower) : List Address :=
  (followers.filter fun x => f.query.selects x.tags).map (·.address)

/-- The values that wait at the leader: the samples of each key, earliest first, and when each
link last gave a value. -/
structure Aggregator where
  samples : SortedMap Key (List Sample)
  lastFanout : SortedMap LinkId Instant

namespace Aggregator

/-- The most samples kept for a key. -/
def maxSamples : Nat := 256

/-- How old a sample may be. -/
def horizon : Span := Span.ofMs rateMax

/-- An aggregator without samples. -/
def empty : Aggregator := ⟨.empty, .empty⟩

/-- The samples kept for a key. -/
def buffer (a : Aggregator) (key : Key) : List Sample := (a.samples.find? key).getD []

/-- The number of samples kept for a key. -/
def pending (a : Aggregator) (key : Key) : Nat := (a.buffer key).length

/-- Takes in a value; the earliest makes room if there are too many. -/
def ingest (a : Aggregator) (key : Key) (value : Value) (now : Instant) : Aggregator :=
  let held := a.buffer key
  let kept := if maxSamples ≤ held.length then held.drop 1 else held
  { a with samples := a.samples.insert key (kept ++ [⟨value, now⟩]) }

/-- The samples that came after the last fanout, or all if there was none. -/
def window (samples : List Sample) (last : Option Instant) : List Sample :=
  match last with
  | none => samples
  | some t => samples.filter fun s => decide (t < s.time)

/-- Whether a link may give a value again. -/
def isDue (link : Link) (last : Option Instant) (now : Instant) : Bool :=
  match last with
  | none => true
  | some t => decide (Span.ofMs link.rate.ms.toNat ≤ now.since t)

/-- The value that a link gives now, if it does. -/
def fanoutOf (a : Aggregator) (now : Instant) (id : LinkId) (link : Link) : Option Fanout :=
  let last := a.lastFanout.find? id
  if link.mode = .send ∨ !isDue link last now then none
  else
    let values := (window (a.buffer link.sourceKey) last).map (·.value)
    (Reduction.reduce link.aggregation values).map fun value =>
      ⟨id, link.destKey, link.query, value⟩

/-- Drops old samples, and the times of links that are gone. -/
def prune (a : Aggregator) (registry : Registry) (now : Instant) : Aggregator :=
  { samples := a.samples.filterMap fun _ held =>
      let kept := held.filter fun s => decide (now.since s.time ≤ horizon)
      if kept.isEmpty then none else some kept
    lastFanout := a.lastFanout.filter fun id _ => registry.contains id }

/-- The values that links give now, in the order of the links' names. -/
def fanout (a : Aggregator) (registry : Registry) (now : Instant) : Aggregator × List Fanout :=
  let due := registry.entries.entries.filterMap fun p => a.fanoutOf now p.1 p.2.link
  let lastFanout := due.foldl (fun m f => m.insert f.link now) a.lastFanout
  ({ a with lastFanout }.prune registry now, due)

end Aggregator

end LinkFabric
