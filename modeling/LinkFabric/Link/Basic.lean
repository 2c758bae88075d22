import LinkFabric.TagQuery

/-!
# Links

A link is a node's declared wish to move values under keys: offer its own
(`Mode.send`), take in those of others (`Mode.recv`), or both under one key
(`Mode.sync`). The query selects the nodes that receive, and the rate and the
aggregation say how often and what they receive.

A link is checked twice: its keys alone, as anyone can, and against the shape of the
key it touches on the declaring node.
-/

namespace LinkFabric

/-- The shortest interval between two values of a link, in milliseconds. -/
def rateMin : Nat := 20

/-- The longest interval between two values of a link, in milliseconds. -/
def rateMax : Nat := 30000

/-- The interval between two values of a link that names none, in milliseconds. -/
def rateDefault : Nat := 1000

/-- The interval between two values of a link, in milliseconds. -/
structure Rate where
  ms : UInt16
  min_le : rateMin ≤ ms.toNat
  le_max : ms.toNat ≤ rateMax
  deriving DecidableEq

namespace Rate

/-- The allowed rate nearest to a number of milliseconds. -/
def clamp (n : Nat) : Rate :=
  have hlt : max rateMin (min rateMax n) < UInt16.size := by
    simp only [rateMin, rateMax, UInt16.size]
    omega
  ⟨UInt16.ofNat (max rateMin (min rateMax n)),
    by rw [UInt16.toNat_ofNat_of_lt' hlt]; simp only [rateMin, rateMax]; omega,
    by rw [UInt16.toNat_ofNat_of_lt' hlt]; simp only [rateMin, rateMax]; omega⟩

/-- The rate of a link that names none. -/
def default : Rate := clamp rateDefault

theorem clamp_ms (r : Rate) : clamp r.ms.toNat = r := by
  obtain ⟨ms, hmin, hmax⟩ := r
  have hms : max rateMin (min rateMax ms.toNat) = ms.toNat := by omega
  simp only [clamp, hms, UInt16.ofNat_toNat]

end Rate

/-- A declared wish to move values from a key of some nodes to a key of those that the query
selects. The tag is a mark that tells otherwise equal links apart. -/
structure Link where
  mode : Mode
  sourceKey : Key
  destKey : Key
  query : TagQuery
  tag : Tag
  rate : Rate
  aggregation : Aggregation
  deriving DecidableEq

namespace Link

/-- A link for all nodes, at the usual rate, that takes the latest value. -/
def new (mode : Mode) (sourceKey destKey : Key) : Link :=
  ⟨mode, sourceKey, destKey, .empty, 0, .default, .any⟩

/-- The key of the declaring node that the link touches. -/
def localKey (l : Link) : Key :=
  match l.mode with
  | .send => l.sourceKey
  | .recv | .sync => l.destKey

/-- Checks the keys of a link against its mode. -/
def checkKeys (l : Link) : Except LinkError Unit :=
  if l.mode = .sync ∧ l.sourceKey ≠ l.destKey then
    .error (.syncKeyMismatch l.sourceKey l.destKey)
  else .ok ()

/-- Checks a link against the shape of the key it touches: numbers are aggregated only
where there is a single number. -/
def check (l : Link) (endpoint : Shape) : Except LinkError Unit := do
  l.checkKeys
  if !l.aggregation.isNumeric then .ok ()
  else if endpoint.isArray then .error (.arrayAggregation l.aggregation)
  else if !endpoint.type.isNumeric then
    .error (.nonNumericAggregation l.aggregation endpoint.type)
  else .ok ()

end Link

end LinkFabric
