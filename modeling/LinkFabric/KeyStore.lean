import LinkFabric.SortedMap
import LinkFabric.Value

/-!
# The values of a node

A node keeps one value per key. Once a key has a value, only values of the same shape
may be written to it; defining a key anew may change its shape.
-/

namespace LinkFabric

/-- The values of a node by key. -/
structure KeyStore where
  values : SortedMap Key Value

namespace KeyStore

/-- A store without keys. -/
def empty : KeyStore := ⟨.empty⟩

/-- The number of keys. -/
def size (s : KeyStore) : Nat := s.values.size

/-- Whether there are no keys. -/
def isEmpty (s : KeyStore) : Bool := s.values.isEmpty

/-- Creates a key, or replaces its value whatever the shape. -/
def define (s : KeyStore) (key : Key) (value : Value) : KeyStore :=
  ⟨s.values.insert key value⟩

/-- Writes a value. A key that exists keeps its shape; a new key takes the value's. -/
def set (s : KeyStore) (key : Key) (value : Value) : Except LinkError KeyStore :=
  match s.values.find? key with
  | some held =>
    if held.shape = value.shape then .ok (s.define key value)
    else .error (.typeMismatch key held.shape value.shape)
  | none => .ok (s.define key value)

/-- Reads the value of a key. -/
def get (s : KeyStore) (key : Key) : Except LinkError Value :=
  match s.values.find? key with
  | some value => .ok value
  | none => .error (.unknownKey key)

/-- The shape of the value of a key. -/
def shapeOf (s : KeyStore) (key : Key) : Except LinkError Shape :=
  (s.get key).map (·.shape)

/-- Writes a value if the key takes it, and changes nothing otherwise. -/
def trySet (s : KeyStore) (key : Key) (value : Value) : KeyStore :=
  match s.set key value with
  | .ok s' => s'
  | .error _ => s

end KeyStore

end LinkFabric
