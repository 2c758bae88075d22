import LinkFabric.Link.Basic
import LinkFabric.Settings.Json

/-!
# Links and keys as they are written in settings

A link or a key is an object with named fields, or an array with the same fields in
order. Fields at the end of the order have defaults. Unknown fields of an object are
skipped; a repeated field, a null or a number out of range is refused.
-/

namespace LinkFabric

/-- A link as it is written in settings, with any interval in milliseconds. -/
structure LinkSpec where
  mode : Mode
  sourceKey : Key
  destKey : Key
  query : List Tag := []
  tag : Tag := 0
  rate : Nat := rateDefault
  aggregation : Aggregation := .any
  deriving DecidableEq, Repr

/-- The link that is meant. -/
def LinkSpec.toLink (s : LinkSpec) : Except LinkError Link :=
  (TagQuery.ofTags s.query).map fun query =>
    { mode := s.mode, sourceKey := s.sourceKey, destKey := s.destKey, query
      tag := s.tag, rate := .clamp s.rate, aggregation := s.aggregation }

/-- A key as it is written in settings, and the shape of its value. -/
structure KeySpec where
  key : Key
  shape : Shape
  deriving DecidableEq, Repr

namespace Json

/-- The values of named fields, in the order of the names. -/
def fields? (names : List String) : Json → Option (List (Option Json))
  | array items =>
    if items.length ≤ names.length then some (names.zipIdx.map fun p => items[p.2]?) else none
  | object fields =>
    if fields.any fun f => f.1.isNone then none
    else
      names.mapM fun name =>
        match fields.filter fun f => f.1 == some name with
        | [] => some none
        | [f] => some (some f.2)
        | _ => none
  | _ => none

/-- A number of at most `bound`. -/
def natural? (bound : Nat) : Json → Option Nat
  | natural n => if n ≤ bound then some n else none
  | _ => none

/-- A 32-bit word. -/
def word32? (j : Json) : Option UInt32 := (j.natural? (UInt32.size - 1)).map UInt32.ofNat

/-- A name out of a fixed set: a string, or an object whose one field has the name and no
content. -/
def named? {α : Type} (ofName? : String → Option α) : Json → Option α
  | string (some name) => ofName? name
  | object [(some name, null)] => ofName? name
  | _ => none

/-- An array of 32-bit words. -/
def words32? : Json → Option (List UInt32)
  | array items => items.mapM word32?
  | _ => none

/-- A field that has to be there. -/
def required? {α : Type} (read : Json → Option α) (field : Option Json) : Option α :=
  field.bind read

/-- A field that may be left out. -/
def optional? {α : Type} (default : α) (read : Json → Option α) : Option Json → Option α
  | none => some default
  | some j => read j

end Json

/-- Reads a link. -/
def LinkSpec.ofJson? (j : Json) : Option LinkSpec := do
  match ← j.fields? ["mode", "source_key", "dest_key", "query", "tag", "rate", "aggregation"] with
  | [mode, sourceKey, destKey, query, tag, rate, aggregation] =>
    return {
      mode := ← Json.required? (Json.named? Mode.ofName?) mode
      sourceKey := ← Json.required? Json.word32? sourceKey
      destKey := ← Json.required? Json.word32? destKey
      query := ← Json.optional? [] Json.words32? query
      tag := ← Json.optional? 0 Json.word32? tag
      rate := ← Json.optional? rateDefault (Json.natural? (UInt32.size - 1)) rate
      aggregation := ← Json.optional? .any (Json.named? Aggregation.ofName?) aggregation }
  | _ => none

/-- Reads a key. -/
def KeySpec.ofJson? (j : Json) : Option KeySpec := do
  match ← j.fields? ["key", "type", "count"] with
  | [key, type, count] =>
    let key ← Json.required? Json.word32? key
    let type ← Json.required? (Json.named? ScalarType.ofName?) type
    let count ← Json.optional? 1 (Json.natural? 255) count
    return ⟨key, ⟨type, UInt8.ofNat count⟩⟩
  | _ => none

/-- Reads a text as an array of things that `read` reads. -/
def Json.list? {α : Type} (read : Json → Option α) (s : String) : Option (List α) := do
  match ← Json.read? s with
  | .array items => items.mapM read
  | _ => none

end LinkFabric
