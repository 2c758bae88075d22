import LinkFabric.Link.Kind
import LinkFabric.Scalar
import LinkFabric.Text.Hex

/-!
# What can be wrong with a link or a value

Each cause is a constructor with the facts that its message tells.
-/

namespace LinkFabric

/-- The most tags a query or a heartbeat may name. -/
def maxQueryTags : Nat := 8

/-- Why a link, a query, a key or a value is refused. -/
inductive LinkError where
  | tooManyTags (count : Nat)
  | syncKeyMismatch (source dest : Key)
  | arrayAggregation (aggregation : Aggregation)
  | nonNumericAggregation (aggregation : Aggregation) (type : ScalarType)
  | unknownMode (code : UInt8)
  | unknownAggregation (code : UInt8)
  | unknownValueType (code : UInt8)
  | unknownKey (key : Key)
  | typeMismatch (key : Key) (expected actual : Shape)
  | valueLength (expected actual : Nat)
  deriving DecidableEq, Repr

/-- A shape as messages show it. -/
def Shape.label (s : Shape) : String :=
  "KeyMeta \x7b ty: " ++ s.type.label ++ ", count: " ++ toString s.count.toNat ++ " \x7d"

/-- The wording of an error. -/
def LinkError.message : LinkError → String
  | tooManyTags count =>
    "query has " ++ toString count ++ " distinct tags, at most " ++ toString maxQueryTags ++
      " allowed"
  | syncKeyMismatch source dest =>
    "sync link requires source_key == dest_key (got " ++ Hex.word32 source ++ " -> " ++
      Hex.word32 dest ++ ")"
  | arrayAggregation aggregation =>
    "aggregation " ++ aggregation.label ++ " is not permitted on an array endpoint"
  | nonNumericAggregation aggregation type =>
    "aggregation " ++ aggregation.label ++ " is not permitted on a " ++ type.label ++ " endpoint"
  | unknownMode code => "unknown link mode " ++ toString code.toNat
  | unknownAggregation code => "unknown aggregation " ++ toString code.toNat
  | unknownValueType code => "unknown value type " ++ toString code.toNat
  | unknownKey key => "unknown key " ++ Hex.word32 key
  | typeMismatch key expected actual =>
    "key " ++ Hex.word32 key ++ " holds " ++ expected.label ++ ", got " ++ actual.label
  | valueLength expected actual =>
    "value payload is " ++ toString actual ++ " bytes, expected " ++ toString expected

end LinkFabric
