import LinkFabric.Link.Kind
import LinkFabric.Value

/-!
# Reducing a window of values

The values of a window become one. Only values with the shape of the first count.
Numbers are computed with in double precision, from the first value to the last, and
the result has the element type of the values. Where there is nothing to compute with
(arrays, booleans, no computing asked for, or no numbers in the values) the last value
stands.
-/

namespace LinkFabric.Reduction

/-- The sum of numbers from left to right, from negative zero. -/
def sum (xs : List Binary64) : Binary64 := xs.foldl Binary64.add Binary64.negZero

/-- The number that an aggregation makes of numbers; none for the latest value. -/
def combine? (aggregation : Aggregation) (xs : List Binary64) : Option Binary64 :=
  match aggregation with
  | .any => none
  | .min => some (xs.foldl Binary64.least Binary64.infinity)
  | .max => some (xs.foldl Binary64.greatest Binary64.negInfinity)
  | .sum => some (sum xs)
  | .avg => some ((sum xs).div (Binary64.ofInt xs.length))

/-- Whether values of a shape can be computed with. -/
def isSingleNumber (s : Shape) : Bool := s.count == 1 && s.type.isNumeric

/-- One value for a window of values, none for an empty window. -/
def reduce (aggregation : Aggregation) (samples : List Value) : Option Value :=
  match samples with
  | [] => none
  | first :: rest =>
    let alike := first :: rest.filter fun v => v.shape == first.shape
    let last := alike.getLast (List.cons_ne_nil _ _)
    if aggregation = .any || !isSingleNumber first.shape then some last
    else
      let xs := alike.filterMap (·.number?)
      if xs.isEmpty then some last
      else
        match combine? aggregation xs with
        | some x => some (Value.ofNumber first.shape.type x)
        | none => some last

end LinkFabric.Reduction
