/-!
# Modes and aggregations

A link says in which direction values move (`Mode`) and how several values for one
destination become one (`Aggregation`). Both have a code on the wire and a name in
settings.
-/

namespace LinkFabric

/-- A key under which a node keeps a value. -/
abbrev Key := UInt32

/-- A mark of a node that queries select by. Zero is no tag. -/
abbrev Tag := UInt32

/-- The direction in which a link moves values: the declaring node offers its source key, asks
for values at its destination key, or keeps one key in step with others. -/
inductive Mode where
  | send | recv | sync
  deriving DecidableEq, Repr

namespace Mode

/-- The modes in the order of their codes. -/
def all : List Mode := [send, recv, sync]

/-- The code of a mode on the wire. -/
def code : Mode → UInt8
  | send => 0 | recv => 1 | sync => 2

/-- The mode with the given code. -/
def ofCode? (n : UInt8) : Option Mode := all.find? fun m => m.code == n

/-- The name of a mode in settings. -/
def name : Mode → String
  | send => "send" | recv => "recv" | sync => "sync"

/-- The mode with the given name. -/
def ofName? (s : String) : Option Mode := all.find? fun m => m.name == s

@[simp] theorem ofCode?_code (m : Mode) : ofCode? m.code = some m := by
  cases m <;> rfl

theorem ofCode?_eq_some_iff {n : UInt8} {m : Mode} : ofCode? n = some m ↔ n = m.code := by
  constructor
  · intro h
    have hcode := List.find?_some h
    exact (eq_of_beq hcode).symm
  · rintro rfl
    exact ofCode?_code m

end Mode

/-- How the values of a window become one value: the latest, the smallest, the largest, the sum
or the mean. -/
inductive Aggregation where
  | any | min | max | sum | avg
  deriving DecidableEq, Repr

namespace Aggregation

/-- The aggregations in the order of their codes. -/
def all : List Aggregation := [any, min, max, sum, avg]

/-- The code of an aggregation on the wire. -/
def code : Aggregation → UInt8
  | any => 0 | min => 1 | max => 2 | sum => 3 | avg => 4

/-- The aggregation with the given code. -/
def ofCode? (n : UInt8) : Option Aggregation := all.find? fun a => a.code == n

/-- Whether an aggregation computes with numbers. -/
def isNumeric : Aggregation → Bool
  | any => false
  | _ => true

/-- The name of an aggregation in settings. -/
def name : Aggregation → String
  | any => "any" | min => "min" | max => "max" | sum => "sum" | avg => "avg"

/-- The aggregation with the given name. -/
def ofName? (s : String) : Option Aggregation := all.find? fun a => a.name == s

/-- The name of an aggregation in messages. -/
def label : Aggregation → String
  | any => "Any" | min => "Min" | max => "Max" | sum => "Sum" | avg => "Avg"

@[simp] theorem ofCode?_code (a : Aggregation) : ofCode? a.code = some a := by
  cases a <;> rfl

theorem ofCode?_eq_some_iff {n : UInt8} {a : Aggregation} :
    ofCode? n = some a ↔ n = a.code := by
  constructor
  · intro h
    have hcode := List.find?_some h
    exact (eq_of_beq hcode).symm
  · rintro rfl
    exact ofCode?_code a

end Aggregation

end LinkFabric
