import RecordFilter.Literal

/-!
# Conditions

A condition names a field by a path, an operator, and the literal to compare with.  The literal may be
left out while a condition is being written; such a condition does not compile.
-/

namespace RecordFilter

/-- The comparisons that a condition can ask for. -/
inductive Operator
  | equal
  | notEqual
  | greaterThan
  | lessThan
  | contains
deriving DecidableEq

namespace Operator

/-- Every operator, in the order in which they are listed to the user. -/
def all : List Operator := [.equal, .notEqual, .greaterThan, .lessThan, .contains]

/-- The name of an operator. -/
def name : Operator → String
  | .equal => "Equal"
  | .notEqual => "NotEqual"
  | .greaterThan => "GreaterThan"
  | .lessThan => "LessThan"
  | .contains => "Contains"

/-- The operator of a given name. -/
def ofName? (name : String) : Option Operator :=
  all.find? fun op => op.name = name

/-- The place of an operator in the list of all. -/
def index : Operator → Nat
  | .equal => 0
  | .notEqual => 1
  | .greaterThan => 2
  | .lessThan => 3
  | .contains => 4

theorem ofName?_name (op : Operator) : ofName? op.name = some op := by
  cases op <;> decide

end Operator

/-- One test of a rule set. -/
structure Condition where
  /-- The path of the field, its segments separated by dots. -/
  field : String
  operator : Operator
  /-- The literal to compare with. -/
  value : Option Literal
deriving DecidableEq

namespace Condition

/-- How a condition is shown. -/
def display (c : Condition) : String :=
  "(" ++ c.field ++ " " ++ c.operator.name ++ " " ++
    (match c.value with
      | some literal => literal.display
      | none => "null") ++ ")"

/-- Whether two conditions agree, literals being compared as values. -/
def equal (a b : Condition) : Bool :=
  a.field == b.field && a.operator == b.operator &&
    match a.value, b.value with
    | none, none => true
    | some x, some y => x.equal y
    | _, _ => false

end Condition

end RecordFilter
