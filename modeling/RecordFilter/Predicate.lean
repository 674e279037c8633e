import RecordFilter.RuleSet
import RecordFilter.Record
import RecordFilter.Text.Quoted
import RecordFilter.Text.Substring

/-!
# Predicates

A predicate is a compiled rule set: each condition knows the route to the value it tests, a comparison
that the type of the value has, and the operand to compare with.  Testing a record never fails.  A
condition whose value is absent does not hold, whatever its comparison.

`accepts` answers yes or no; `explain` tests every condition and reports each outcome.  The main
statement is `result_explain`: the two agree.

A report says nothing of the time that testing took, which is no matter of the predicate and the
record.
-/

namespace RecordFilter

open Number

/-! ## Comparisons -/

/-- The comparisons of numbers. -/
inductive NumberComparison
  | equal
  | notEqual
  | greaterThan
  | lessThan
deriving DecidableEq

/-- The comparisons of truth values. -/
inductive BoolComparison
  | equal
  | notEqual
deriving DecidableEq

/-- The comparisons of strings. -/
inductive StringComparison
  | equal
  | notEqual
  | contains
deriving DecidableEq

namespace NumberComparison

/-- The comparison that an operator asks for, if numbers have it. -/
def ofOperator? : Operator → Option NumberComparison
  | .equal => some .equal
  | .notEqual => some .notEqual
  | .greaterThan => some .greaterThan
  | .lessThan => some .lessThan
  | .contains => none

/-- Whether two whole numbers compare as asked. -/
def holdsInt : NumberComparison → Int64 → Int64 → Bool
  | .equal, a, b => a == b
  | .notEqual, a, b => a != b
  | .greaterThan, a, b => b < a
  | .lessThan, a, b => a < b

/-- Whether two floats compare as asked. -/
def holdsFloat : NumberComparison → Binary64 → Binary64 → Bool
  | .equal, a, b => a.equal b
  | .notEqual, a, b => !a.equal b
  | .greaterThan, a, b => b.less a
  | .lessThan, a, b => a.less b

end NumberComparison

namespace BoolComparison

/-- The comparison that an operator asks for, if truth values have it. -/
def ofOperator? : Operator → Option BoolComparison
  | .equal => some .equal
  | .notEqual => some .notEqual
  | _ => none

/-- Whether two truth values compare as asked. -/
def holds : BoolComparison → Bool → Bool → Bool
  | .equal, a, b => a == b
  | .notEqual, a, b => a != b

end BoolComparison

namespace StringComparison

/-- The comparison that an operator asks for, if strings have it. -/
def ofOperator? : Operator → Option StringComparison
  | .equal => some .equal
  | .notEqual => some .notEqual
  | .contains => some .contains
  | _ => none

/-- Whether two strings compare as asked. -/
def holds : StringComparison → String → String → Bool
  | .equal, a, b => a == b
  | .notEqual, a, b => a != b
  | .contains, a, b => Text.occursIn b.toList a.toList

end StringComparison

/-! ## Tests -/

/-- A comparison of the value at the end of a route with an operand of its type. -/
inductive Test
  | int (route : List Nat) (comparison : NumberComparison) (operand : Int64)
  | float (route : List Nat) (comparison : NumberComparison) (operand : Binary64)
  | bool (route : List Nat) (comparison : BoolComparison) (operand : Bool)
  | string (route : List Nat) (comparison : StringComparison) (operand : String)
deriving DecidableEq

namespace Test

/-- Whether a record passes a test; no record passes whose value is absent. -/
def passes (record : Record) : Test → Bool
  | .int route comparison operand =>
    (record.read route).int?.any fun n => comparison.holdsInt n operand
  | .float route comparison operand =>
    (record.read route).float?.any fun x => comparison.holdsFloat x operand
  | .bool route comparison operand =>
    (record.read route).bool?.any fun b => comparison.holds b operand
  | .string route comparison operand =>
    (record.read route).string?.any fun s => comparison.holds s operand

/-- The operand as a literal. -/
def operand : Test → Literal
  | .int _ _ n => .int n
  | .float _ _ x => .float x
  | .bool _ _ b => .bool b
  | .string _ _ s => .string s

end Test

/-! ## Compiled conditions -/

/-- A condition after compilation. -/
structure CompiledCondition where
  /-- The path, as it was written. -/
  field : String
  operator : Operator
  test : Test
deriving DecidableEq

/-- How a compiled condition is shown: with the operand that it tests. -/
def CompiledCondition.display (c : CompiledCondition) : String :=
  Condition.display ⟨c.field, c.operator, some c.test.operand⟩

/-! ## Reports -/

/-- How one condition fared. -/
structure Outcome where
  /-- The place of the condition in the rule set. -/
  index : Nat
  field : String
  operator : Operator
  matched : Bool
deriving DecidableEq

/-- How every condition fared, and what came of it. -/
structure Report where
  result : Bool
  outcomes : List Outcome
deriving DecidableEq

namespace Report

/-- The paths of the conditions that held. -/
def matchedFields (report : Report) : List String :=
  (report.outcomes.filter Outcome.matched).map Outcome.field

/-- How a report is shown, but for the time that testing took, which is shown behind the rest. -/
def display (report : Report) : String :=
  "result: " ++ String.ofList (boolText report.result) ++ ", matched: [" ++
    ", ".intercalate report.matchedFields ++ "]"

end Report

/-! ## Predicates -/

/-- Whether a list of truth values satisfies a connector. -/
def Connector.join : Connector → List Bool → Bool
  | .and, bs => bs.all id
  | .or, bs => bs.any id

/-- A compiled rule set. -/
structure Predicate where
  connector : Connector
  conditions : List CompiledCondition
deriving DecidableEq

namespace Predicate

/-- Whether a predicate accepts a record.  Conditions after one that settles the answer are not
tested. -/
def accepts (p : Predicate) (record : Record) : Bool :=
  match p.connector with
  | .and => p.conditions.all fun c => c.test.passes record
  | .or => p.conditions.any fun c => c.test.passes record

/-- The outcome of every condition, numbered from `start`. -/
def outcomes (record : Record) : Nat → List CompiledCondition → List Outcome
  | _, [] => []
  | start, c :: cs => ⟨start, c.field, c.operator, c.test.passes record⟩ :: outcomes record (start + 1) cs

/-- Tests every condition and reports how each fared. -/
def explain (p : Predicate) (record : Record) : Report :=
  let outcomes := outcomes record 0 p.conditions
  ⟨p.connector.join (outcomes.map Outcome.matched), outcomes⟩

/-- The records of a list that a predicate accepts, by their places in the list. -/
def select (p : Predicate) (records : List Record) : List Nat :=
  (records.zipIdx.filter fun (record, _) => p.accepts record).map Prod.snd

/-- The number of conditions. -/
def size (p : Predicate) : Nat :=
  p.conditions.length

/-- Whether there is no condition. -/
def isEmpty (p : Predicate) : Bool :=
  p.conditions.isEmpty

/-- The paths of the conditions, in order. -/
def fields (p : Predicate) : List String :=
  p.conditions.map CompiledCondition.field

/-- How a predicate is shown. -/
def display (p : Predicate) : String :=
  (" " ++ p.connector.keyword ++ " ").intercalate (p.conditions.map CompiledCondition.display)

/-- A description of the predicate over a named record type. -/
def describe (p : Predicate) (record : String) : String :=
  "Predicate \x7b record: " ++ Text.quoted record ++ ", connector: " ++ p.connector.name ++
    ", conditions: " ++ Text.quotedList (p.conditions.map CompiledCondition.display) ++ " \x7d"

theorem map_matched_outcomes (record : Record) (start : Nat) (cs : List CompiledCondition) :
    (outcomes record start cs).map Outcome.matched = cs.map fun c => c.test.passes record := by
  induction cs generalizing start with
  | nil => rfl
  | cons c cs ih => simp [outcomes, ih]

/-- A report's result is the answer of the predicate. -/
theorem result_explain (p : Predicate) (record : Record) :
    (p.explain record).result = p.accepts record := by
  unfold explain accepts
  simp only [map_matched_outcomes]
  cases p.connector with
  | and => exact List.all_map
  | or => exact List.any_map

end Predicate

end RecordFilter
