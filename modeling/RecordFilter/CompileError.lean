import RecordFilter.Condition
import RecordFilter.Schema

/-!
# Why a rule set does not compile

Each constructor is one cause.  `message` is the text shown to the user.
-/

namespace RecordFilter

/-- What is wrong with a rule set as a whole. -/
inductive RuleSetFault
  | noConnector
  | noConditions
deriving DecidableEq

/-- The fault in words. -/
def RuleSetFault.reason : RuleSetFault → String
  | .noConnector => "connector is missing"
  | .noConditions => "a rule set needs at least one condition"

/-- What is missing from a condition. -/
inductive ConditionFault
  | blankField
  | noValue
deriving DecidableEq

/-- The fault in words. -/
def ConditionFault.reason : ConditionFault → String
  | .blankField => "field path is empty"
  | .noValue => "value is null"

/-- What stands where another type was expected. -/
inductive Found
  /-- A literal that the type of the field cannot take. -/
  | literal (value : Literal)
  /-- A field that the operator does not read. -/
  | field (type : ScalarType)
deriving DecidableEq

/-- What was found, in words. -/
def Found.describe : Found → String
  | .literal value => value.kind.name ++ " literal " ++ value.display
  | .field type => type.name ++ " field"

/-- Why a rule set does not compile. -/
inductive CompileError
  | invalidRuleSet (fault : RuleSetFault)
  | invalidCondition (index : Nat) (field : String) (fault : ConditionFault)
  /-- A segment of a path names no field. -/
  | fieldNotFound (segment path : String)
  | typeMismatch (field : String) (expected : ScalarType) (found : Found)
  | unsupportedOperator (operator : Operator) (field : String) (fieldType : FieldType)
deriving DecidableEq

/-- The text shown to the user. -/
def CompileError.message : CompileError → String
  | .invalidRuleSet fault => "invalid rule set: " ++ fault.reason
  | .invalidCondition index field fault =>
    "invalid condition #" ++ toString index ++ " on field '" ++ field ++ "': " ++ fault.reason
  | .fieldNotFound segment path =>
    "field '" ++ segment ++ "' not found while resolving '" ++ path ++ "'"
  | .typeMismatch field expected found =>
    "type mismatch on field '" ++ field ++ "': expected " ++ expected.name ++ ", found " ++
      found.describe
  | .unsupportedOperator operator field fieldType =>
    "operator " ++ operator.name ++ " is not supported on " ++ fieldType.name ++ " field '" ++
      field ++ "'"

end RecordFilter
