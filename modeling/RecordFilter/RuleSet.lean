import RecordFilter.Condition

/-!
# Rule sets

A rule set joins conditions by one connector.  It is plain data that can be edited freely; whether it
makes sense is decided when it is compiled.
-/

namespace RecordFilter

/-- How the conditions of a rule set are joined. -/
inductive Connector
  | and
  | or
deriving DecidableEq, Inhabited

namespace Connector

/-- Both connectors. -/
def all : List Connector := [.and, .or]

/-- The name of a connector. -/
def name : Connector → String
  | .and => "And"
  | .or => "Or"

/-- The word that joins conditions when a predicate is shown. -/
def keyword : Connector → String
  | .and => "AND"
  | .or => "OR"

/-- The connector of a given name. -/
def ofName? (name : String) : Option Connector :=
  all.find? fun connector => connector.name = name

/-- The place of a connector in the list of both. -/
def index : Connector → Nat
  | .and => 0
  | .or => 1

theorem ofName?_name (connector : Connector) : ofName? connector.name = some connector := by
  cases connector <;> decide

end Connector

/-- Conditions and the connector that joins them. -/
structure RuleSet where
  connector : Option Connector
  conditions : List Condition
deriving DecidableEq, Inhabited

namespace RuleSet

/-- The rule set that nothing has been written into. -/
def empty : RuleSet := ⟨none, []⟩

/-- The rule set that requires all of some conditions. -/
def allOf (conditions : List Condition) : RuleSet := ⟨some .and, conditions⟩

/-- The rule set that requires one of some conditions. -/
def anyOf (conditions : List Condition) : RuleSet := ⟨some .or, conditions⟩

/-! ## Editing -/

/-- Adds a condition at the end. -/
def push (rules : RuleSet) (c : Condition) : RuleSet :=
  { rules with conditions := rules.conditions ++ [c] }

/-- Drops the last condition, if there is one. -/
def pop (rules : RuleSet) : RuleSet :=
  { rules with conditions := rules.conditions.dropLast }

/-- Turns the order of the conditions round. -/
def reverse (rules : RuleSet) : RuleSet :=
  { rules with conditions := rules.conditions.reverse }

/-- Replaces the connector. -/
def setConnector (rules : RuleSet) (connector : Option Connector) : RuleSet :=
  { rules with connector }

/-! ## Showing and comparing -/

/-- How a rule set is shown. -/
def display (rules : RuleSet) : String :=
  (rules.connector.map Connector.name).getD "" ++
    "[" ++ ", ".intercalate (rules.conditions.map Condition.display) ++ "]"

/-- Whether two lists of conditions agree place by place. -/
def equalConditions : List Condition → List Condition → Bool
  | [], [] => true
  | a :: as, b :: bs => a.equal b && equalConditions as bs
  | _, _ => false

/-- Whether two rule sets agree, literals being compared as values. -/
def equal (a b : RuleSet) : Bool :=
  a.connector == b.connector && equalConditions a.conditions b.conditions

end RuleSet

end RecordFilter
