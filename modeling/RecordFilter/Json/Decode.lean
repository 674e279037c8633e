import RecordFilter.Json.Tree
import RecordFilter.RuleSet

/-!
# Rule sets in JSON: reading

A rule set is an object with the members `connector` and `conditions`, or an array of the two in that
order; a condition is an object with the members `field`, `operator` and `value`, or an array of the
three.  The names of members may be capitalised.

* Both parts of a rule set may be left out, the second only in an array.  The connector may also be
  `null` or the empty string, for none.
* Of a condition, `value` may be left out or be `null`; `field` may be left out of an object and is
  then empty.
* An operator is a string, or an object whose one member has the operator for its name and `null` for
  its value.
* No member may be given twice, under either spelling, and there are no others.

A text is read once, from left to right, and the first problem is the answer.  What the problem is
depends on the JSON library in one case (`Dialect`), so what is proved about reading is proved for
every dialect.
-/

namespace RecordFilter

open Json

/-! ## Literals -/

/-- The literal that a number is.  Whole numbers above the range of 64-bit integers become floats. -/
def Literal.ofNumber : NumberValue → Literal
  | .integer n => if n ≤ Int64.maxValue.toInt then .int (.ofInt n) else .float (.ofInt n)
  | .float x => .float x

/-- The literal that a JSON value is. -/
def Literal.ofTree? : Tree → Option Literal
  | .bool b => some (.bool b)
  | .number v => some (ofNumber v)
  | .string s => some (.string s)
  | .null | .array _ | .object _ => none

namespace Json

/-- Takes a literal.  The value is taken whole before it is asked whether it is a literal. -/
def readLiteral [StringCheck] (depth : Nat) : Reader Literal := do
  match Literal.ofTree? (← Tree.read depth) with
  | some literal => pure literal
  | none => throw (.mismatch .notLiteral)

/-- Takes a literal, or `null` for none. -/
def readValue [StringCheck] (depth : Nat) : Reader (Option Literal) := do
  match ← Reader.lead with
  | .null => Reader.nullWord; pure none
  | _ => some <$> readLiteral depth

/-! ## Names -/

/-- What is wrong with a key that is not a string. -/
inductive KeyFault
  /-- No quote stands where one must. -/
  | malformed
  /-- A value of one type stands where another was expected. -/
  | mismatch
deriving DecidableEq

/-- What is left to the JSON library.  The library is required by its major version alone, and its
releases do not agree on an object that stands for a name and has a key that is not a string. -/
class Dialect where
  keyFault : KeyFault

/-- Newer releases refuse the key where no quote stands, whatever stands there.  Rule sets are read by
them unless another dialect is given. -/
instance Dialect.newer : Dialect := ⟨.malformed⟩

/-- Older releases expect a string and tell what they found. -/
abbrev Dialect.older : Dialect := ⟨.mismatch⟩

variable {α κ : Type}

/-- The thing of a given name, or a failure that lists the names. -/
def named (ofName? : String → Option α) (names : List String) (name : String) : Reader α :=
  match ofName? name with
  | some a => pure a
  | none => throw (.mismatch (.unknownVariant name names))

/-- Takes `null`, which is all that the value of a named member may be. -/
def readUnit [StringCheck] : Reader Unit := do
  match ← Reader.lead with
  | .null => Reader.nullWord
  | _ => Reader.unexpected "unit"

/-- Takes the key of an object that stands for a name. -/
def readKey [Dialect] [StringCheck] : Reader String :=
  match Dialect.keyFault with
  | .malformed => Reader.quotedText
  | .mismatch => Reader.stringOr "variant identifier"

/-- Takes a name as a string, or as the key of the one member of an object, whose value is `null`. -/
def readNamed [Dialect] [StringCheck] (depth : Nat) (ofName? : String → Option α)
    (names : List String) : Reader α := do
  match ← Reader.lead with
  | .string => named ofName? names (← Reader.quotedText)
  | .object =>
    Reader.enter depth fun _ => do
      let a ← named ofName? names (← readKey)
      Reader.colon
      readUnit
      Reader.closeObject
      pure a
  | _ => throw .malformed

/-- Takes an operator. -/
def readOperator [Dialect] [StringCheck] (depth : Nat) : Reader Operator :=
  readNamed depth Operator.ofName? (Operator.all.map Operator.name)

/-- Takes a connector that must be given. -/
def readConnector [Dialect] [StringCheck] (depth : Nat) : Reader Connector :=
  readNamed depth Connector.ofName? (Connector.all.map Connector.name)

/-- Takes the connector of a rule set, where `null` and the empty string stand for none. -/
def readConnectorOrNone [StringCheck] : Reader (Option Connector) := do
  match ← Reader.lead with
  | .null => Reader.nullWord; pure none
  | _ =>
    let name ← Reader.stringOr "a string"
    if name = "" then pure none
    else some <$> named Connector.ofName? (Connector.all.map Connector.name) name

/-- Takes the name of a member and tells which member it is, given the spellings of each. -/
def readMemberName [StringCheck] (spellings : List (String × κ)) : Reader κ := do
  let name ← Reader.quotedText
  match spellings.lookup name with
  | some member => pure member
  | none => throw (.mismatch (.unknownField name (spellings.map Prod.fst)))

/-- Takes the value of a member that was not given before. -/
def readOnce (name : String) (before : Option α) (value : Reader α) : Reader (Option α) :=
  match before with
  | some _ => throw (.mismatch (.duplicateField name))
  | none => do
    Reader.colon
    some <$> value

/-! ## Conditions -/

/-- The members of a condition. -/
inductive ConditionMember
  | field
  | operator
  | value
deriving DecidableEq

/-- The names that the members of a condition go by. -/
def ConditionMember.spellings : List (String × ConditionMember) :=
  [("Field", .field), ("field", .field), ("Operator", .operator), ("operator", .operator),
   ("Value", .value), ("value", .value)]

/-- The members of a condition that have been read. -/
structure ConditionMembers where
  field : Option String := none
  operator : Option Operator := none
  value : Option (Option Literal) := none

namespace ConditionMembers

/-- Takes one more member. -/
def read [Dialect] [StringCheck] (depth : Nat) (before : ConditionMembers) :
    Reader ConditionMembers := do
  match ← readMemberName ConditionMember.spellings with
  | .field =>
    let field ← readOnce "field" before.field (Reader.stringOr "a string")
    pure { before with field }
  | .operator =>
    let operator ← readOnce "operator" before.operator (readOperator depth)
    pure { before with operator }
  | .value =>
    let value ← readOnce "value" before.value (readValue depth)
    pure { before with value }

/-- The condition that the members make up. -/
def condition (members : ConditionMembers) : Reader Condition :=
  match members.operator with
  | some operator => pure ⟨members.field.getD "", operator, members.value.getD none⟩
  | none => throw (.mismatch (.missingField "operator"))

end ConditionMembers

/-- What is expected where a condition is not an object or an array. -/
def conditionForm : String := "struct RuleCondition"

/-- Fails on the array of a condition that ends before the operator. -/
def tooShort : Reader α :=
  throw (.mismatch (.invalidLength 1 (conditionForm ++ " with 3 elements")))

/-- Takes the elements of a condition given as an array, and the closing bracket. -/
def readConditionElements [Dialect] [StringCheck] (depth : Nat) : Reader Condition := do
  if ← Reader.anotherElement true then
    let field ← Reader.stringOr "a string"
    if ← Reader.anotherElement false then
      let operator ← readOperator depth
      let value ← if ← Reader.anotherElement false then readValue depth else pure none
      Reader.closeArray
      pure ⟨field, operator, value⟩
    else tooShort
  else tooShort

/-- Takes a condition. -/
def readCondition [Dialect] [StringCheck] (depth : Nat) : Reader Condition := do
  match ← Reader.lead with
  | .array => Reader.enter depth readConditionElements
  | .object =>
    Reader.enter depth fun depth => do
      let members ← Reader.members (ConditionMembers.read depth) {}
      members.condition
  | _ => Reader.unexpected conditionForm

/-- Takes the conditions of a rule set. -/
def readConditions [Dialect] [StringCheck] (depth : Nat) : Reader (List Condition) := do
  match ← Reader.lead with
  | .array => Reader.enter depth fun depth => Reader.elements (readCondition depth)
  | _ => Reader.unexpected "a sequence"

/-! ## Rule sets -/

/-- The members of a rule set. -/
inductive RuleSetMember
  | connector
  | conditions
deriving DecidableEq

/-- The names that the members of a rule set go by. -/
def RuleSetMember.spellings : List (String × RuleSetMember) :=
  [("Connector", .connector), ("connector", .connector), ("Conditions", .conditions),
   ("conditions", .conditions)]

/-- The members of a rule set that have been read. -/
structure RuleSetMembers where
  connector : Option (Option Connector) := none
  conditions : Option (List Condition) := none

namespace RuleSetMembers

/-- Takes one more member. -/
def read [Dialect] [StringCheck] (depth : Nat) (before : RuleSetMembers) :
    Reader RuleSetMembers := do
  match ← readMemberName RuleSetMember.spellings with
  | .connector =>
    let connector ← readOnce "connector" before.connector readConnectorOrNone
    pure { before with connector }
  | .conditions =>
    let conditions ← readOnce "conditions" before.conditions (readConditions depth)
    pure { before with conditions }

/-- The rule set that the members make up. -/
def ruleSet (members : RuleSetMembers) : RuleSet :=
  ⟨members.connector.getD none, members.conditions.getD []⟩

end RuleSetMembers

/-- Takes the elements of a rule set given as an array, and the closing bracket. -/
def readRuleSetElements [Dialect] [StringCheck] (depth : Nat) : Reader RuleSet := do
  if ← Reader.anotherElement true then
    let connector ← readConnectorOrNone
    let conditions ← if ← Reader.anotherElement false then readConditions depth else pure []
    Reader.closeArray
    pure ⟨connector, conditions⟩
  else
    Reader.closeArray
    pure ⟨none, []⟩

/-- Takes a rule set. -/
def readRuleSet [Dialect] [StringCheck] (depth : Nat) : Reader RuleSet := do
  match ← Reader.lead with
  | .array => Reader.enter depth readRuleSetElements
  | .object =>
    Reader.enter depth fun depth =>
      RuleSetMembers.ruleSet <$> Reader.members (RuleSetMembers.read depth) {}
  | _ => Reader.unexpected "struct RuleSet"

end Json

/-! ## Whole texts -/

/-- The literal that a text denotes. -/
def Literal.ofJson (text : List UInt8) : Except Fault Literal :=
  (readLiteral maxDepth).complete text

/-- The operator that a text denotes. -/
def Operator.ofJson [Dialect] (text : List UInt8) : Except Fault Operator :=
  (readOperator maxDepth).complete text

/-- The connector that a text denotes. -/
def Connector.ofJson [Dialect] (text : List UInt8) : Except Fault Connector :=
  (readConnector maxDepth).complete text

/-- The condition that a text denotes. -/
def Condition.ofJson [Dialect] (text : List UInt8) : Except Fault Condition :=
  (readCondition maxDepth).complete text

/-- The rule set that the bytes of a text or a stream denote. -/
def RuleSet.ofBytes [Dialect] [StringCheck] (text : List UInt8) : Except Fault RuleSet :=
  (readRuleSet maxDepth).complete text

end RecordFilter
