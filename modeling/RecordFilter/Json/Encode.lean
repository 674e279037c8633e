import RecordFilter.Json.StringToken
import RecordFilter.RuleSet

/-!
# Rule sets in JSON: writing

Everything is written as an object with its members in a fixed order and no spaces.  A missing
connector is left out; a missing literal, and a float that is not finite, is written as `null`.
-/

namespace RecordFilter

open Number

/-- A literal in JSON. -/
def Literal.json : Literal → List Char
  | .bool b => boolText b
  | .int n => wholeText n.toInt
  | .float x => if x.isFinite then Layout.json.text x else "null".toList
  | .string s => Json.StringToken.write s

/-- An operator in JSON. -/
def Operator.json (op : Operator) : List Char :=
  Json.StringToken.write op.name

/-- A connector in JSON. -/
def Connector.json (connector : Connector) : List Char :=
  Json.StringToken.write connector.name

/-- One member of an object. -/
def Json.writeMember (name : String) (value : List Char) : List Char :=
  Json.StringToken.write name ++ ':' :: value

/-- Parts between two brackets, separated by commas. -/
def Json.writeParts (opening closing : Char) (parts : List (List Char)) : List Char :=
  opening :: [','].intercalate parts ++ [closing]

/-- A condition in JSON. -/
def Condition.json (c : Condition) : List Char :=
  Json.writeParts '\x7b' '\x7d'
    [Json.writeMember "field" (Json.StringToken.write c.field),
     Json.writeMember "operator" c.operator.json,
     Json.writeMember "value" ((c.value.map Literal.json).getD "null".toList)]

/-- The members of a rule set in JSON. -/
def RuleSet.jsonMembers (rules : RuleSet) : List (List Char) :=
  (match rules.connector with
    | some connector => [Json.writeMember "connector" connector.json]
    | none => []) ++
  [Json.writeMember "conditions" (Json.writeParts '[' ']' (rules.conditions.map Condition.json))]

/-- A rule set in JSON. -/
def RuleSet.toJson (rules : RuleSet) : String :=
  String.ofList (Json.writeParts '\x7b' '\x7d' rules.jsonMembers)

end RecordFilter
