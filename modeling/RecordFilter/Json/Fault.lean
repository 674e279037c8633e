import RecordFilter.Number.Layout
import RecordFilter.Text.Quoted

/-!
# Why a JSON text is not decoded

A text is read from left to right, and the first problem in it decides.  It may end too early, it may
break the rules of JSON, or it may be JSON that does not have the form asked for.  Only the last kind
is told to the user in words, by `Mismatch.message`.
-/

namespace RecordFilter.Json

open Number

/-- What stands at a place where something else was expected. -/
inductive Shape
  | null
  | bool (b : Bool)
  | integer (n : Int)
  | float (x : Binary64)
  | string (s : String)
  | sequence
  | map
deriving DecidableEq

/-- The shape in words. -/
def Shape.describe : Shape → String
  | .null => "null"
  | .bool b => "boolean `" ++ (if b then "true" else "false") ++ "`"
  | .integer n => "integer `" ++ String.ofList (wholeText n) ++ "`"
  | .float x => "floating point `" ++ String.ofList (Layout.json.text x) ++ "`"
  | .string s => "string " ++ Text.quoted s
  | .sequence => "sequence"
  | .map => "map"

/-- How a JSON text differs from the form asked for. -/
inductive Mismatch
  /-- A value of another type. -/
  | invalidType (found : Shape) (expected : String)
  /-- A member that the object does not have. -/
  | unknownField (name : String) (expected : List String)
  | duplicateField (name : String)
  | missingField (name : String)
  /-- A name that is not one of the names to choose from. -/
  | unknownVariant (name : String) (expected : List String)
  /-- An array that ends too soon. -/
  | invalidLength (length : Nat) (expected : String)
  /-- A value that is no literal. -/
  | notLiteral
deriving DecidableEq

/-- A choice of names, in words. -/
def oneOf (names : List String) : String :=
  match names.map fun name => "`" ++ name ++ "`" with
  | [a] => a
  | [a, b] => a ++ " or " ++ b
  | names => "one of " ++ ", ".intercalate names

/-- The text shown to the user. -/
def Mismatch.message : Mismatch → String
  | .invalidType found expected => "invalid type: " ++ found.describe ++ ", expected " ++ expected
  | .unknownField name expected => "unknown field `" ++ name ++ "`, expected " ++ oneOf expected
  | .duplicateField name => "duplicate field `" ++ name ++ "`"
  | .missingField name => "missing field `" ++ name ++ "`"
  | .unknownVariant name expected => "unknown variant `" ++ name ++ "`, expected " ++ oneOf expected
  | .invalidLength length expected => "invalid length " ++ toString length ++ ", expected " ++ expected
  | .notLiteral => "data did not match any variant of untagged enum Value"

/-- Why a text is not decoded. -/
inductive Fault
  /-- The text ends where more was needed. -/
  | endOfText
  /-- The text breaks the rules of JSON. -/
  | malformed
  | mismatch (mismatch : Mismatch)
deriving DecidableEq

end RecordFilter.Json
