import RecordFilter.Number.Layout

/-!
# Literals

A literal is the value that a condition compares a field with, as it was written: it has not been
matched with the type of any field yet.  Two notions of sameness matter.  `=` tells literals apart by
kind and content, floats bit by bit; `equal` compares floats as numbers, so that zero equals minus zero
and what is not a number equals nothing.
-/

namespace RecordFilter

open Number

/-- The types that a single value can have. -/
inductive ScalarType
  | int
  | float
  | bool
  | string
deriving DecidableEq

/-- The name of a type. -/
def ScalarType.name : ScalarType → String
  | .int => "int"
  | .float => "float"
  | .bool => "bool"
  | .string => "string"

/-- A value written in a condition. -/
inductive Literal
  | bool (b : Bool)
  | int (n : Int64)
  | float (x : Binary64)
  | string (s : String)
deriving DecidableEq

/-- The name of a truth value. -/
def boolText (b : Bool) : List Char :=
  if b then "true".toList else "false".toList

namespace Literal

/-- The type of a literal. -/
def kind : Literal → ScalarType
  | .bool _ => .bool
  | .int _ => .int
  | .float _ => .float
  | .string _ => .string

/-- The text of a literal: a string is its own text. -/
def text : Literal → List Char
  | .bool b => boolText b
  | .int n => wholeText n.toInt
  | .float x => Layout.display.text x
  | .string s => s.toList

/-- How a literal is shown: strings stand between double quotes, with nothing escaped. -/
def display : Literal → String
  | .string s => "\"" ++ s ++ "\""
  | literal => String.ofList literal.text

/-- Whether two literals have the same kind and compare equal. -/
def equal : Literal → Literal → Bool
  | .bool a, .bool b => a == b
  | .int a, .int b => a == b
  | .float a, .float b => a.equal b
  | .string a, .string b => a == b
  | _, _ => false

end Literal

end RecordFilter
