import RecordFilter.Literal
import RecordFilter.Text.Blank

/-!
# Fitting literals to fields

A literal is fitted to the type of the field that it is compared with:

* to `int`, whole numbers as they are, floats that denote a whole number in range, and texts of one;
* to `float`, floats as they are, whole numbers rounded to the nearest float, and texts of numbers that
  round to a finite float;
* to `bool`, truth values, and the texts `true` and `false` in upper or lower case;
* to `string`, strings as they are and, unless the options forbid it, the text of any other literal.

White space around a text that is read as a number or a truth value does not count.
-/

namespace RecordFilter

open Number

/-- What to do with a literal other than a string on a string field. -/
inductive StringCoercion
  /-- Take its text. -/
  | stringify
  /-- Refuse it. -/
  | strict
deriving DecidableEq, Inhabited

/-- Choices that apply to the compilation of a whole rule set. -/
structure CompileOptions where
  stringCoercion : StringCoercion := .stringify
deriving DecidableEq, Inhabited

/-- A whole number as a 64-bit one, if it is in range. -/
def int64? (n : Int) : Option Int64 :=
  if Int64.minValue.toInt ≤ n ∧ n ≤ Int64.maxValue.toInt then some (.ofInt n) else none

/-- A float as it is, if it is finite. -/
def finite? (x : Binary64) : Option Binary64 :=
  if x.isFinite then some x else none

/-- Lower case of an ASCII letter; every other character is left as it is. -/
def asciiLower (c : Char) : Char :=
  if 'A' ≤ c ∧ c ≤ 'Z' then .ofNat (c.toNat + 32) else c

namespace Literal

/-- The literal as a value of an `int` field. -/
def toInt? : Literal → Option Int64
  | .int n => some n
  | .float x => x.toInt?.bind int64?
  | .string s => (wholeNumber? (Text.strip s.toList)).bind int64?
  | .bool _ => none

/-- The literal as a value of a `float` field. -/
def toFloat? : Literal → Option Binary64
  | .int n => some (.ofInt n.toInt)
  | .float x => some x
  | .string s => (Decimal.ofText? (Text.strip s.toList)).bind fun d => finite? d.nearest
  | .bool _ => none

/-- The literal as a value of a `bool` field. -/
def toBool? : Literal → Option Bool
  | .bool b => some b
  | .string s =>
    let word := (Text.strip s.toList).map asciiLower
    if word = boolText true then some true
    else if word = boolText false then some false
    else none
  | .int _ | .float _ => none

/-- The literal as a value of a `string` field. -/
def toString? (coercion : StringCoercion) : Literal → Option String
  | .string s => some s
  | literal =>
    match coercion with
    | .stringify => some (String.ofList literal.text)
    | .strict => none

end Literal

end RecordFilter
