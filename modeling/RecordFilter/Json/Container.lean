import RecordFilter.Json.Number
import RecordFilter.Json.StringToken

/-!
# Reading values, arrays and objects

The byte that a value begins with tells what kind of value it is.  Arrays and objects nest; a reader
that enters one is given the number of levels that it may still enter, and entering one too many is an
error.  Elements and members are separated by commas, and no comma stands before the first or after the
last.
-/

namespace RecordFilter.Json

/-- The number of arrays and objects that may be open at once. -/
def maxDepth : Nat := 127

/-- What the first byte of a value announces. -/
inductive Lead
  | null
  | true
  | false
  | number
  | string
  | array
  | object
  /-- No value begins with the byte. -/
  | other
deriving DecidableEq

/-- What a byte announces. -/
def Lead.ofByte (b : UInt8) : Lead :=
  if b = 'n'.toUInt8 then .null
  else if b = 't'.toUInt8 then .true
  else if b = 'f'.toUInt8 then .false
  else if b = '-'.toUInt8 ∨ Numeral.isDigit b then .number
  else if b = '"'.toUInt8 then .string
  else if b = '['.toUInt8 then .array
  else if b = '\x7b'.toUInt8 then .object
  else .other

namespace Reader

/-- Passes over white space and tells what the next value is. -/
def lead : Reader Lead := do
  return .ofByte (← peek)

/-- Takes the opening quote, and then the string up to the closing one. -/
def quotedText [StringCheck] : Reader String := do
  symbol '"'.toUInt8
  StringToken.read

/-- Takes the colon between the name of a member and its value. -/
def colon : Reader Unit :=
  symbol ':'.toUInt8

/-! ## Nesting -/

variable {α : Type}

/-- Takes the opening bracket or brace, and then what the body takes; the body is given the number of
levels that it may enter. -/
def enter (depth : Nat) (body : Nat → Reader α) : Reader α :=
  match depth with
  | 0 => throw .malformed
  | depth + 1 => do
    let _ ← next
    body depth

/-- Whether an array has another element, given whether that is the first; takes the comma before
it. -/
def anotherElement (first : Bool) : Reader Bool := do
  let b ← peek
  if b = ']'.toUInt8 then pure false
  else if first then pure true
  else if b = ','.toUInt8 then
    let _ ← next
    let b ← peek
    if b = ']'.toUInt8 then throw .malformed else pure true
  else throw .malformed

/-- Whether an object has another member, given whether that is the first; takes the comma before it.
A member begins with a quote. -/
def anotherMember (first : Bool) : Reader Bool := do
  let b ← peek
  if b = '\x7d'.toUInt8 then pure false
  else if first then
    if b = '"'.toUInt8 then pure true else throw .malformed
  else if b = ','.toUInt8 then
    let _ ← next
    let b ← peek
    if b = '"'.toUInt8 then pure true else throw .malformed
  else throw .malformed

/-- Takes the bracket that closes an array. -/
def closeArray : Reader Unit :=
  symbol ']'.toUInt8

/-- Takes the brace that closes an object. -/
def closeObject : Reader Unit :=
  symbol '\x7d'.toUInt8

/-- Takes one element of an array, or its closing bracket; `done` holds the elements before it, the
last one first. -/
def elementStep (element : Reader α) (done : List α) : Reader (List α ⊕ List α) := do
  if ← anotherElement done.isEmpty then
    let a ← element
    pure (.inl (a :: done))
  else
    closeArray
    pure (.inr done.reverse)

/-- Takes the elements of an array and the closing bracket. -/
def elements (element : Reader α) : Reader (List α) :=
  iterate (elementStep element) []

/-- Takes one member of an object, or its closing brace.  The state says whether no member came before,
and what the members before amount to. -/
def memberStep (member : α → Reader α) : Bool × α → Reader (Bool × α ⊕ α)
  | (first, state) => do
    if ← anotherMember first then
      let state ← member state
      pure (.inl (false, state))
    else
      closeObject
      pure (.inr state)

/-- Takes the members of an object and the closing brace, each member adding to a state. -/
def members (member : α → Reader α) (start : α) : Reader α :=
  iterate (memberStep member) (true, start)

/-! ## Whole texts -/

/-- The value that a whole text denotes.  Only white space may follow it. -/
def complete (reader : Reader α) (input : List UInt8) : Except Fault α :=
  match reader input with
  | .error fault => .error fault
  | .ok (a, rest) => if rest.all isSpace then .ok a else .error .malformed

/-! ## Values that were not expected -/

/-- The shape of the next value.  Words, numbers and strings are taken whole, arrays and objects are not
entered. -/
def shape [StringCheck] : Reader Shape := do
  match ← lead with
  | .null => nullWord; pure .null
  | .true => trueWord; pure (.bool true)
  | .false => falseWord; pure (.bool false)
  | .number =>
    match ← readNumber with
    | .integer n => pure (.integer n)
    | .float x => pure (.float x)
  | .string => .string <$> quotedText
  | .array => pure .sequence
  | .object => pure .map
  | .other => throw .malformed

/-- Fails on a value of a type that was not expected. -/
def unexpected [StringCheck] (expected : String) : Reader α := do
  throw (.mismatch (.invalidType (← shape) expected))

/-- Takes a string, or fails with the words for what was expected. -/
def stringOr [StringCheck] (expected : String) : Reader String := do
  match ← lead with
  | .string => quotedText
  | _ => unexpected expected

end Reader

end RecordFilter.Json
