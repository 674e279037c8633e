import RecordFilter.Json.Container

/-!
# Plain JSON values

A tree is a JSON value as it stands: members keep their order, and a name may occur more than once.
-/

namespace RecordFilter.Json

open Number

/-- A JSON value. -/
inductive Tree
  | null
  | bool (b : Bool)
  | number (value : NumberValue)
  | string (s : String)
  | array (elements : List Tree)
  | object (members : List (String × Tree))

namespace Tree

/-- Takes a member: its name, a colon and its value. -/
def readMember [StringCheck] (value : Reader Tree) (done : List (String × Tree)) :
    Reader (List (String × Tree)) := do
  let name ← Reader.quotedText
  Reader.colon
  let v ← value
  pure ((name, v) :: done)

/-- Takes a value; arrays and objects are taken by the given readers. -/
def readWith [StringCheck] (array object : Reader Tree) : Reader Tree := do
  match ← Reader.lead with
  | .null => Reader.nullWord; pure .null
  | .true => Reader.trueWord; pure (.bool true)
  | .false => Reader.falseWord; pure (.bool false)
  | .number => .number <$> readNumber
  | .string => .string <$> Reader.quotedText
  | .array => array
  | .object => object
  | .other => throw .malformed

/-- Takes a value whose arrays and objects nest at most as deep as given. -/
def read [StringCheck] : Nat → Reader Tree
  | 0 => readWith (throw .malformed) (throw .malformed)
  | depth + 1 =>
    readWith
      (do
        let _ ← Reader.next
        let elements ← Reader.elements (read depth)
        pure (.array elements))
      (do
        let _ ← Reader.next
        let members ← Reader.members (readMember (read depth)) []
        pure (.object members.reverse))

/-- The tree of a whole text. -/
def parse [StringCheck] (input : List UInt8) : Except Fault Tree :=
  (read maxDepth).complete input

end Tree

end RecordFilter.Json
