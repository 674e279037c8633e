import RecordFilter.Json.Reader

/-!
# Numbers in JSON

A number is read in two steps.  The first takes the token: a sign, digits without a needless zero in
front, a fraction and an exponent, each with at least one digit.  The second finds its value.

* A token with neither fraction nor exponent is a whole number, exact from `-2 ^ 63` up to
  `2 ^ 64 - 1`, but for minus zero, which is a float.
* Any other is a float.  As many digits as fit sixty-four bits make up a significand, which is rounded
  to a float and then multiplied or divided by a power of ten, itself rounded.  So the result can be a
  neighbour of the nearest float; but the sign is always kept, and zero digits always give zero.
* A float too large to be finite is an error.
-/

namespace RecordFilter.Json

open Number

/-- The value of a number. -/
inductive NumberValue
  | integer (n : Int)
  | float (x : Binary64)
deriving DecidableEq

/-- A number as it is written. -/
structure Numeral where
  /-- Whether a minus sign stands in front. -/
  negative : Bool
  /-- The digits before the point. -/
  whole : List Nat
  /-- The digits after the point; none if there is no point. -/
  fraction : List Nat
  /-- The sign and the digits of the exponent. -/
  exponent : Option (Bool × List Nat)
deriving DecidableEq

namespace Numeral

/-! ## Tokens -/

/-- Whether a byte is an ASCII digit. -/
def isDigit (b : UInt8) : Bool :=
  '0'.toUInt8 ≤ b && b ≤ '9'.toUInt8

/-- The value of an ASCII digit. -/
def digitValue (b : UInt8) : Nat :=
  b.toNat - '0'.toNat

/-- Takes as many digits as there are, at least one. -/
def digits : Reader (List Nat) := fun input =>
  match input with
  | [] => .error .endOfText
  | b :: _ =>
    if isDigit b then
      .ok ((input.takeWhile isDigit).map digitValue, input.dropWhile isDigit)
    else .error .malformed

/-- Takes one of the given bytes if it comes next, and says which. -/
def optional (bytes : List UInt8) : Reader (Option UInt8)
  | [] => .ok (none, [])
  | b :: rest => if b ∈ bytes then .ok (some b, rest) else .ok (none, b :: rest)

/-- Takes the digits before the point; a zero in front must be the only one. -/
def readWhole : Reader (List Nat) := do
  match ← digits with
  | 0 :: _ :: _ => throw .malformed
  | ds => pure ds

/-- Takes a point and the digits after it, if a point comes next. -/
def readFraction : Reader (List Nat) := do
  match ← optional ['.'.toUInt8] with
  | none => pure []
  | some _ => digits

/-- Takes an exponent, if one comes next. -/
def readExponent : Reader (Option (Bool × List Nat)) := do
  match ← optional ['e'.toUInt8, 'E'.toUInt8] with
  | none => pure none
  | some _ =>
    let sign ← optional ['+'.toUInt8, '-'.toUInt8]
    let ds ← digits
    pure (some (sign = some '-'.toUInt8, ds))

/-- Takes the token of a number. -/
def read : Reader Numeral := do
  let sign ← optional ['-'.toUInt8]
  let whole ← readWhole
  let fraction ← readFraction
  let exponent ← readExponent
  pure ⟨sign.isSome, whole, fraction, exponent⟩

/-! ## Values -/

/-- Appends digits to a number for as long as it fits sixty-four bits.  Returns the number and the
digits that are left. -/
def appendFitting : Nat → List Nat → Nat × List Nat
  | m, [] => (m, [])
  | m, d :: ds => if 10 * m + d < UInt64.size then appendFitting (10 * m + d) ds else (m, d :: ds)

/-- The power of ten that the exponent adds. -/
def exponentValue (t : Numeral) : Int :=
  match t.exponent with
  | none => 0
  | some (negative, ds) => if negative then -ofDigits ds else ofDigits ds

/-- The significand and the power of ten that goes with it.  A digit before the point that does not
fit counts towards the power; a digit after the point that does not fit ends the significand. -/
def scaled (t : Numeral) : Nat × Int :=
  let (m, dropped) := appendFitting 0 t.whole
  let (m, ignored) := appendFitting m t.fraction
  (m, dropped.length - (t.fraction.length - ignored.length : Nat) + t.exponentValue)

/-- The largest power of ten that is a finite float. -/
def maxPower : Nat := 308

/-- The magnitude nearest to a power of ten. -/
def power (e : Nat) : Nat :=
  Binary64.nearest (tenTo e) 1

/-- The magnitude nearest to the product of two. -/
def multiply (j k : Nat) : Nat :=
  Binary64.nearest (Binary64.units j * Binary64.units k) (Binary64.one * Binary64.one)

/-- The magnitude nearest to the quotient of two. -/
def divide (j k : Nat) : Nat :=
  Binary64.nearest (Binary64.units j) (Binary64.units k)

/-- A magnitude divided by a power of ten, in as many divisions as the range of floats requires. -/
def shrink (k e : Nat) : Nat :=
  if e ≤ maxPower then divide k (power e)
  else if k = 0 then 0
  else shrink (divide k (power maxPower)) (e - maxPower)
termination_by e
decreasing_by unfold maxPower at *; omega

/-- A magnitude multiplied by a power of ten, unless that is too large. -/
def grow (k e : Nat) : Option Nat :=
  if k = 0 then some 0
  else if e ≤ maxPower then
    let product := multiply k (power e)
    if product < Binary64.infinite then some product else none
  else none

/-- The magnitude of a float token, unless it is too large. -/
def magnitude? (t : Numeral) : Option Nat :=
  let (m, e) := t.scaled
  let k := Binary64.nearest m 1
  if 0 ≤ e then grow k e.toNat else some (shrink k (-e).toNat)

/-- Whether a token has neither fraction nor exponent. -/
def isWhole (t : Numeral) : Bool :=
  t.fraction.isEmpty && t.exponent.isNone

/-- The whole number that the digits before the point denote, with the sign. -/
def wholeValue (t : Numeral) : Int :=
  if t.negative then -ofDigits t.whole else ofDigits t.whole

/-- Whether a token is read as a whole number. -/
def isInteger (t : Numeral) : Bool :=
  t.isWhole && Int64.minValue.toInt ≤ t.wholeValue && t.wholeValue < UInt64.size && !(t.negative && t.wholeValue = 0)

/-- The value of a token, unless it is too large. -/
def value? (t : Numeral) : Option NumberValue :=
  if t.isInteger then some (.integer t.wholeValue)
  else t.magnitude?.map fun k => .float (.ofMagnitude t.negative k)

end Numeral

/-- Takes a number and finds its value. -/
def readNumber : Reader NumberValue := do
  let t ← Numeral.read
  match t.value? with
  | some v => pure v
  | none => throw .malformed

end RecordFilter.Json
