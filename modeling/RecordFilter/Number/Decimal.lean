import RecordFilter.Number.Binary64
import RecordFilter.Number.PowerOfTen

/-!
# Decimal numerals

A decimal numeral is a sign, the digits before and after a point, and a power of ten.  `ofText?`
reads one from a whole text: an optional sign, digits with an optional point and at least one digit on
either side of it, and an optional exponent.  `nearest` is the double nearest to the number that a
numeral denotes, ties going to the even one.

Whole numbers have a stricter form of their own, an optional sign and digits: `wholeNumber?`.
-/

namespace RecordFilter.Number

/-! ## Digits -/

/-- Whether a character is one of the ten ASCII digits. -/
def isDigit (c : Char) : Bool :=
  '0' ≤ c && c ≤ '9'

/-- The value of an ASCII digit. -/
def digitValue (c : Char) : Nat :=
  c.toNat - '0'.toNat

/-- The number that a list of digits denotes, the first digit being the most significant. -/
def ofDigits (ds : List Nat) : Nat :=
  ds.foldl (fun n d => 10 * n + d) 0

/-- The digits that a text begins with, and the rest of the text. -/
def spanDigits (cs : List Char) : List Nat × List Char :=
  ((cs.takeWhile isDigit).map digitValue, cs.dropWhile isDigit)

/-- Whether a text begins with a minus sign, and the rest of the text after a sign of either kind. -/
def spanSign : List Char → Bool × List Char
  | '-' :: cs => (true, cs)
  | '+' :: cs => (false, cs)
  | cs => (false, cs)

/-- The decimal digits of a natural number. -/
def decimalText (n : Nat) : List Char :=
  Nat.toDigits 10 n

/-- The decimal digits of a whole number, with a minus sign if it is negative. -/
def wholeText (n : Int) : List Char :=
  if n < 0 then '-' :: decimalText n.natAbs else decimalText n.natAbs

/-- The number that a text of one or more digits with an optional sign denotes. -/
def wholeNumber? (cs : List Char) : Option Int :=
  let (negative, cs) := spanSign cs
  match spanDigits cs with
  | ([], _) | (_, _ :: _) => none
  | (ds, []) => some (if negative then -ofDigits ds else ofDigits ds)

/-! ## Numerals -/

/-- A decimal numeral as it is written. -/
structure Decimal where
  /-- Whether a minus sign stands in front. -/
  negative : Bool
  /-- The digits before the point. -/
  whole : List Nat
  /-- The digits after the point. -/
  fraction : List Nat
  /-- The power of ten. -/
  exponent : Int
deriving DecidableEq

namespace Decimal

/-- All the digits read as one whole number. -/
def significand (d : Decimal) : Nat :=
  ofDigits (d.whole ++ d.fraction)

/-- The power of ten that the significand is multiplied by. -/
def scale (d : Decimal) : Int :=
  d.exponent - d.fraction.length

/-- The exponent of a power of ten that the number denoted does not reach. -/
def reach (d : Decimal) : Int :=
  d.whole.length + d.exponent

/-- The magnitude nearest to a natural number times a power of ten. -/
def nearestScaled (m : Nat) (e : Int) : Nat :=
  Binary64.nearest (m * (powerOfTen e).1) (powerOfTen e).2

/-- The double nearest to the number that a numeral denotes.  Powers of ten far outside the range of
doubles are settled without computing them. -/
def nearest (d : Decimal) : Binary64 :=
  if d.significand = 0 ∨ d.reach < -400 then .ofMagnitude d.negative 0
  else if 400 < d.scale then .infinity d.negative
  else .ofMagnitude d.negative (nearestScaled d.significand d.scale)

/-- The value at which an exponent stops growing, far beyond the range of doubles. -/
def exponentLimit : Nat := 0x10000

/-- The value of an exponent's digits; digits after it has reached the limit do not count. -/
def exponentValue (ds : List Nat) : Nat :=
  ds.foldl (fun n d => if n < exponentLimit then 10 * n + d else n) 0

/-- The exponent that a text consists of: nothing, or an `e` with an optional sign and digits. -/
def exponent? : List Char → Option Int
  | [] => some 0
  | c :: cs =>
    if c = 'e' ∨ c = 'E' then
      let (negative, cs) := spanSign cs
      match spanDigits cs with
      | ([], _) | (_, _ :: _) => none
      | (ds, []) => some (if negative then -exponentValue ds else exponentValue ds)
    else none

/-- The digits after the point that a text begins with, if a point comes first, and the rest. -/
def spanFraction : List Char → List Nat × List Char
  | '.' :: cs => spanDigits cs
  | cs => ([], cs)

/-- The numeral that a text consists of. -/
def ofText? (cs : List Char) : Option Decimal :=
  let (negative, cs) := spanSign cs
  let (whole, cs) := spanDigits cs
  let (fraction, cs) := spanFraction cs
  if whole = [] ∧ fraction = [] then none
  else (exponent? cs).map fun exponent => ⟨negative, whole, fraction, exponent⟩

end Decimal

end RecordFilter.Number
