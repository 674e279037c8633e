import RecordFilter.Number.Decimal
import RecordFilter.Number.Shortest

/-!
# The text of a double

Which digits are written is settled by the shortest decimal; a layout says where they go.  There are
two layouts: plain text for people, which never uses an exponent, and the one of JSON documents, where
whole numbers keep a `.0` and numbers far from one are written with an exponent.
-/

namespace RecordFilter.Number

/-- The decisions that fix the text of a double, given its digits. -/
structure Layout where
  /-- Which of two equally near shortest decimals is written. -/
  tie : ShortDecimal.Tie
  /-- The least and the greatest exponent of the first digit for which the number is written with no
  exponent; with no bounds, all are. -/
  plain : Option (Int × Int)
  /-- Whether a whole number written with no exponent ends in `.0`. -/
  pointZero : Bool

namespace Layout

/-- Plain text: no exponent, and no point in a whole number. -/
def display : Layout := ⟨.up, none, false⟩

/-- JSON documents: exponents outside `-5 … 15`, and a point in every number. -/
def json : Layout := ⟨.even, some (-5, 15), true⟩

/-- Digits with a point after the first `position` of them, padded with zeros. -/
def positional (pointZero : Bool) (ds : List Char) (position : Int) : List Char :=
  if position ≤ 0 then
    ['0', '.'] ++ List.replicate (-position).toNat '0' ++ ds
  else if ds.length ≤ position then
    ds ++ List.replicate (position - ds.length).toNat '0' ++ (if pointZero then ['.', '0'] else [])
  else
    ds.take position.toNat ++ '.' :: ds.drop position.toNat

/-- Digits with a point after the first one, if there are more, and the exponent of the first digit
with its sign. -/
def scientific (ds : List Char) (exponent : Int) : List Char :=
  ds.take 1 ++ (if ds.length = 1 then [] else '.' :: ds.drop 1) ++
    ['e', if exponent < 0 then '-' else '+'] ++ decimalText exponent.natAbs

/-- The text of a finite magnitude. -/
def magnitudeText (layout : Layout) (k : Nat) : List Char :=
  if k = 0 then '0' :: (if layout.pointZero then ['.', '0'] else [])
  else
    let d := ShortDecimal.ofMagnitude layout.tie k
    let ds := decimalText d.digits
    let position := ds.length + d.exponent
    match layout.plain with
    | none => positional layout.pointZero ds position
    | some (least, greatest) =>
      if least ≤ position - 1 ∧ position - 1 ≤ greatest then
        positional layout.pointZero ds position
      else scientific ds (position - 1)

/-- The text of a double. -/
def text (layout : Layout) (x : Binary64) : List Char :=
  if x.isNaN then "NaN".toList
  else
    let unsigned := if x.isFinite then layout.magnitudeText x.magnitude.toNat else "inf".toList
    if x.negative then '-' :: unsigned else unsigned

end Layout

end RecordFilter.Number
