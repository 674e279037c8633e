import RecordFilter.Number.Binary64
import RecordFilter.Number.PowerOfTen

/-!
# Shortest decimals

The shortest decimal of a double is one with the fewest digits among all decimals that round back to
the double, and of those the nearest to it.  A decimal rounds back exactly when it lies in the interval
that reaches half way to the two neighbouring magnitudes; the ends belong to the interval when the
magnitude is even.

Decimals of `n` digits stand on a grid of powers of ten, and if any point of the grid lies in the
interval, then so does one of the two between which the value stands.  So for each length those two are
tried, in exact arithmetic, and the first length with a hit wins.
-/

namespace RecordFilter.Number

/-- A decimal: `digits * 10 ^ exponent`. -/
structure ShortDecimal where
  digits : Nat
  exponent : Int
deriving DecidableEq

namespace ShortDecimal

/-- Which of two equally near candidates is taken. -/
inductive Tie
  /-- The one that ends in an even digit. -/
  | even
  /-- The larger one. -/
  | up
deriving DecidableEq

/-- Whether `m * 10 ^ e` rounds to the magnitude `k`. -/
def roundsTo (k m : Nat) (e : Int) : Bool :=
  let (num, den) := powerOfTen e
  let low := (Binary64.units (k - 1) + Binary64.units k) * den
  let high := (Binary64.units k + Binary64.units (k + 1)) * den
  let twice := 2 * (m * num) * Binary64.one
  if k % 2 = 0 then low ≤ twice && twice ≤ high else low < twice && twice < high

/-- The largest multiple of `10 ^ e` that does not exceed the magnitude `k`, divided by `10 ^ e`. -/
def floorOn (k : Nat) (e : Int) : Nat :=
  let (num, den) := powerOfTen e
  Binary64.units k * den / (Binary64.one * num)

/-- Compares the magnitude `k` with the point half way between `m * 10 ^ e` and the next. -/
def compareHalf (k m : Nat) (e : Int) : Ordering :=
  let (num, den) := powerOfTen e
  compare (2 * Binary64.units k * den) ((2 * m + 1) * num * Binary64.one)

/-- The point of the grid `10 ^ e` that is taken for the magnitude `k`, if one rounds to it. -/
def onGrid? (tie : Tie) (k : Nat) (e : Int) : Option ShortDecimal :=
  let m := floorOn k e
  match roundsTo k m e, roundsTo k (m + 1) e with
  | false, false => none
  | true, false => some ⟨m, e⟩
  | false, true => some ⟨m + 1, e⟩
  | true, true =>
    match compareHalf k m e, tie with
    | .lt, _ => some ⟨m, e⟩
    | .gt, _ => some ⟨m + 1, e⟩
    | .eq, .even => some ⟨m + m % 2, e⟩
    | .eq, .up => some ⟨m + 1, e⟩

/-- The exponent `p` with `10 ^ (p - 1) ≤ value < 10 ^ p`, for the value of a positive magnitude. -/
def pointPosition (k : Nat) : Int :=
  (Nat.toDigits 10 (Binary64.units k * tenTo 330 / Binary64.one)).length - 330

/-- The same decimal with no zero at its end; ten is the only number of digits that rounding up can
give. -/
def trimmed (d : ShortDecimal) : ShortDecimal :=
  if d.digits = 10 then ⟨1, d.exponent + 1⟩ else d

/-- The shortest decimal of a positive finite magnitude.  Seventeen digits always suffice. -/
def ofMagnitude (tie : Tie) (k : Nat) : ShortDecimal :=
  let p := pointPosition k
  match (List.range' 1 17).findSome? fun n : Nat => onGrid? tie k (p - n) with
  | some d => d.trimmed
  | none => ⟨floorOn k (p - 17), p - 17⟩

end ShortDecimal

end RecordFilter.Number
