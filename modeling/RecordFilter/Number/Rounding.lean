/-!
# Rounding a quotient to a whole number

`divHalfEven num den` is the whole number nearest to `num / den`; a quotient half way between two
goes to the even one.  The main statement is that a whole quotient is left as it is.
-/

namespace RecordFilter.Number

/-- The whole number nearest to `num / den`, a half going to the even neighbour. -/
def divHalfEven (num den : Nat) : Nat :=
  if 2 * (num % den) < den then num / den
  else if den < 2 * (num % den) then num / den + 1
  else num / den + num / den % 2

/-- A whole quotient is its own rounding. -/
theorem divHalfEven_mul {q den : Nat} (hden : 0 < den) : divHalfEven (q * den) den = q := by
  simp [divHalfEven, hden]

end RecordFilter.Number
