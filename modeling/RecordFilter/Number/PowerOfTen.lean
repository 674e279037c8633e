/-!
# Powers of ten

A power of ten with an integer exponent, as a quotient of natural numbers: one of the two is one.
-/

namespace RecordFilter.Number

/-- The power of ten with a given exponent. -/
def tenTo (e : Nat) : Nat :=
  Nat.pow 10 e

/-- Numerator and denominator of the power of ten with a given exponent. -/
def powerOfTen (e : Int) : Nat × Nat :=
  if 0 ≤ e then (tenTo e.toNat, 1) else (1, tenTo (-e).toNat)

theorem tenTo_pos (e : Nat) : 0 < tenTo e :=
  Nat.pow_pos (by decide)

/-- Neither part of a power of ten is zero. -/
theorem powerOfTen_pos (e : Int) : 0 < (powerOfTen e).1 ∧ 0 < (powerOfTen e).2 := by
  unfold powerOfTen
  split <;> simp [tenTo_pos]

end RecordFilter.Number
