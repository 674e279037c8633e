import Mathlib
import RecordFilter.Proofs.Number.Denotation

/-!
# Rounding to the nearest, ties to even

A magnitude has an exponent of eleven bits and a fraction of fifty-two, and the format says which
number that is: `valueOf`.  From `infinite` on, `valueOf` goes on as if exponents had no bound, so
that every number has a magnitude nearest to it.

`IsNearestEven` is rounding as the format asks for it: no magnitude is nearer, and if another one
is as near then the even one is taken.  This settles the magnitude, and `nearest` finds it
(`isNearestEven_div_iff`).  The numbers whose magnitude is finite are those below
`2 ^ 1024 - 2 ^ 970`.
-/

namespace RecordFilter.Number.Binary64

/-! ## Numbers by exponent and fraction -/

/-- The number that a magnitude stands for: numbers with the least exponent have no leading bit. -/
def valueOf (k : Nat) : ℚ :=
  let exponent : Nat := k / 2 ^ 52
  let fraction : Nat := k % 2 ^ 52
  if exponent = 0 then fraction * 2 ^ (-1074 : Int)
  else (2 ^ 52 + fraction) * 2 ^ ((exponent : Int) - 1075)

/-- The number that a finite double denotes. -/
def toRat (x : Binary64) : ℚ :=
  if x.negative then -valueOf x.magnitude.toNat else valueOf x.magnitude.toNat

theorem one_eq_zpow : (one : ℚ) = 2 ^ (1074 : Int) := by
  have hcast : ∀ n : Nat, ((1 <<< n : Nat) : ℚ) = 2 ^ (n : Int) := by
    intro n
    rw [Nat.one_shiftLeft, zpow_natCast]
    norm_cast
  exact hcast 1074

/-- The fields and the multiples of the smallest magnitude tell the same number. -/
theorem valueOf_eq (k : Nat) : valueOf k = units k / one := by
  have hbinade : binade = 2 ^ 52 := by decide
  have htwo : (2 : ℚ) ≠ 0 := by norm_num
  rw [one_eq_zpow, div_eq_mul_inv, ← zpow_neg, valueOf, units, hbinade]
  rcases Nat.lt_or_ge k (2 ^ 52) with hk | hk
  · rw [if_pos (Nat.div_eq_of_lt hk), if_pos hk, Nat.mod_eq_of_lt hk]
  · have hexponent : 1 ≤ k / 2 ^ 52 := (Nat.one_le_div_iff (by decide)).2 hk
    rw [if_neg (Nat.one_le_iff_ne_zero.1 hexponent), if_neg (Nat.not_lt.2 hk), Nat.shiftLeft_eq]
    generalize k / 2 ^ 52 = s at hexponent
    rw [Nat.cast_mul, mul_assoc, Nat.cast_pow, Nat.cast_ofNat, ← zpow_natCast 2 (s - 1),
      ← zpow_add₀ htwo, show ((s - 1 : Nat) : Int) + -1074 = s - 1075 by omega, Nat.cast_add,
      Nat.cast_pow, Nat.cast_ofNat]

theorem valueOf_strictMono : StrictMono valueOf := by
  intro j k h
  have hone : (0 : ℚ) < one := by exact_mod_cast one_pos
  rw [valueOf_eq, valueOf_eq, div_lt_div_iff_of_pos_right hone]
  exact_mod_cast units_strictMono h

theorem number?_eq_toRat {x : Binary64} (h : x.isFinite) : x.number? = some (x.toRat : WithTop ℚ) := by
  rw [number?, isNaN_eq_false h, if_neg Bool.false_ne_true, if_pos h, toRat, valueOf_eq]
  cases x.negative <;> rfl

/-! ## The magnitude nearest to a number -/

/-- A magnitude to which a number is rounded: none is nearer, and if another is as near then this
one is even. -/
structure IsNearestEven (k : Nat) (q : ℚ) : Prop where
  nearest : ∀ j, |valueOf k - q| ≤ |valueOf j - q|
  even_of_tie : ∀ j, j ≠ k → |valueOf j - q| = |valueOf k - q| → Even k

/-- Of two numbers the smaller is the nearer to a third that is not past the point half way. -/
theorem abs_sub_le_abs_sub_iff {a b q : ℚ} (h : a < b) : |a - q| ≤ |b - q| ↔ 2 * q ≤ a + b := by
  rw [← sq_le_sq, ← sub_nonneg, show (b - q) ^ 2 - (a - q) ^ 2 = (b - a) * (a + b - 2 * q) by ring,
    mul_nonneg_iff_of_pos_left (sub_pos.2 h), sub_nonneg]

theorem abs_sub_le_abs_sub_iff' {a b q : ℚ} (h : a < b) : |b - q| ≤ |a - q| ↔ a + b ≤ 2 * q := by
  have hmirror := abs_sub_le_abs_sub_iff (q := -q) (neg_lt_neg h)
  rw [neg_sub_neg, neg_sub_neg, abs_sub_comm q b, abs_sub_comm q a] at hmirror
  rw [hmirror]
  constructor <;> intro hle <;> linarith

/-- No number is rounded to two magnitudes. -/
theorem IsNearestEven.unique {j k : Nat} {q : ℚ} (hj : IsNearestEven j q) (hk : IsNearestEven k q) :
    j = k := by
  by_contra hne
  wlog hlt : j < k with hsymm
  · exact hsymm hk hj (Ne.symm hne) (by omega)
  have htie : |valueOf j - q| = |valueOf k - q| := le_antisymm (hj.nearest k) (hk.nearest j)
  obtain ⟨m, rfl⟩ := hj.even_of_tie k hlt.ne' htie.symm
  obtain ⟨n, rfl⟩ := hk.even_of_tie _ hlt.ne htie
  -- Two even magnitudes are no neighbours, and the one between them is nearer.
  have hmiddle : 2 * q ≤ valueOf (m + m) + valueOf (m + m + 1) :=
    (abs_sub_le_abs_sub_iff (valueOf_strictMono (by omega))).1 (hj.nearest _)
  have hhalf : valueOf (m + m) + valueOf (n + n) ≤ 2 * q :=
    (abs_sub_le_abs_sub_iff' (valueOf_strictMono hlt)).1 htie.ge
  have hstep : valueOf (m + m + 1) < valueOf (n + n) := valueOf_strictMono (by omega)
  linarith

section Quotient

variable {num den : Nat} (hden : 0 < den)
include hden

/-- Which quotients are rounded to at most a magnitude, said of their value. -/
theorem nearest_le_iff_div {k : Nat} :
    Binary64.nearest num den ≤ k ↔
      if k % 2 = 0 then 2 * ((num : ℚ) / den) ≤ valueOf k + valueOf (k + 1)
      else 2 * ((num : ℚ) / den) < valueOf k + valueOf (k + 1) := by
  have hden' : (0 : ℚ) < den := by exact_mod_cast hden
  have hone : (0 : ℚ) < one := by exact_mod_cast one_pos
  have hquotient : 2 * ((num : ℚ) / den) = ((2 * (num * one) : Nat) : ℚ) / (den * one) := by
    push_cast
    field_simp
  have hhalf : valueOf k + valueOf (k + 1) = ((halfway k * den : Nat) : ℚ) / (den * one) := by
    rw [valueOf_eq, valueOf_eq, halfway]
    push_cast
    field_simp
  have hpos : (0 : ℚ) < den * one := mul_pos hden' hone
  rw [nearest_le_iff hden, hquotient, hhalf, div_le_div_iff_of_pos_right hpos,
    div_lt_div_iff_of_pos_right hpos, Nat.cast_le, Nat.cast_lt]

/-- A number is past the point half way from any smaller magnitude to the one that is found, or at
that point if the one that is found is even. -/
theorem add_le_of_lt_nearest {j k : Nat} (hk : Binary64.nearest num den = k) (hj : j < k) :
    if k % 2 = 0 then valueOf j + valueOf k ≤ 2 * ((num : ℚ) / den)
    else valueOf j + valueOf k < 2 * ((num : ℚ) / den) := by
  have hnot : ¬ Binary64.nearest num den ≤ k - 1 := by omega
  have hle : valueOf j ≤ valueOf (k - 1) := valueOf_strictMono.monotone (by omega)
  rw [nearest_le_iff_div hden, show k - 1 + 1 = k by omega] at hnot
  rcases Nat.mod_two_eq_zero_or_one k with heven | hodd
  · rw [if_neg (by omega)] at hnot
    rw [if_pos heven]
    linarith
  · rw [if_pos (by omega)] at hnot
    rw [if_neg (by omega)]
    linarith

/-- The same for larger magnitudes. -/
theorem le_add_of_nearest_lt {j k : Nat} (hk : Binary64.nearest num den = k) (hj : k < j) :
    if k % 2 = 0 then 2 * ((num : ℚ) / den) ≤ valueOf k + valueOf j
    else 2 * ((num : ℚ) / den) < valueOf k + valueOf j := by
  have hnext := (nearest_le_iff_div hden).1 hk.le
  have hle : valueOf (k + 1) ≤ valueOf j := valueOf_strictMono.monotone hj
  split_ifs at hnext ⊢ <;> linarith

/-- The rounding of quotients is the one to the nearest magnitude, ties to even. -/
theorem isNearestEven_nearest : IsNearestEven (Binary64.nearest num den) ((num : ℚ) / den) := by
  generalize hk : Binary64.nearest num den = k
  constructor
  · intro j
    rcases Nat.lt_trichotomy j k with hlt | rfl | hgt
    · refine (abs_sub_le_abs_sub_iff' (valueOf_strictMono hlt)).2 ?_
      have h := add_le_of_lt_nearest hden hk hlt
      split_ifs at h <;> linarith
    · exact le_rfl
    · refine (abs_sub_le_abs_sub_iff (valueOf_strictMono hgt)).2 ?_
      have h := le_add_of_nearest_lt hden hk hgt
      split_ifs at h <;> linarith
  · intro j hj htie
    -- An odd magnitude is strictly nearer than its neighbours.
    by_contra hodd
    rw [Nat.even_iff] at hodd
    rcases Nat.lt_or_gt_of_ne hj with hlt | hgt
    · have h := add_le_of_lt_nearest hden hk hlt
      have htie' := (abs_sub_le_abs_sub_iff (valueOf_strictMono hlt)).1 htie.le
      rw [if_neg hodd] at h
      linarith
    · have h := le_add_of_nearest_lt hden hk hgt
      have htie' := (abs_sub_le_abs_sub_iff' (valueOf_strictMono hgt)).1 htie.le
      rw [if_neg hodd] at h
      linarith

theorem isNearestEven_div_iff {k : Nat} :
    IsNearestEven k ((num : ℚ) / den) ↔ Binary64.nearest num den = k := by
  constructor
  · exact (isNearestEven_nearest hden).unique
  · rintro rfl
    exact isNearestEven_nearest hden

/-- The largest finite magnitude is odd, so the number half way to the next is rounded up. -/
theorem nearest_lt_infinite_iff :
    Binary64.nearest num den < infinite ↔ (num : ℚ) / den < 2 ^ 1024 - 2 ^ 970 := by
  have hone : (one : ℚ) ≠ 0 := by exact_mod_cast one_pos.ne'
  have hunits : units (infinite - 1) + units (infinite - 1 + 1) + 2 * 2 ^ 970 * one =
      2 * 2 ^ 1024 * one := by
    decide +kernel
  have hhalf : valueOf (infinite - 1) + valueOf (infinite - 1 + 1) = 2 * (2 ^ 1024 - 2 ^ 970) := by
    rw [valueOf_eq, valueOf_eq, ← add_div, div_eq_iff hone, ← Nat.cast_add, mul_sub, sub_mul,
      eq_sub_iff_add_eq]
    have hcast := congrArg (Nat.cast : Nat → ℚ) hunits
    simpa only [Nat.cast_add, Nat.cast_mul, Nat.cast_pow, Nat.cast_ofNat] using hcast
  have hodd : ¬ (infinite - 1) % 2 = 0 := by decide
  rw [Nat.lt_iff_le_pred (by decide), nearest_le_iff_div hden, if_neg hodd,
    hhalf, mul_lt_mul_iff_right₀ two_pos]

end Quotient

end RecordFilter.Number.Binary64
