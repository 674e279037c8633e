import Mathlib
import RecordFilter.Proofs.IntegerOperand
import RecordFilter.Proofs.Json.FloatText
import RecordFilter.Proofs.Json.Magnitude
import RecordFilter.Proofs.Number.Closeness

/-!
# How near the float that is read is

The reader of numbers rounds more than once: the significand, the power of ten, and what it gets of
the two, which takes two divisions if the power is large.  So the float that is read need not be the
one nearest to the digits that are read.  It is never more than four steps from it
(`exists_magnitude?_scaled`), and it is that one where the significand and the power are floats
themselves (`magnitude?_of_isExact`).

Each rounding changes a value by a factor that is hardly more than one.  The exception are results
that are too small to have all their bits.  The first of two divisions can give such a one, but then
the second makes it so small that an error of many roundings is no more than one step
(`near_of_small`).

What is too large for the reader need not be too large for a float.  Seventeen digits are read up to
the float before the largest: `grow_isSome`.
-/

namespace RecordFilter.Json

open Number Binary64 Decimal

/-- Whether no more than `n` steps lie between two magnitudes. -/
def Near (n j k : Nat) : Prop :=
  j ≤ k + n ∧ k ≤ j + n

theorem Near.mono {i n j k : Nat} (h : Near i j k) (hin : i ≤ n) : Near n j k :=
  ⟨h.1.trans (Nat.add_le_add_left hin k), h.2.trans (Nat.add_le_add_left hin j)⟩

theorem Near.refl (n k : Nat) : Near n k k :=
  ⟨Nat.le_add_right k n, Nat.le_add_right k n⟩

theorem Near.trans {i j a b c : Nat} (h : Near i a b) (h' : Near j b c) : Near (i + j) a c := by
  obtain ⟨hab, hba⟩ := h
  obtain ⟨hbc, hcb⟩ := h'
  constructor <;> omega

namespace Numeral

/-! ## Significands and powers -/

/-- Digits that fit sixty-four bits are all read. -/
theorem scaled_eq_of_lt {t : Numeral} (h : t.significand < UInt64.size) :
    t.scaled = (t.significand, t.scale) := by
  have happend : appended (appended 0 t.whole) t.fraction = t.significand := by
    rw [significand, ofDigits, List.foldl_append]
    rfl
  have hwhole : appendFitting 0 t.whole = (appended 0 t.whole, []) := by
    apply appendFitting_of_lt
    have hle := le_appended (appended 0 t.whole) t.fraction
    omega
  have hfraction : appendFitting (appended 0 t.whole) t.fraction = (t.significand, []) := by
    rw [appendFitting_of_lt (by omega), happend]
  rw [scaled, hwhole]
  dsimp only
  rw [hfraction, scale]
  simp
  omega

theorem value_scaled (m : Nat) (e : Int) :
    value (m * (powerOfTen e).1) (powerOfTen e).2 = scaledUnits m e := by
  have hden : ((powerOfTen e).2 : ℚ) ≠ 0 := by exact_mod_cast (powerOfTen_pos e).2.ne'
  rw [value, div_eq_iff hden, scaledUnits_mul_den]
  push_cast
  rfl

theorem close_nearest_one (m : Nat) : Close 1 (units (nearest m 1)) (m * one) := by
  have hvalue : value m 1 = m * one := by
    rw [value, Nat.cast_one, div_one]
  rcases Nat.eq_zero_or_pos m with rfl | hm
  · have hzero := units_nearest (Nat.zero_le (2 ^ 53))
    rw [hzero, Nat.zero_mul, Nat.cast_zero, zero_mul]
    exact .of_eq (le_refl 0) rfl
  · rw [← hvalue]
    apply close_nearest Nat.one_pos
    have hone : binade ≤ one := by decide
    rw [le_value_iff Nat.one_pos, Nat.mul_one]
    exact hone.trans (Nat.le_mul_of_pos_left one hm)

theorem close_power (e : Nat) : Close 1 (units (power e)) (10 ^ e * one) := by
  have hclose := close_nearest_one (tenTo e)
  rw [tenTo_eq, Nat.cast_pow, Nat.cast_ofNat] at hclose
  exact hclose

/-- The powers of ten that are floats. -/
theorem units_power_of_le {e : Nat} (he : e ≤ 22) : units (power e) = tenTo e * one := by
  have hall : ∀ e < 23, units (power e) = tenTo e * one := by decide +kernel
  exact hall e (by omega)

/-- The powers of ten at which the cases below change, against the unit and the largest float. -/
theorem maxPower_bounds :
    3 * 2 ^ 49 * tenTo maxPower ≤ 10 ^ 0 * one ∧ UInt64.size * one ≤ 2 ^ 49 * 10 ^ 331 ∧
      2 * (UInt64.size * one) ≤ 10 ^ (maxPower + maxPower) ∧
      units infinite ≤ tenTo (maxPower + 1) * one := by
  decide +kernel

theorem units_power_pos (e : Nat) : 0 < units (power e) :=
  Binary64.one_pos.trans_le (one_le_units_power e)

/-! ## One multiplication or division -/

theorem powerOfTen_natCast (e : Nat) : powerOfTen e = (tenTo e, 1) := by
  rw [powerOfTen, if_pos (Int.natCast_nonneg e), Int.toNat_natCast]

theorem powerOfTen_neg {e : Nat} (he : 0 < e) : powerOfTen (-e) = (1, tenTo e) := by
  rw [powerOfTen, if_neg (by omega), neg_neg, Int.toNat_natCast]

theorem multiply_of_exact {m e : Nat} (hm : m ≤ 2 ^ 53) (he : e ≤ 22) :
    multiply (nearest m 1) (power e) = nearestScaled m e := by
  have hproduct : m * one * (tenTo e * one) = m * tenTo e * (one * one) := by ring
  rw [multiply, units_nearest hm, units_power_of_le he, hproduct, nearestScaled, powerOfTen_natCast]
  dsimp only
  rw [← nearest_scale (Nat.mul_pos Binary64.one_pos Binary64.one_pos) _ 1, Nat.one_mul]

theorem divide_of_exact {m e : Nat} (hm : m ≤ 2 ^ 53) (he : e ≤ 22) :
    divide (nearest m 1) (power e) = nearestScaled m (-e) := by
  rw [divide, units_nearest hm, units_power_of_le he, nearest_scale Binary64.one_pos]
  rcases Nat.eq_zero_or_pos e with rfl | hpos
  · exact (nearestScaled_zero m).symm
  · rw [nearestScaled, powerOfTen_neg hpos, Nat.mul_one]

theorem one_cast_pos : (0 : ℚ) < one := by
  exact_mod_cast Binary64.one_pos

theorem significand_nonneg (m : Nat) : (0 : ℚ) ≤ m * one :=
  mul_nonneg (Nat.cast_nonneg m) one_cast_pos.le

theorem power_pos (e : Nat) : (0 : ℚ) < 10 ^ e * one :=
  mul_pos (pow_pos (by norm_num) e) one_cast_pos

theorem units_power_cast_pos (e : Nat) : (0 : ℚ) < units (power e) := by
  exact_mod_cast units_power_pos e

theorem close_multiply (m e : Nat) :
    Close 2 (value (units (nearest m 1) * units (power e)) (one * one)) (scaledUnits m e) := by
  have hone := one_cast_pos
  have hpower := units_power_cast_pos e
  have hvalue : value (units (nearest m 1) * units (power e)) (one * one) =
      units (nearest m 1) * units (power e) / one := by
    rw [value]
    push_cast
    field_simp
  have hscaled : scaledUnits m e = m * one * (10 ^ e * one) / one := by
    rw [scaledUnits, zpow_natCast]
    field_simp
  rw [hvalue, hscaled]
  have hmul := (close_nearest_one m).mul (close_power e) (Nat.cast_nonneg _) (significand_nonneg m)
    hpower.le (power_pos e).le
  exact hmul.div (j := 0) (.of_eq hone.le rfl) (mul_nonneg (Nat.cast_nonneg _) hpower.le)
    (mul_nonneg (significand_nonneg m) (power_pos e).le) hone hone

/-- Dividing by a power of ten keeps what was close to a decimal close to it. -/
theorem close_quotient {k m e i j : Nat} {f : Int} (h : Close i (units k) (scaledUnits m f))
    (hpower : Close j (units (power e)) (10 ^ e * one)) :
    Close (i + j) (value (units k) (units (power e))) (scaledUnits m (f - e)) := by
  have hone := one_cast_pos
  have hpos := units_power_cast_pos e
  have hvalue : value (units k) (units (power e)) = units k / units (power e) * one := by
    rw [value]
    ring
  have hscaled : scaledUnits m (f - e) = scaledUnits m f / (10 ^ e * one) * one := by
    rw [scaledUnits, scaledUnits, zpow_sub₀ (by norm_num), zpow_natCast]
    field_simp
  have hnonneg := scaledUnits_nonneg m f
  rw [hvalue, hscaled]
  have hdiv := h.div hpower (Nat.cast_nonneg _) hnonneg hpos (power_pos e)
  exact hdiv.mul (j := 0) (.of_eq hone.le rfl) (div_nonneg (Nat.cast_nonneg _) hpos.le)
    (div_nonneg hnonneg (power_pos e).le) hone.le hone.le

theorem close_significand (m : Nat) : Close 1 (units (nearest m 1)) (scaledUnits m 0) := by
  have hclose := close_nearest_one m
  rw [scaledUnits, zpow_zero, mul_one]
  exact hclose

theorem close_divide (m e : Nat) :
    Close 2 (value (units (nearest m 1)) (units (power e))) (scaledUnits m (-e)) := by
  have hquotient := close_quotient (close_significand m) (close_power e)
  rw [zero_sub] at hquotient
  exact hquotient

/-- A value with so few roundings between it and a decimal is rounded near the decimal. -/
theorem near_of_close {num den m i : Nat} {e : Int} (hi : i ≤ 4) (hden : 0 < den)
    (h : Close i (value num den) (scaledUnits m e)) :
    Near (i + 1) (nearest num den) (nearestScaled m e) := by
  rw [← value_scaled] at h
  exact ⟨nearest_le_of_close hi (powerOfTen_pos e).2 hden h,
    nearest_le_of_close hi hden (powerOfTen_pos e).2 h.symm⟩

theorem near_multiply (m e : Nat) :
    Near 3 (multiply (nearest m 1) (power e)) (nearestScaled m e) :=
  near_of_close (by decide) (Nat.mul_pos Binary64.one_pos Binary64.one_pos) (close_multiply m e)

theorem near_divide (m e : Nat) :
    Near 3 (divide (nearest m 1) (power e)) (nearestScaled m (-e)) :=
  near_of_close (by decide) (units_power_pos e) (close_divide m e)

/-! ## Two divisions -/

/-- The first of two divisions gives a float with almost all its bits, since a significand is not less
than one. -/
theorem close_first_division {m : Nat} (hm : 0 < m) :
    Close 7 (units (divide (nearest m 1) (power maxPower))) (scaledUnits m (-maxPower)) := by
  have hclose := close_divide m maxPower
  have hunit : (3 * 2 ^ 49 : ℚ) ≤ scaledUnits 1 (-maxPower) := by
    have hten : (0 : ℚ) < tenTo maxPower := by exact_mod_cast tenTo_pos maxPower
    have hexponent : (-maxPower : Int) = (0 : Nat) - maxPower := by simp
    have hvalue := ShortDecimal.scaledUnits_one_mul_tenTo hexponent
    have hle := maxPower_bounds.1
    rw [← mul_le_mul_iff_left₀ hten, hvalue]
    exact_mod_cast hle
  have hscaled : scaledUnits 1 (-maxPower) ≤ scaledUnits m (-maxPower) := by
    rw [scaledUnits_eq_mul m]
    exact le_mul_of_one_le_left (scaledUnits_nonneg 1 _) (by exact_mod_cast hm)
  have hlarge : (2 : ℚ) ^ 50 ≤ value (units (nearest m 1)) (units (power maxPower)) := by
    have hpow : roundoff ^ 2 ≤ 3 / 2 := by norm_num [roundoff]
    have hmul := mul_le_mul_of_nonneg_left hpow
      (value_nonneg (units (nearest m 1)) (units (power maxPower)))
    have hupper := hclose.2
    linarith
  -- given the bound at once, `exact` would unfold both sides to find how it splits
  have hfirst := (close_nearest_of_le (units_power_pos maxPower) hlarge).trans hclose
  exact hfirst

/-- The first of two divisions gives a float with all its bits if it is not too small. -/
theorem close_first_division_of_le {m : Nat}
    (h : binade ≤ value (units (nearest m 1)) (units (power maxPower))) :
    Close 3 (units (divide (nearest m 1) (power maxPower))) (scaledUnits m (-maxPower)) := by
  have hfirst := (close_nearest (units_power_pos maxPower) h).trans (close_divide m maxPower)
  exact hfirst

theorem scaledUnits_mul_pow_le {n e : Nat} (h : n ≤ e) (m : Nat) :
    scaledUnits m (-e) * 10 ^ n ≤ m * one := by
  have hpow : (0 : ℚ) < 10 ^ n := by positivity
  have hmono : scaledUnits m (-e) ≤ scaledUnits m (-n) := scaledUnits_mono m (by omega)
  have hvalue : scaledUnits m (-n) * 10 ^ n = m * one := by
    rw [scaledUnits, zpow_neg, zpow_natCast]
    field_simp
  rw [← hvalue]
  exact mul_le_mul_of_nonneg_right hmono hpow.le

/-- Dividing sixty-four bits by so large a power of ten leaves little. -/
theorem scaledUnits_le_of_le {m e : Nat} (hm : m < UInt64.size) (he : 331 ≤ e) :
    scaledUnits m (-e) ≤ 2 ^ 49 := by
  have hlarge : m * one ≤ 2 ^ 49 * 10 ^ 331 := by
    have hsize := maxPower_bounds.2.1
    exact (Nat.mul_le_mul_right one hm.le).trans hsize
  have hlarge' : (m * one : ℚ) ≤ 2 ^ 49 * 10 ^ 331 := by exact_mod_cast hlarge
  have hpow : (0 : ℚ) < 10 ^ 331 := by norm_num
  rw [← mul_le_mul_iff_left₀ hpow]
  exact (scaledUnits_mul_pow_le he m).trans hlarge'

/-- Values that many roundings lie between, if they are small, are rounded to neighbours. -/
theorem near_of_small {num den m : Nat} {e : Int} (hden : 0 < den)
    (hsmall : scaledUnits m e ≤ 2 ^ 49) (h : Close 8 (value num den) (scaledUnits m e)) :
    Near 1 (nearest num den) (nearestScaled m e) := by
  have hpow : roundoff ^ 8 ≤ 3 / 2 := by norm_num [roundoff]
  have hsmall' : value num den ≤ 3 * 2 ^ 48 := by
    have hmul := mul_le_mul hsmall hpow (roundoff_pow_pos 8).le (by norm_num)
    have hupper := h.1
    linarith
  rw [← value_scaled] at h hsmall
  have hden' := (powerOfTen_pos e).2
  exact ⟨nearest_le_succ_of_close hden' hden (by linarith) h,
    nearest_le_succ_of_close hden hden' hsmall' h.symm⟩

/-- What is left of a magnitude that has too few bits, after one more digit. -/
theorem scaledUnits_le_of_first {m e : Nat} (he : 0 < e)
    (h : value (units (nearest m 1)) (units (power maxPower)) < binade) :
    scaledUnits m (-maxPower - e) ≤ 2 ^ 49 := by
  have hbinade : (binade : ℚ) = 2 ^ 52 := by
    rw [show binade = 2 ^ 52 by decide]
    norm_num
  have hpow : roundoff ^ 2 ≤ 5 / 4 := by norm_num [roundoff]
  have hfirst : scaledUnits m (-maxPower) ≤ 2 ^ 52 * (5 / 4) := by
    rw [hbinade] at h
    exact (close_divide m maxPower).2.trans
      (mul_le_mul h.le hpow (roundoff_pow_pos 2).le (by norm_num))
  have hmono : scaledUnits m (-maxPower - e) ≤ scaledUnits m (-maxPower - 1) :=
    scaledUnits_mono m (by omega)
  have hten : scaledUnits m (-maxPower) = scaledUnits m (-maxPower - 1) * 10 := by
    rw [scaledUnits, scaledUnits, zpow_sub_one₀ (by norm_num)]
    field_simp
  linarith

theorem near_divide_divide {m e : Nat} (hm : m < UInt64.size) (hpos : 0 < m) (he : 0 < e) :
    Near 4 (divide (divide (nearest m 1) (power maxPower)) (power e))
      (nearestScaled m (-maxPower - e)) := by
  have hexponent : (-maxPower - e : Int) = -(maxPower + e : Nat) := by
    push_cast
    ring
  rcases le_or_gt (scaledUnits m (-maxPower - e)) (2 ^ 49) with hsmall | hlarge
  · have hclose := close_quotient (close_first_division hpos) (close_power e)
    exact (near_of_small (units_power_pos e) hsmall hclose).mono (by decide)
  · have hexact : e ≤ 22 := by
      by_contra hlt
      have hle := scaledUnits_le_of_le (e := maxPower + e) hm (by unfold maxPower; omega)
      rw [← hexponent] at hle
      exact absurd hle (not_le.2 hlarge)
    have hfirst : binade ≤ value (units (nearest m 1)) (units (power maxPower)) := by
      by_contra hlt
      exact absurd (scaledUnits_le_of_first he (not_le.1 hlt)) (not_le.2 hlarge)
    have hpower : Close 0 (units (power e)) (10 ^ e * one) := by
      apply Close.of_eq (Nat.cast_nonneg _)
      rw [units_power_of_le hexact, tenTo_eq]
      push_cast
      rfl
    have hclose := close_quotient (close_first_division_of_le hfirst) hpower
    exact near_of_close (by decide) (units_power_pos e) hclose

/-! ## All of the power -/

theorem nearest_zero_one : nearest 0 1 = 0 :=
  nearest_of_units_eq (by rw [units_zero, Nat.zero_mul])

theorem shrink_of_le {e : Nat} (he : e ≤ maxPower) (k : Nat) : shrink k e = divide k (power e) := by
  rw [shrink, if_pos he]

theorem shrink_add {e : Nat} (he : 0 < e) (k : Nat) :
    shrink k (maxPower + e) = shrink (divide k (power maxPower)) e := by
  by_cases hk : k = 0
  · have hle := shrink_le (divide 0 (power maxPower)) e
    have hdivide := divide_power_le 0 maxPower
    rw [hk, shrink, if_neg (by omega), if_pos rfl]
    omega
  · rw [shrink, if_neg (by omega), if_neg hk, Nat.add_sub_cancel_left]

theorem nearestScaled_eq_zero_of_le {m : Nat} {e : Int} (h : 2 * scaledUnits m e ≤ 1) :
    nearestScaled m e = 0 := by
  have hhalf : (halfway 0 : ℚ) = 1 := by
    rw [show halfway 0 = 1 by decide, Nat.cast_one]
  rw [← Nat.le_zero, nearestScaled_le_iff, if_pos (Nat.zero_mod 2), hhalf]
  exact h

/-- Dividing sixty-four bits by an even larger power leaves nothing. -/
theorem nearestScaled_eq_zero {m e : Nat} (hm : m < UInt64.size) (he : maxPower + maxPower ≤ e) :
    nearestScaled m (-e) = 0 := by
  have hlarge : 2 * (m * one) ≤ 10 ^ (maxPower + maxPower) := by
    have hsize := maxPower_bounds.2.2.1
    exact (Nat.mul_le_mul_left 2 (Nat.mul_le_mul_right one hm.le)).trans hsize
  have hlarge' : 2 * (m * one : ℚ) ≤ 10 ^ (maxPower + maxPower) := by exact_mod_cast hlarge
  have hpow : (0 : ℚ) < 10 ^ (maxPower + maxPower) := by positivity
  have hvalue := scaledUnits_mul_pow_le he m
  apply nearestScaled_eq_zero_of_le
  rw [← mul_le_mul_iff_left₀ hpow]
  linarith

/-- Dividing by powers of ten ends near the float that is nearest. -/
theorem near_shrink {m : Nat} (hm : m < UInt64.size) (e : Nat) :
    Near 4 (shrink (nearest m 1) e) (nearestScaled m (-e)) := by
  rcases Nat.eq_zero_or_pos m with rfl | hpos
  · rw [nearest_zero_one, nearestScaled_zero_left, Nat.le_zero.1 (shrink_le 0 e)]
    exact .refl 4 0
  rcases Nat.lt_or_ge maxPower e with hmore | hle
  · obtain ⟨f, rfl⟩ := Nat.exists_eq_add_of_le hmore.le
    have hf : 0 < f := by omega
    have htwo : (-(maxPower + f : Nat) : Int) = -maxPower - f := by
      push_cast
      ring
    rw [shrink_add hf]
    rcases Nat.lt_or_ge maxPower f with hmore' | hle'
    · -- what is left after two divisions is near zero already
      obtain ⟨g, rfl⟩ := Nat.exists_eq_add_of_le hmore'.le
      have hrest := near_divide_divide hm hpos (e := maxPower) (by decide)
      have hzero := nearestScaled_eq_zero (e := maxPower + maxPower) hm (Nat.le_refl _)
      rw [show (-(maxPower + maxPower : Nat) : Int) = -maxPower - maxPower by decide] at hzero
      rw [hzero] at hrest
      rw [shrink_add (by omega), nearestScaled_eq_zero hm (by omega)]
      exact ⟨(shrink_le _ _).trans hrest.1, Nat.zero_le _⟩
    · rw [shrink_of_le hle', htwo]
      exact near_divide_divide hm hpos hf
  · rw [shrink_of_le hle]
    exact (near_divide m e).mono (by decide)

/-! ## Overflow -/

/-- A magnitude, unless it is too large to be finite. -/
def within? (k : Nat) : Option Nat :=
  if k < infinite then some k else none

theorem within?_of_lt {k : Nat} (h : k < infinite) : within? k = some k :=
  if_pos h

theorem within?_of_le {k : Nat} (h : infinite ≤ k) : within? k = none :=
  if_neg (Nat.not_lt.2 h)

theorem multiply_zero (k : Nat) : multiply 0 k = 0 := by
  rw [multiply, units_zero, Nat.zero_mul]
  exact Nat.le_zero.1 (nearest_le (Nat.mul_pos Binary64.one_pos Binary64.one_pos) (by simp))

/-- The next power of ten is too large already. -/
theorem infinite_le_nearestScaled {m : Nat} {e : Int} (hm : 0 < m) (he : maxPower < e) :
    infinite ≤ nearestScaled m e := by
  obtain ⟨e, rfl⟩ := Int.eq_ofNat_of_zero_le (show 0 ≤ e by omega)
  have hunits := maxPower_bounds.2.2.2
  have hten : tenTo (maxPower + 1) ≤ tenTo e := tenTo_mono (by omega)
  have hpower : tenTo (maxPower + 1) * one ≤ m * (tenTo e * one) :=
    (Nat.mul_le_mul_right one hten).trans (Nat.le_mul_of_pos_left _ hm)
  rw [nearestScaled, powerOfTen_natCast]
  apply le_nearest Nat.one_pos
  rw [Nat.mul_one, Nat.mul_assoc]
  exact hunits.trans hpower

/-- Multiplying by a power of ten ends near the float that is nearest, unless that is too large. -/
theorem exists_grow (m e : Nat) :
    ∃ j, Near 4 j (nearestScaled m e) ∧ grow (nearest m 1) e = within? j := by
  have hnear := (near_multiply m e).mono (show 3 ≤ 4 by decide)
  unfold grow
  split
  · next hzero =>
    rw [hzero, multiply_zero] at hnear
    exact ⟨0, hnear, (within?_of_lt (by decide)).symm⟩
  split
  · exact ⟨_, hnear, rfl⟩
  · next hzero hmore =>
    have hm : 0 < m := by
      by_contra hm
      rw [Nat.eq_zero_of_not_pos hm, nearest_zero_one] at hzero
      exact hzero rfl
    have hlarge := infinite_le_nearestScaled hm (Int.ofNat_lt.2 (Nat.not_le.1 hmore))
    exact ⟨_, .refl 4 _, (within?_of_le hlarge).symm⟩

/-- Seventeen digits are not too large if the float nearest to the number is neither too large nor
the largest: for the last powers of ten, what is too large follows from the number. -/
theorem grow_isSome {m e : Nat} (hm : m ≤ tenTo 17) (h : nearestScaled m e + 1 < infinite) :
    (grow (nearest m 1) e).isSome := by
  rcases Nat.lt_or_ge e 292 with hsmall | hlarge
  · have hpower : (grow (nearest (tenTo 17) 1) 291).isSome := by decide +kernel
    exact grow_isSome_of_le (nearest_mono Nat.one_pos hm) (by omega) hpower
  rcases Nat.eq_zero_or_pos m with rfl | hpos
  · rw [nearest_zero_one, grow, if_pos rfl]
    rfl
  have he : e ≤ maxPower := by
    by_contra hmore
    have hinfinite := infinite_le_nearestScaled hpos (Int.ofNat_lt.2 (Nat.not_le.1 hmore))
    omega
  have hdigits : m ≤ halfway (infinite - 2) / (2 * (tenTo e * one)) := by
    have hle : nearestScaled m e ≤ infinite - 2 := by omega
    have heven : (infinite - 2) % 2 = 0 := by decide
    rw [nearestScaled, powerOfTen_natCast, nearest_le_iff Nat.one_pos, if_pos heven,
      Nat.mul_one] at hle
    rw [Nat.le_div_iff_mul_le (Nat.mul_pos (by decide) (Nat.mul_pos (tenTo_pos e) Binary64.one_pos)),
      ← Nat.mul_assoc, Nat.mul_comm m 2, Nat.mul_assoc, ← Nat.mul_assoc m]
    exact hle
  have hpowers : ∀ e ≤ maxPower, 292 ≤ e →
      (grow (nearest (halfway (infinite - 2) / (2 * (tenTo e * one))) 1) e).isSome := by
    decide +kernel
  exact grow_isSome_of_le (nearest_mono Nat.one_pos hdigits) (Nat.le_refl e) (hpowers e he hlarge)

theorem grow_of_exact {m e : Nat} (hm : m ≤ 2 ^ 53) (he : e ≤ 22) :
    grow (nearest m 1) e = some (nearestScaled m e) := by
  have hlarge : multiply (nearest (2 ^ 53) 1) (power 22) < infinite := by decide +kernel
  have hfinite := (multiply_mono (nearest_mono Nat.one_pos hm) (power_mono he)).trans_lt hlarge
  unfold grow
  split
  · next hzero =>
    rw [← multiply_of_exact hm he, hzero, multiply_zero]
  · rw [← multiply_of_exact hm he, if_pos (he.trans (by decide)), if_pos hfinite]

/-! ## Tokens -/

/-- Whether the significand and the power of ten of a token are both floats. -/
def IsExact (t : Numeral) : Prop :=
  t.significand ≤ 2 ^ 53 ∧ t.scale.natAbs ≤ 22

instance (t : Numeral) : Decidable t.IsExact :=
  inferInstanceAs (Decidable (_ ∧ _))

variable {t : Numeral}

/-- The float that is read is near the one that is nearest to the digits that are read. -/
theorem exists_magnitude?_scaled (t : Numeral) :
    ∃ j, Near 4 j (nearestScaled t.scaled.1 t.scaled.2) ∧ t.magnitude? = within? j := by
  rw [magnitude?_eq]
  split
  · next hscale =>
    obtain ⟨e, he⟩ := Int.eq_ofNat_of_zero_le hscale
    rw [he, Int.toNat_natCast]
    exact exists_grow t.scaled.1 e
  · next hscale =>
    obtain ⟨e, he⟩ := Int.eq_ofNat_of_zero_le (show 0 ≤ -t.scaled.2 by omega)
    have hfits := t.significand_lt
    have hfinite := (shrink_le (nearest t.scaled.1 1) e).trans_lt (nearest_lt_infinite hfits.le)
    rw [he, Int.toNat_natCast, show t.scaled.2 = -e by omega]
    exact ⟨_, near_shrink hfits e, (within?_of_lt hfinite).symm⟩

/-- If all digits are read, the float that is read is near the one that is nearest to the number. -/
theorem near_magnitude? (hm : t.significand < UInt64.size) {k : Nat} (h : t.magnitude? = some k) :
    Near 4 k (nearestScaled t.significand t.scale) := by
  obtain ⟨j, hnear, hmagnitude⟩ := t.exists_magnitude?_scaled
  rw [h, within?] at hmagnitude
  rw [scaled_eq_of_lt hm] at hnear
  split at hmagnitude
  · rw [Option.some.inj hmagnitude]
    exact hnear
  · cases hmagnitude

/-- The float that is read is the nearest one where the significand and the power are exact. -/
theorem magnitude?_of_isExact (h : t.IsExact) :
    t.magnitude? = some (nearestScaled t.significand t.scale) := by
  obtain ⟨hm, he⟩ := h
  have hsize : t.significand < UInt64.size := by
    unfold UInt64.size
    omega
  rw [magnitude?_eq, scaled_eq_of_lt hsize]
  dsimp only
  split
  · next hscale =>
    obtain ⟨e, hscale'⟩ := Int.eq_ofNat_of_zero_le hscale
    have he' : e ≤ 22 := by omega
    rw [hscale', Int.toNat_natCast, grow_of_exact hm he']
  · next hscale =>
    obtain ⟨e, hscale'⟩ := Int.eq_ofNat_of_zero_le (show 0 ≤ -t.scale by omega)
    have he' : e ≤ 22 := by omega
    rw [hscale', Int.toNat_natCast, shrink_of_le (by unfold maxPower; omega),
      divide_of_exact hm he', show t.scale = -e by omega]

/-- Zero digits give zero, whatever the power of ten. -/
theorem magnitude?_of_significand_eq_zero (h : t.significand = 0) : t.magnitude? = some 0 := by
  have hsize : t.significand < UInt64.size := by
    rw [h]
    decide
  rw [magnitude?_eq, scaled_eq_of_lt hsize, h, nearest_zero_one]
  dsimp only
  split
  · rw [grow, if_pos rfl]
  · rw [Nat.le_zero.1 (shrink_le 0 _)]

end Numeral

end RecordFilter.Json
