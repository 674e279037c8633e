import Mathlib
import RecordFilter.Proofs.CompileOutcome
import RecordFilter.Proofs.LiteralText
import RecordFilter.Proofs.Number.NearestEven

/-!
# Floats as operands of whole fields

A float fits an `int` field if it is a whole number of sixty-four bits, and then as that number.

`toInt?` says so with the multiples of the smallest magnitude.  The same can be asked of the
float with the operations of its own format: it is finite, it is left as it is when the digits
after the point are dropped, it lies from `-2 ^ 63` up to but not at `2 ^ 63`, and the result is
its conversion, which stops at the two ends of the range (`toInt?_float_eq_guard`).  The upper end of the
range is no float, which is why the test is against the number after it.
-/

namespace RecordFilter.Number.Binary64

/-! ## Operations of the format -/

/-- The whole part of a finite float. -/
def wholePart (x : Binary64) : Int :=
  let m : Nat := units x.magnitude.toNat / one
  if x.negative then -m else m

/-- A float without the digits after its point. -/
def truncated (x : Binary64) : Binary64 :=
  if x.isFinite then ofMagnitude x.negative (nearest (units x.magnitude.toNat / one) 1) else x

/-- The conversion of a float to sixty-four bits: toward zero, to an end of the range for what is
beyond it, and to zero for what is not a number. -/
def toInt64 (x : Binary64) : Int64 :=
  if x.isNaN then 0 else .ofInt (max (-2 ^ 63) (min x.wholePart (2 ^ 63 - 1)))

theorem ofInt_outer : ofInt (2 ^ 63) = ofMagnitude false outer := by
  have habs : (2 ^ 63 : Int).natAbs = 2 ^ 63 := rfl
  rw [ofInt, ofRatio, habs, nearest_of_units_eq units_outer]
  rfl

theorem ofInt_neg_outer : ofInt (-2 ^ 63) = ofMagnitude true outer := by
  have habs : (-2 ^ 63 : Int).natAbs = 2 ^ 63 := rfl
  rw [ofInt, ofRatio, habs, nearest_of_units_eq units_outer]
  rfl

/-! ## Whole numbers -/

/-- From `2 ^ 53` on, all magnitudes are whole numbers. -/
theorem units_mod_one_eq_zero {k : Nat} (h : 2 ^ 53 * one ≤ units k) : units k % one = 0 := by
  have hk : 1076 * binade ≤ k := by
    by_contra hlt
    have hunits : units (1076 * binade) = 2 ^ 53 * one := by decide +kernel
    have := units_strictMono (Nat.not_le.1 hlt)
    omega
  have hbinade : ¬ k < binade := by
    have := binade_pos
    omega
  have hexponent : 1076 ≤ k / binade := (Nat.le_div_iff_mul_le binade_pos).2 hk
  have hdvd : ∀ s ≤ k / binade - 1, 1 <<< s ∣ 2 ^ (k / binade - 1) := by
    intro s hs
    rw [Nat.one_shiftLeft]
    exact Nat.pow_dvd_pow 2 hs
  rw [units, if_neg hbinade, Nat.shiftLeft_eq]
  exact Nat.mod_eq_zero_of_dvd ((hdvd 1074 (by omega)).mul_left _)

/-- Dropping the digits after the point leaves a finite float as it is if it is whole. -/
theorem truncated_equal_iff {x : Binary64} (hx : x.isFinite) :
    x.truncated.equal x = true ↔ units x.magnitude.toNat % one = 0 := by
  have hk : x.magnitude.toNat < infinite := of_decide_eq_true hx
  have hnan := isNaN_eq_false hx
  have hrank : x.truncated.rank = x.rank ↔
      min (nearest (units x.magnitude.toNat / one) 1) infinite = x.magnitude.toNat := by
    rw [truncated, if_pos hx, rank_ofMagnitude, rank]
    split <;> omega
  have hequal : x.truncated.equal x = true ↔ x.truncated.rank = x.rank := by
    have htruncated : x.truncated.isNaN = false := by
      rw [truncated, if_pos hx]
      exact isNaN_ofMagnitude _ _
    simp [equal, hnan, htruncated]
  rw [hequal, hrank]
  constructor
  · intro hmin
    rcases Nat.lt_or_ge (units x.magnitude.toNat) (2 ^ 53 * one) with hlt | hge
    · have hle : units x.magnitude.toNat / one ≤ 2 ^ 53 := (Nat.div_lt_of_lt_mul (by
        rwa [Nat.mul_comm])).le
      have hunits := units_nearest hle
      rw [show nearest (units x.magnitude.toNat / one) 1 = x.magnitude.toNat by omega] at hunits
      rw [hunits, Nat.mul_mod_left]
    · exact units_mod_one_eq_zero hge
  · intro hmod
    have hwhole : units x.magnitude.toNat = units x.magnitude.toNat / one * one :=
      (Nat.div_mul_cancel (Nat.dvd_of_mod_eq_zero hmod)).symm
    rw [nearest_of_units_eq hwhole, Nat.min_eq_left hk.le]

theorem toInt?_eq_some_wholePart {x : Binary64} (hx : x.isFinite)
    (hwhole : units x.magnitude.toNat % one = 0) : x.toInt? = some x.wholePart :=
  if_pos ⟨hx, hwhole⟩

/-- The comparisons with the two ends of the range, for a float that is whole. -/
theorem less_outer_iff {x : Binary64} (hx : x.isFinite)
    (hwhole : units x.magnitude.toNat % one = 0) :
    (x.less (ofInt (-2 ^ 63)) = false ↔ -2 ^ 63 ≤ x.wholePart) ∧
      (x.less (ofInt (2 ^ 63)) = true ↔ x.wholePart ≤ 2 ^ 63 - 1) := by
  have hnan := isNaN_eq_false hx
  have houter : min outer infinite = outer := by decide
  have hpos : 0 < outer := by decide
  have hunits : units x.magnitude.toNat = units x.magnitude.toNat / one * one :=
    (Nat.div_mul_cancel (Nat.dvd_of_mod_eq_zero hwhole)).symm
  have hmono : StrictMono units := fun _ _ => units_strictMono
  have hlt : x.magnitude.toNat < outer ↔ units x.magnitude.toNat / one < 2 ^ 63 := by
    rw [← hmono.lt_iff_lt, units_outer, hunits, Nat.mul_div_cancel _ one_pos]
    exact Nat.mul_lt_mul_right one_pos
  have hle : x.magnitude.toNat ≤ outer ↔ units x.magnitude.toNat / one ≤ 2 ^ 63 := by
    rw [← hmono.le_iff_le, units_outer, hunits, Nat.mul_div_cancel _ one_pos]
    exact Nat.mul_le_mul_right_iff one_pos
  have hlow : (ofMagnitude true outer).rank = -(outer : Int) := by
    rw [rank_ofMagnitude, houter, if_pos rfl]
  have hhigh : (ofMagnitude false outer).rank = outer := by
    rw [rank_ofMagnitude, houter, if_neg Bool.false_ne_true]
  have hless : ∀ negative,
      x.less (ofMagnitude negative outer) = true ↔ x.rank < (ofMagnitude negative outer).rank := by
    intro negative
    simp [less, hnan, isNaN_ofMagnitude]
  rw [ofInt_outer, ofInt_neg_outer, ← Bool.not_eq_true, hless, hless, hlow, hhigh, rank, wholePart]
  generalize units x.magnitude.toNat / one = m at *
  split <;> omega

/-- A finite float is a whole number if the number that it denotes is one. -/
theorem toInt?_eq_some_iff {x : Binary64} {i : Int} :
    x.toInt? = some i ↔ x.isFinite = true ∧ x.toRat = i := by
  have hone : (one : ℚ) ≠ 0 := Nat.cast_ne_zero.2 one_pos.ne'
  have hdenotes : ∀ j, x.toInt? = some j → x.isFinite = true ∧ x.toRat = j := by
    intro j hj
    have hx : x.isFinite = true := by
      rw [toInt?] at hj
      split at hj
      · next h => exact h.1
      · cases hj
    have hnumber := number?_of_toInt? hj
    rw [number?_eq_toRat hx] at hnumber
    exact ⟨hx, by exact_mod_cast Option.some.inj hnumber⟩
  constructor
  · exact hdenotes i
  rintro ⟨hx, hi⟩
  have hunits : units x.magnitude.toNat = i.natAbs * one := by
    have habs : valueOf x.magnitude.toNat = |(i : ℚ)| := by
      rw [← hi, toRat]
      have hnonneg : 0 ≤ valueOf x.magnitude.toNat := by
        rw [valueOf_eq]
        exact div_nonneg (Nat.cast_nonneg _) (Nat.cast_nonneg _)
      split
      · rw [abs_neg, abs_of_nonneg hnonneg]
      · rw [abs_of_nonneg hnonneg]
    rw [valueOf_eq, div_eq_iff hone, ← Int.cast_abs, Int.abs_eq_natAbs] at habs
    exact_mod_cast habs
  have hwhole : units x.magnitude.toNat % one = 0 := by
    rw [hunits, Nat.mul_mod_left]
  have hsome := toInt?_eq_some_wholePart hx hwhole
  have heq : x.wholePart = i := by
    have h := (hdenotes _ hsome).2
    rw [hi] at h
    exact_mod_cast h.symm
  rw [hsome, heq]

end RecordFilter.Number.Binary64

namespace RecordFilter

open Number Binary64

/-! ## Fitting -/

theorem int64?_eq_some_iff {i : Int} {n : Int64} : int64? i = some n ↔ i = n.toInt := by
  constructor
  · intro h
    rw [int64?] at h
    split at h
    · next hrange =>
      rw [← Option.some.inj h, Int64.toInt_ofInt_of_le hrange.1 (by
        have hmax : Int64.maxValue.toInt = 2 ^ 63 - 1 := rfl
        omega)]
    · cases h
  · rintro rfl
    exact Literal.int64?_toInt n

namespace Literal

/-- The test of a float for an `int` field, and the conversion, in the operations of its format.
-/
theorem toInt?_float_eq_guard (x : Binary64) :
    (Literal.float x).toInt? =
      if x.isFinite ∧ x.truncated.equal x ∧ x.less (ofInt (-2 ^ 63)) = false ∧
          x.less (ofInt (2 ^ 63)) then
        some x.toInt64
      else none := by
  show x.toInt?.bind int64? = _
  by_cases hx : x.isFinite = true
  · by_cases hwhole : units x.magnitude.toNat % one = 0
    · obtain ⟨hlow, hhigh⟩ := less_outer_iff hx hwhole
      rw [toInt?_eq_some_wholePart hx hwhole, Option.bind_some]
      simp only [hx, (truncated_equal_iff hx).2 hwhole, hlow, hhigh, true_and]
      have hmin : Int64.minValue.toInt = -2 ^ 63 := rfl
      have hmax : Int64.maxValue.toInt = 2 ^ 63 - 1 := rfl
      rw [int64?, hmin, hmax, toInt64, isNaN_eq_false hx, if_neg Bool.false_ne_true]
      split
      · next hrange => rw [Int.min_eq_left hrange.2, Int.max_eq_right hrange.1]
      · rfl
    · have hnone : x.toInt? = none := if_neg fun h => hwhole h.2
      rw [hnone, Option.bind_none, if_neg fun h => hwhole ((truncated_equal_iff hx).1 h.2.1)]
  · have hnone : x.toInt? = none := if_neg fun h => hx h.1
    rw [hnone, Option.bind_none, if_neg fun h => hx h.1]

/-- A float fits an `int` field exactly if it is finite and denotes a whole number from `-2 ^ 63` to
`2 ^ 63 - 1`, and what is compared is that number: every such number that a float denotes is
reached, and nothing is rounded or cut off.  This is what the test and the conversion of the format
come to.  Any other float is reported as a literal that does not fit. -/
theorem toInt?_float_exact (x : Binary64) :
    (∀ n : Int64, (Literal.float x).toInt? = some n ↔ x.isFinite = true ∧ x.toRat = n.toInt) ∧
      ((∃ n, (Literal.float x).toInt? = some n) ↔
        x.isFinite = true ∧ ∃ i : Int, x.toRat = i ∧ -2 ^ 63 ≤ i ∧ i ≤ 2 ^ 63 - 1) ∧
      (Literal.float x).toInt? =
        (if x.isFinite ∧ x.truncated.equal x ∧ x.less (ofInt (-2 ^ 63)) = false ∧
            x.less (ofInt (2 ^ 63)) then
          some x.toInt64
        else none) ∧
      (∀ (options : CompileOptions) (c : Condition) (route : List Nat),
        compileTest options c (.float x) .int route =
            .error (.typeMismatch c.field .int (.literal (.float x))) ↔
          ¬ ∃ n, (Literal.float x).toInt? = some n) ∧
      (∀ negative, (Literal.float (ofMagnitude negative 0)).toInt? = some 0) ∧
      (Literal.float (ofInt (-2 ^ 63))).toInt? = some Int64.minValue ∧
      (Literal.float (ofInt (2 ^ 63))).toInt? = none := by
  have hsome : ∀ n : Int64,
      (Literal.float x).toInt? = some n ↔ x.isFinite = true ∧ x.toRat = n.toInt := by
    intro n
    show x.toInt?.bind int64? = some n ↔ _
    simp only [Option.bind_eq_some_iff, int64?_eq_some_iff, exists_eq_right, toInt?_eq_some_iff]
  refine ⟨hsome, ?_, toInt?_float_eq_guard x, ?_, ?_, ?_, ?_⟩
  · constructor
    · rintro ⟨n, hn⟩
      obtain ⟨hx, hrat⟩ := (hsome n).1 hn
      exact ⟨hx, n.toInt, hrat, n.le_toInt, Int.le_sub_one_of_lt n.toInt_lt⟩
    · rintro ⟨hx, i, hrat, hlow, hhigh⟩
      refine ⟨.ofInt i, (hsome _).2 ⟨hx, ?_⟩⟩
      rw [hrat, Int64.toInt_ofInt_of_le hlow (by omega)]
  · intro options c route
    exact compileTest_eq_typeMismatch_iff_of_fit? rfl
  · intro negative
    cases negative with
    | true => exact toInt?_minusZero
    | false => decide
  · rw [ofInt_neg_outer]
    exact toInt?_outer
  · rw [ofInt_outer]
    exact toInt?_eq_none_of_le (Nat.le_refl outer)

end Literal

end RecordFilter
