import Mathlib
import RecordFilter.Coercion
import RecordFilter.Json.Decode
import RecordFilter.Proofs.Json.WholeNumeral
import RecordFilter.Proofs.Number.Rounding

/-!
# Whole numbers as operands

A whole number in a JSON text passes two conversions on its way to an `int` field: it is
read as a number, whole or not, and that number is fitted to the field.
`WholeNumeral.operand?` is what comes out, and `operand?_eq` says what it is.

* From `-2 ^ 63` to `2 ^ 63 - 1` it is the number itself; minus zero takes the way through a
  float.
* Above that there is nothing: the float is `2 ^ 63` or more, and no 64-bit number is.
* Below it the number is rounded to a float.  Down to `-2 ^ 63 - 1024` that is `-2 ^ 63`,
  which is in range; further down there is nothing.
* Numbers with more than sixty-four bits lose digits when they are read, but never so many
  that they come back into range (`outer_lt_of_grow`).
-/

namespace RecordFilter.Number.Binary64

/-- The magnitude of `2 ^ 63`, the first that is out of reach for positive 64-bit numbers.
-/
def outer : Nat := 1086 * binade

theorem units_outer : units outer = 2 ^ 63 * one := by decide

/-- The whole number that a double denotes is its magnitude with its sign. -/
theorem exists_of_toInt?_ofMagnitude {negative : Bool} {k : Nat} {n : Int}
    (h : (ofMagnitude negative k).toInt? = some n) :
    ∃ m : Nat, units k = m * one ∧ n = if negative then -(m : Int) else m := by
  rw [toInt?, isFinite, toNat_magnitude_ofMagnitude] at h
  split at h
  · next hfinite =>
    have hk : min k infinite = k := by
      have hlt := of_decide_eq_true hfinite.1
      omega
    rw [hk] at h hfinite
    refine ⟨units k / one, (Nat.div_mul_cancel (Nat.dvd_of_mod_eq_zero hfinite.2)).symm, ?_⟩
    exact (Option.some.inj h).symm
  · cases h

end RecordFilter.Number.Binary64

namespace RecordFilter

open Number Binary64

theorem int64?_eq_none {n : Int} (h : n < -2 ^ 63 ∨ 2 ^ 63 ≤ n) : int64? n = none := by
  refine if_neg fun hrange => ?_
  have hlow : -2 ^ 63 ≤ n := hrange.1
  have hhigh : n ≤ 2 ^ 63 - 1 := hrange.2
  omega

namespace Literal

/-- No `int` field has the value of a float beyond `2 ^ 63`, whatever its sign. -/
theorem toInt?_eq_none_of_lt (negative : Bool) {k : Nat} (hk : outer < k) :
    (Literal.float (ofMagnitude negative k)).toInt? = none := by
  show (ofMagnitude negative k).toInt?.bind int64? = none
  rw [Option.bind_eq_none_iff]
  intro n hn
  obtain ⟨m, hunits, rfl⟩ := exists_of_toInt?_ofMagnitude hn
  have hlt : 2 ^ 63 * one < m * one := by
    rw [← units_outer, ← hunits]
    exact units_strictMono hk
  have hm : 2 ^ 63 < m := Nat.lt_of_mul_lt_mul_right hlt
  apply int64?_eq_none
  cases negative <;> simp <;> omega

/-- No `int` field has the value `2 ^ 63` or more. -/
theorem toInt?_eq_none_of_le {k : Nat} (hk : outer ≤ k) :
    (Literal.float (ofMagnitude false k)).toInt? = none := by
  rcases Nat.lt_or_eq_of_le hk with hlt | rfl
  · exact toInt?_eq_none_of_lt false hlt
  · decide +kernel

/-- The least value of an `int` field is a float. -/
theorem toInt?_outer :
    (Literal.float (ofMagnitude true outer)).toInt? = some (.ofInt (-2 ^ 63)) := by
  decide +kernel

theorem toInt?_minusZero : (Literal.float (ofMagnitude true 0)).toInt? = some (.ofInt 0) := by
  decide +kernel

end Literal

end RecordFilter

namespace RecordFilter.Json.Numeral

open Number Binary64

/-! ## Digits that fit -/

/-- The number that digits denote when they are appended to a number. -/
def appended (m : Nat) (ds : List Nat) : Nat :=
  ds.foldl (fun n d => 10 * n + d) m

theorem le_appended (m : Nat) (ds : List Nat) : m ≤ appended m ds := by
  induction ds generalizing m with
  | nil => exact Nat.le_refl m
  | cons d ds ih =>
    have hle := ih (10 * m + d)
    show m ≤ appended (10 * m + d) ds
    omega

theorem appendFitting_of_lt {m : Nat} {ds : List Nat} (h : appended m ds < UInt64.size) :
    appendFitting m ds = (appended m ds, []) := by
  induction ds generalizing m with
  | nil => rfl
  | cons d ds ih =>
    have hlt : appended (10 * m + d) ds < UInt64.size := h
    have hfits := Nat.lt_of_le_of_lt (le_appended (10 * m + d) ds) hlt
    rw [appendFitting, if_pos hfits]
    exact ih hlt

theorem appendFitting_of_le {m : Nat} {ds : List Nat} (hm : m < UInt64.size)
    (h : UInt64.size ≤ appended m ds) :
    ∃ n d rest, appendFitting m ds = (n, d :: rest) ∧ d ∈ ds ∧ UInt64.size ≤ 10 * n + d := by
  induction ds generalizing m with
  | nil =>
    have hle : UInt64.size ≤ m := h
    omega
  | cons d ds ih =>
    by_cases hfits : 10 * m + d < UInt64.size
    · obtain ⟨n, d', rest, happend, hmem, hsize⟩ := ih hfits h
      refine ⟨n, d', rest, ?_, List.mem_cons_of_mem d hmem, hsize⟩
      rw [appendFitting, if_pos hfits, happend]
    · refine ⟨m, d, ds, ?_, List.mem_cons_self, Nat.not_lt.1 hfits⟩
      rw [appendFitting, if_neg hfits]

/-! ## Powers of ten -/

theorem units_power_zero : units (power 0) = one := by
  decide +kernel

theorem multiply_power_zero (k : Nat) : multiply k (power 0) = k := by
  rw [multiply, units_power_zero, nearest_scale Binary64.one_pos, nearest_units]

theorem grow_zero {k : Nat} (h : k < infinite) : grow k 0 = some k := by
  by_cases hk : k = 0
  · rw [grow, if_pos hk, hk]
  · rw [grow, if_neg hk, if_pos (Nat.zero_le _)]
    dsimp only
    rw [multiply_power_zero, if_pos h]

/-- A significand that left a digit out is beyond `2 ^ 63` once it has been multiplied for
that digit.  The bounds are doubles themselves, so rounding keeps them. -/
theorem outer_lt_of_grow {m e k : Nat} (hm : 3 * 2 ^ 59 ≤ m) (he : 1 ≤ e)
    (h : grow (nearest m 1) e = some k) : outer < k := by
  have hsignificand : 3 * 2 ^ 59 * one ≤ units (nearest m 1) := by
    have hunits : units (nearest (3 * 2 ^ 59) 1) = 3 * 2 ^ 59 * one := by decide +kernel
    rw [← hunits]
    exact units_mono (nearest_mono Nat.one_pos hm)
  have hpower : 8 * one ≤ units (power e) := by
    have hunits : units (nearest 8 1) = 8 * one := by decide +kernel
    have hten : 8 ≤ tenTo e :=
      Nat.le_trans (show 8 ≤ 10 ^ 1 by decide) (Nat.pow_le_pow_right (by decide) he)
    rw [← hunits]
    exact units_mono (nearest_mono Nat.one_pos hten)
  have hnonzero : nearest m 1 ≠ 0 := by
    intro hzero
    rw [hzero, units_of_lt (by decide)] at hsignificand
    have hone := Binary64.one_pos
    omega
  have hproduct : outer + 1 ≤ multiply (nearest m 1) (power e) := by
    refine le_nearest (Nat.mul_pos Binary64.one_pos Binary64.one_pos) ?_
    have hunits : units (outer + 1) ≤ 3 * 2 ^ 62 * one := by decide +kernel
    calc units (outer + 1) * (one * one) ≤ 3 * 2 ^ 62 * one * (one * one) :=
          Nat.mul_le_mul_right _ hunits
      _ = 3 * 2 ^ 59 * one * (8 * one) * one := by ring
      _ ≤ units (nearest m 1) * units (power e) * one :=
          Nat.mul_le_mul_right one (Nat.mul_le_mul hsignificand hpower)
  rw [grow, if_neg hnonzero] at h
  split at h
  · dsimp only at h
    split at h
    · rw [← Option.some.inj h]
      exact hproduct
    · cases h
  · cases h

end RecordFilter.Json.Numeral

namespace RecordFilter.Json

open Number Binary64

/-! ## The value of a whole number -/

namespace WholeNumeral

/-- The value that an `int` field is compared with when a numeral is written as the literal.
-/
def operand? (w : WholeNumeral) : Option Int64 :=
  w.token.value?.bind fun v => (Literal.ofNumber v).toInt?

theorem magnitude?_of_lt (w : WholeNumeral) (h : ofDigits w.digits < UInt64.size) :
    w.token.magnitude? = some (nearest (ofDigits w.digits) 1) := by
  have hdigits : Numeral.appendFitting 0 w.digits = (ofDigits w.digits, []) :=
    Numeral.appendFitting_of_lt h
  have hscaled : w.token.scaled = (ofDigits w.digits, 0) := by
    simp [Numeral.scaled, token, hdigits, Numeral.appendFitting, Numeral.exponentValue]
  have hfinite : nearest (ofDigits w.digits) 1 < infinite := by
    have hle : nearest (ofDigits w.digits) 1 ≤ nearest UInt64.size 1 :=
      nearest_mono Nat.one_pos (Nat.le_of_lt h)
    have hsize : nearest UInt64.size 1 < infinite := by decide +kernel
    omega
  unfold Numeral.magnitude?
  rw [hscaled]
  dsimp only
  rw [if_pos (Int.le_refl 0), Int.toNat_zero, Numeral.grow_zero hfinite]

theorem outer_lt_of_magnitude? (w : WholeNumeral) (h : UInt64.size ≤ ofDigits w.digits) {k : Nat}
    (hk : w.token.magnitude? = some k) : outer < k := by
  obtain ⟨n, d, rest, hdigits, hmem, hsize⟩ :=
    Numeral.appendFitting_of_le (m := 0) (by decide) h
  have hscaled : w.token.scaled = (n, ((rest.length + 1 : Nat) : Int)) := by
    simp [Numeral.scaled, token, hdigits, Numeral.appendFitting, Numeral.exponentValue]
  have hn : 3 * 2 ^ 59 ≤ n := by
    have hd := w.lt_ten d hmem
    unfold UInt64.size at hsize
    omega
  unfold Numeral.magnitude? at hk
  rw [hscaled] at hk
  dsimp only at hk
  rw [if_pos (Int.natCast_nonneg _), Int.toNat_natCast] at hk
  exact Numeral.outer_lt_of_grow hn (Nat.le_add_left 1 _) hk

theorem natAbs_value (w : WholeNumeral) : w.value.natAbs = ofDigits w.digits := by
  unfold value
  split <;> omega

theorem negative_of_value_neg (w : WholeNumeral) (h : w.value < 0) : w.negative = true := by
  unfold value at h
  split at h
  · assumption
  · omega

theorem isInteger_iff (w : WholeNumeral) :
    w.token.isInteger ↔ -2 ^ 63 ≤ w.value ∧ w.value < 2 ^ 64 ∧ ¬ (w.negative ∧ w.value = 0) := by
  have hmin : Int64.minValue.toInt = -2 ^ 63 := rfl
  have hsize : (UInt64.size : Int) = 2 ^ 64 := rfl
  have hnegative : w.token.negative = w.negative := rfl
  rw [Numeral.isInteger, token_isWhole, token_wholeValue, hmin, hsize, hnegative]
  cases w.negative <;> simp [and_assoc]

theorem operand?_of_isInteger {w : WholeNumeral} (h : w.token.isInteger) :
    w.operand? = (Literal.ofNumber (.integer w.value)).toInt? := by
  rw [operand?, Numeral.value?, if_pos h]
  rfl

theorem operand?_of_not_isInteger {w : WholeNumeral} (h : ¬ w.token.isInteger) :
    w.operand? =
      w.token.magnitude?.bind fun k => (Literal.float (ofMagnitude w.negative k)).toInt? := by
  rw [operand?, Numeral.value?, if_neg h, Option.bind_map]
  rfl

/-- A number beyond sixty-four bits has lost digits, and what is left is still too large. -/
theorem operand?_of_size_le {w : WholeNumeral} (h : UInt64.size ≤ ofDigits w.digits) :
    w.operand? = none := by
  have hinteger : ¬ w.token.isInteger := by
    rw [isInteger_iff]
    have habs := w.natAbs_value
    unfold UInt64.size at h
    omega
  rw [operand?_of_not_isInteger hinteger, Option.bind_eq_none_iff]
  intro k hk
  exact Literal.toInt?_eq_none_of_lt w.negative (w.outer_lt_of_magnitude? h hk)

theorem operand?_of_mem {w : WholeNumeral} (hlow : -2 ^ 63 ≤ w.value)
    (hhigh : w.value ≤ 2 ^ 63 - 1) : w.operand? = some (.ofInt w.value) := by
  by_cases hinteger : w.token.isInteger
  · have hmax : w.value ≤ Int64.maxValue.toInt := hhigh
    rw [operand?_of_isInteger hinteger, Literal.ofNumber, if_pos hmax]
    rfl
  -- The only whole number in range that is not read as one is minus zero.
  · have hzero : w.negative ∧ w.value = 0 := by
      by_contra hne
      exact hinteger (w.isInteger_iff.2 ⟨hlow, by omega, hne⟩)
    have habs := w.natAbs_value
    rw [hzero.2] at habs
    rw [operand?_of_not_isInteger hinteger, w.magnitude?_of_lt (by rw [← habs]; decide), ← habs,
      hzero.1, hzero.2]
    exact Literal.toInt?_minusZero

theorem operand?_of_above {w : WholeNumeral} (h : 2 ^ 63 ≤ w.value) : w.operand? = none := by
  by_cases hinteger : w.token.isInteger
  · have hmax : ¬ w.value ≤ Int64.maxValue.toInt := by
      show ¬ w.value ≤ 2 ^ 63 - 1
      omega
    have hbound : outer ≤ nearest w.value.natAbs 1 := by
      refine le_nearest Nat.one_pos ?_
      rw [units_outer, Nat.mul_one]
      exact Nat.mul_le_mul_right one (by omega)
    have hsign : decide (w.value < 0) = false := decide_eq_false (by omega)
    rw [operand?_of_isInteger hinteger, Literal.ofNumber, if_neg hmax, ofInt, ofRatio, hsign]
    exact Literal.toInt?_eq_none_of_le hbound
  · refine operand?_of_size_le ?_
    have habs := w.natAbs_value
    rw [isInteger_iff] at hinteger
    unfold UInt64.size
    omega

theorem operand?_of_below {w : WholeNumeral} (h : w.value < -2 ^ 63) :
    w.operand? = if -2 ^ 63 - 1024 ≤ w.value then some (.ofInt (-2 ^ 63)) else none := by
  have hinteger : ¬ w.token.isInteger := by
    rw [isInteger_iff]
    omega
  have habs := w.natAbs_value
  have hnegative : w.negative = true := w.negative_of_value_neg (by omega)
  by_cases hfits : ofDigits w.digits < UInt64.size
  · rw [operand?_of_not_isInteger hinteger, w.magnitude?_of_lt hfits, hnegative, Option.bind_some]
    by_cases hclose : -2 ^ 63 - 1024 ≤ w.value
    · have hlow : outer ≤ nearest (ofDigits w.digits) 1 := by
        refine le_nearest Nat.one_pos ?_
        rw [units_outer, Nat.mul_one]
        exact Nat.mul_le_mul_right one (by omega)
      have hhigh : nearest (ofDigits w.digits) 1 ≤ outer := by
        have htie : nearest (2 ^ 63 + 1024) 1 = outer := by decide +kernel
        rw [← htie]
        exact nearest_mono Nat.one_pos (by omega)
      rw [if_pos hclose, Nat.le_antisymm hhigh hlow]
      exact Literal.toInt?_outer
    · have hnext : outer < nearest (ofDigits w.digits) 1 := by
        have htie : outer < nearest (2 ^ 63 + 1025) 1 := by decide +kernel
        exact Nat.lt_of_lt_of_le htie (nearest_mono Nat.one_pos (by omega))
      rw [if_neg hclose]
      exact Literal.toInt?_eq_none_of_lt true hnext
  · have hfar : ¬ -2 ^ 63 - 1024 ≤ w.value := by
      unfold UInt64.size at hfits
      omega
    rw [if_neg hfar]
    exact operand?_of_size_le (Nat.not_lt.1 hfits)

/-- A whole number is the operand itself if it is in range; a little below the range the
operand is the least of the range; further out there is none. -/
theorem operand?_eq (w : WholeNumeral) :
    w.operand? = if -2 ^ 63 - 1024 ≤ w.value ∧ w.value ≤ 2 ^ 63 - 1 then
      some (.ofInt (max w.value (-2 ^ 63))) else none := by
  by_cases hlow : -2 ^ 63 ≤ w.value
  · by_cases hhigh : w.value ≤ 2 ^ 63 - 1
    · rw [operand?_of_mem hlow hhigh, if_pos ⟨by omega, hhigh⟩, Int.max_eq_left hlow]
    · rw [operand?_of_above (by omega), if_neg (fun hrange => hhigh hrange.2)]
  · rw [operand?_of_below (by omega), Int.max_eq_right (by omega)]
    have hhigh : w.value ≤ 2 ^ 63 - 1 := by omega
    simp only [hhigh, and_true]

end WholeNumeral

end RecordFilter.Json
