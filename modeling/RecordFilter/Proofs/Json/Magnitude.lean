import Mathlib
import RecordFilter.Json.Decode
import RecordFilter.Proofs.Number.Rounding

/-!
# How large the value of a number is

The significand of a float token fits sixty-four bits, so its rounding is finite by far.
Dividing it by a power of ten never makes it larger (`shrink_le`), and multiplying it by one
is checked (`grow_lt_infinite`).  So the value of a number, if it has one, is finite:
`isFinite_ofNumber_of_value?`.

Whether a number has a value depends on the power of ten alone, once the significand is
given.  A smaller exponent never takes a value away (`magnitude?_isSome_of_exponentValue_le`),
and without a positive exponent it takes more than three hundred digits before the point to
be too large (`magnitude?_isSome_of_length_le`).
-/

namespace RecordFilter.Number.Binary64

theorem isFinite_ofMagnitude {negative : Bool} {k : Nat} :
    (ofMagnitude negative k).isFinite ↔ k < infinite := by
  rw [isFinite, decide_eq_true_eq, toNat_magnitude_ofMagnitude]
  omega

/-- Whole numbers of sixty-four bits are far below the largest float. -/
theorem nearest_lt_infinite {m : Nat} (h : m ≤ UInt64.size) : nearest m 1 < infinite := by
  have hle : nearest m 1 ≤ nearest UInt64.size 1 := nearest_mono Nat.one_pos h
  have hsize : nearest UInt64.size 1 < infinite := by decide +kernel
  omega

theorem isFinite_ofInt {n : Int} (h : n.natAbs ≤ UInt64.size) : (ofInt n).isFinite :=
  isFinite_ofMagnitude.2 (nearest_lt_infinite h)

end RecordFilter.Number.Binary64

namespace RecordFilter

/-- Whether a literal is anything but an infinite float or one that is not a number. -/
def Literal.isFinite : Literal → Bool
  | .float x => x.isFinite
  | _ => true

end RecordFilter

namespace RecordFilter.Json.Numeral

open Number Binary64

/-! ## The significand -/

theorem appendFitting_lt {m : Nat} (hm : m < UInt64.size) (ds : List Nat) :
    (appendFitting m ds).1 < UInt64.size := by
  induction ds generalizing m with
  | nil => exact hm
  | cons d ds ih =>
    rw [appendFitting]
    split
    · next hfits => exact ih hfits
    · exact hm

/-- The significand of a token. -/
theorem scaled_fst (t : Numeral) :
    t.scaled.1 = (appendFitting (appendFitting 0 t.whole).1 t.fraction).1 := rfl

theorem significand_lt (t : Numeral) : t.scaled.1 < UInt64.size := by
  rw [scaled_fst]
  exact appendFitting_lt (appendFitting_lt (by decide) t.whole) t.fraction

/-- The magnitude of a token, by the sign of the power that goes with its significand. -/
theorem magnitude?_eq (t : Numeral) :
    t.magnitude? =
      if 0 ≤ t.scaled.2 then grow (nearest t.scaled.1 1) t.scaled.2.toNat
      else some (shrink (nearest t.scaled.1 1) (-t.scaled.2).toNat) := rfl

/-! ## Powers of ten -/

theorem one_le_units_power (e : Nat) : one ≤ units (power e) := by
  have hunits : units (nearest 1 1) = one := by decide +kernel
  rw [← hunits]
  exact units_mono (nearest_mono Nat.one_pos (tenTo_pos e))

/-- A quotient by a power of ten is not larger than what is divided. -/
theorem divide_power_le (k e : Nat) : divide k (power e) ≤ k :=
  nearest_le (Nat.lt_of_lt_of_le Binary64.one_pos (one_le_units_power e))
    (Nat.mul_le_mul_left _ (one_le_units_power e))

/-- The induction is on the power, from which each division takes the largest one away. -/
theorem shrink_le (k e : Nat) : shrink k e ≤ k := by
  induction e using Nat.strong_induction_on generalizing k with
  | _ e ih =>
    rw [shrink]
    split
    · exact divide_power_le k e
    split
    · exact Nat.zero_le k
    · have hless : e - maxPower < e := by
        unfold maxPower at *
        omega
      exact (ih _ hless _).trans (divide_power_le k maxPower)

theorem grow_lt_infinite {k e product : Nat} (h : grow k e = some product) :
    product < infinite := by
  unfold grow at h
  split at h
  · cases h
    decide
  split at h
  · dsimp only at h
    split at h
    · next hlt =>
      cases h
      exact hlt
    · cases h
  · cases h

/-! ## Values -/

theorem magnitude?_lt_infinite {t : Numeral} {k : Nat} (h : t.magnitude? = some k) :
    k < infinite := by
  rw [magnitude?_eq] at h
  split at h
  · exact grow_lt_infinite h
  · cases h
    exact (shrink_le _ _).trans_lt (nearest_lt_infinite (Nat.le_of_lt t.significand_lt))

/-- The literal that a number is, is finite.  A whole number that is too large for an
integer literal still has no more than sixty-four bits. -/
theorem isFinite_ofNumber_of_value? {t : Numeral} {v : NumberValue} (h : t.value? = some v) :
    (Literal.ofNumber v).isFinite := by
  unfold value? at h
  split at h
  · next hinteger =>
    cases h
    simp only [isInteger, Bool.and_eq_true, decide_eq_true_eq] at hinteger
    obtain ⟨⟨⟨-, hlow⟩, hhigh⟩, -⟩ := hinteger
    rw [Literal.ofNumber]
    split
    · rfl
    · refine isFinite_ofInt ?_
      have hmin : Int64.minValue.toInt = -2 ^ 63 := by decide
      unfold UInt64.size at *
      omega
  · obtain ⟨k, hk, rfl⟩ := Option.map_eq_some_iff.1 h
    exact isFinite_ofMagnitude.2 (magnitude?_lt_infinite hk)

/-! ## Numbers that have a value -/

theorem multiply_mono {j j' k k' : Nat} (hj : j ≤ j') (hk : k ≤ k') :
    multiply j k ≤ multiply j' k' :=
  nearest_mono (Nat.mul_pos Binary64.one_pos Binary64.one_pos)
    (Nat.mul_le_mul (units_mono hj) (units_mono hk))

theorem power_mono {e e' : Nat} (h : e ≤ e') : power e ≤ power e' :=
  nearest_mono Nat.one_pos (Nat.pow_le_pow_right (by decide) h)

/-- A smaller magnitude has a value wherever a larger one has. -/
theorem grow_isSome_of_le {j k e e' : Nat} (hk : k ≤ j) (he : e ≤ e')
    (h : (grow j e').isSome) : (grow k e).isSome := by
  by_cases hzero : k = 0
  · rw [grow, if_pos hzero]
    rfl
  · have hj : j ≠ 0 := by omega
    rw [grow, if_neg hj] at h
    rw [grow, if_neg hzero]
    split at h
    · next he' =>
      dsimp only at h ⊢
      split at h
      · next hproduct =>
        have hmono := multiply_mono hk (power_mono he)
        rw [if_pos (he.trans he'), if_pos (Nat.lt_of_le_of_lt hmono hproduct)]
        rfl
      · cases h
    · cases h

/-- What is too large for sixty-four bits has nineteen digits at least.  The induction keeps
the number of digits that are in the significand so far. -/
theorem length_appendFitting {m j : Nat} {ds : List Nat} (hds : ∀ d ∈ ds, d < 10)
    (hm : m < 10 ^ j) :
    (appendFitting m ds).2 = [] ∨ (appendFitting m ds).2.length + 19 ≤ ds.length + j := by
  induction ds generalizing m j with
  | nil => exact .inl rfl
  | cons d ds ih =>
    rw [List.forall_mem_cons] at hds
    rw [appendFitting]
    split
    · have hnext : 10 * m + d < 10 ^ (j + 1) := by
        rw [Nat.pow_succ]
        omega
      rcases ih hds.2 hnext with hnil | hlength
      · exact .inl hnil
      · refine .inr ?_
        rw [List.length_cons]
        omega
    · next hfull =>
      refine .inr ?_
      have hj : 19 ≤ j := by
        by_contra hlt
        have hpow : (10 : Nat) ^ j ≤ 10 ^ 18 := Nat.pow_le_pow_right (by decide) (by omega)
        unfold UInt64.size at hfull
        omega
      show (d :: ds).length + 19 ≤ (d :: ds).length + j
      omega

/-- A token with no more than three hundred digits before the point, and no positive
exponent, has a value. -/
theorem magnitude?_isSome_of_length_le {t : Numeral} (hdigits : ∀ d ∈ t.whole, d < 10)
    (hlength : t.whole.length ≤ 300) (hexponent : t.exponentValue ≤ 0) :
    t.magnitude?.isSome := by
  rw [magnitude?_eq]
  split
  · next hpower =>
    have hdropped : (appendFitting 0 t.whole).2.length ≤ 281 := by
      rcases length_appendFitting hdigits (show 0 < 10 ^ 0 by decide) with hnil | hle
      · rw [hnil]
        decide
      · omega
    have hle : t.scaled.2.toNat ≤ 281 := by
      have hscaled : t.scaled.2 ≤ (appendFitting 0 t.whole).2.length := by
        simp only [scaled]
        omega
      omega
    have hlarge : (grow (nearest UInt64.size 1) 281).isSome := by decide +kernel
    exact grow_isSome_of_le (nearest_mono Nat.one_pos (Nat.le_of_lt t.significand_lt)) hle hlarge
  · rfl

/-- Of two tokens with the same digits, the one with the smaller exponent has a value if the
other has. -/
theorem magnitude?_isSome_of_exponentValue_le {t t' : Numeral} (hwhole : t'.whole = t.whole)
    (hfraction : t'.fraction = t.fraction) (hle : t.exponentValue ≤ t'.exponentValue)
    (h : t'.magnitude?.isSome) : t.magnitude?.isSome := by
  have hsignificand : t'.scaled.1 = t.scaled.1 := by
    rw [scaled_fst, scaled_fst, hwhole, hfraction]
  have hscaled : t.scaled.2 ≤ t'.scaled.2 := by
    simp only [scaled, hwhole, hfraction]
    omega
  rw [magnitude?_eq] at h ⊢
  rw [hsignificand] at h
  split
  · next hpower =>
    rw [if_pos (hpower.trans hscaled)] at h
    exact grow_isSome_of_le (Nat.le_refl _) (Int.toNat_le_toNat hscaled) h
  · rfl

end RecordFilter.Json.Numeral
