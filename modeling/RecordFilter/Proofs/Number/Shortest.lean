import Mathlib
import RecordFilter.Number.Shortest
import RecordFilter.Proofs.Number.Nearest

/-!
# Shortest decimals round back

Whatever is taken for a magnitude as its shortest decimal is rounded to that magnitude again:
`nearestScaled_ofMagnitude`.  A decimal that was found on a grid was asked for just that.  That one
is found by the seventeenth digit is shown by the steps of the grids: the step of that grid is less
than the distance to either neighbour, and one of the two points around the value is at most half a
step away from it.

Decimals are compared as rational numbers, which takes the quotients out of the powers of ten.
-/

namespace RecordFilter.Number

open Binary64

/-! ## Powers of ten -/

theorem tenTo_eq (e : Nat) : tenTo e = 10 ^ e := rfl

theorem tenTo_mono {e e' : Nat} (h : e ≤ e') : tenTo e ≤ tenTo e' :=
  Nat.pow_le_pow_right (by decide) h

theorem powerOfTen_fst_eq (e : Int) : ((powerOfTen e).1 : ℚ) = 10 ^ e * (powerOfTen e).2 := by
  rcases Int.lt_or_le e 0 with h | h
  · obtain ⟨n, rfl⟩ : ∃ n : Nat, e = -(n : Int) := ⟨(-e).toNat, by omega⟩
    rw [powerOfTen, if_neg (by omega)]
    simp only [neg_neg, Int.toNat_natCast, tenTo_eq, zpow_neg, zpow_natCast]
    push_cast
    field_simp
  · obtain ⟨n, rfl⟩ := Int.eq_ofNat_of_zero_le h
    rw [powerOfTen, if_pos h]
    simp [tenTo_eq]

namespace Decimal

/-- The value of a decimal in units of the smallest positive double. -/
def scaledUnits (m : Nat) (e : Int) : ℚ :=
  m * 10 ^ e * one

theorem scaledUnits_mul_den (m : Nat) (e : Int) :
    scaledUnits m e * (powerOfTen e).2 = ((m * (powerOfTen e).1 * one : Nat) : ℚ) := by
  push_cast
  rw [powerOfTen_fst_eq, scaledUnits]
  ring

/-- A digit string may end in zeros, or the exponent be larger. -/
theorem scaledUnits_mul_tenTo (m n : Nat) (e : Int) :
    scaledUnits (m * tenTo n) e = scaledUnits m (e + n) := by
  rw [scaledUnits, scaledUnits, tenTo_eq, zpow_add₀ (by norm_num), zpow_natCast]
  push_cast
  ring

theorem scaledUnits_eq_mul (m : Nat) (e : Int) : scaledUnits m e = m * scaledUnits 1 e := by
  rw [scaledUnits, scaledUnits, Nat.cast_one]
  ring

theorem scaledUnits_nonneg (m : Nat) (e : Int) : 0 ≤ scaledUnits m e := by
  have hpower : (0 : ℚ) ≤ m * 10 ^ e := by positivity
  exact mul_nonneg hpower (Nat.cast_nonneg one)

theorem scaledUnits_pos {m : Nat} (hm : 0 < m) (e : Int) : 0 < scaledUnits m e := by
  have hpower : (0 : ℚ) < m * 10 ^ e := by positivity
  have hone : (0 : ℚ) < one := by exact_mod_cast Binary64.one_pos
  exact mul_pos hpower hone

theorem scaledUnits_mono (m : Nat) {e e' : Int} (h : e ≤ e') : scaledUnits m e ≤ scaledUnits m e' := by
  have hpower : (10 : ℚ) ^ e ≤ 10 ^ e' := zpow_le_zpow_right₀ (by norm_num) h
  unfold scaledUnits
  gcongr

/-- How a decimal is rounded, said of its value. -/
theorem nearestScaled_le_iff {k m : Nat} {e : Int} :
    nearestScaled m e ≤ k ↔
      if k % 2 = 0 then 2 * scaledUnits m e ≤ halfway k else 2 * scaledUnits m e < halfway k := by
  have hden : (0 : ℚ) < (powerOfTen e).2 := by exact_mod_cast (powerOfTen_pos e).2
  have hvalue : ((2 * (m * (powerOfTen e).1 * one) : Nat) : ℚ) =
      2 * scaledUnits m e * (powerOfTen e).2 := by
    rw [mul_assoc 2 (scaledUnits m e), scaledUnits_mul_den]
    push_cast
    rfl
  rw [nearestScaled, nearest_le_iff (powerOfTen_pos e).2]
  split
  · rw [← Nat.cast_le (α := ℚ), hvalue, Nat.cast_mul, mul_le_mul_iff_left₀ hden]
  · rw [← Nat.cast_lt (α := ℚ), hvalue, Nat.cast_mul, mul_lt_mul_iff_left₀ hden]

/-- The rounding of a decimal depends on its value alone. -/
theorem nearestScaled_congr {m m' : Nat} {e e' : Int} (h : scaledUnits m e = scaledUnits m' e') :
    nearestScaled m e = nearestScaled m' e' := by
  have hle : ∀ k, nearestScaled m e ≤ k ↔ nearestScaled m' e' ≤ k := by
    intro k
    rw [nearestScaled_le_iff, nearestScaled_le_iff, h]
  exact Nat.le_antisymm ((hle _).2 (Nat.le_refl _)) ((hle _).1 (Nat.le_refl _))

theorem nearestScaled_mul_tenTo (m n : Nat) (e : Int) :
    nearestScaled (m * tenTo n) e = nearestScaled m (e + n) :=
  nearestScaled_congr (scaledUnits_mul_tenTo m n e)

theorem nearestScaled_zero (m : Nat) : nearestScaled m 0 = Binary64.nearest m 1 := by
  rw [nearestScaled]
  exact congrArg (Binary64.nearest · 1) (Nat.mul_one m)

theorem nearestScaled_zero_left (e : Int) : nearestScaled 0 e = 0 := by
  have hle : nearestScaled 0 e ≤ 0 := by
    rw [nearestScaled_le_iff, if_pos (Nat.zero_mod 2), scaledUnits]
    norm_num
  exact Nat.le_zero.1 hle

/-- A decimal is rounded to a magnitude if it lies inside the interval of that magnitude. -/
theorem nearestScaled_eq_of_between {k m : Nat} {e : Int}
    (hlow : (halfway k : ℚ) < 2 * scaledUnits m e)
    (hhigh : 2 * scaledUnits m e < halfway (k + 1)) : nearestScaled m e = k + 1 := by
  have hle : nearestScaled m e ≤ k + 1 := by
    rw [nearestScaled_le_iff]
    split
    · exact hhigh.le
    · exact hhigh
  have hgt : ¬ nearestScaled m e ≤ k := by
    rw [nearestScaled_le_iff]
    split
    · exact not_le.2 hlow
    · exact not_lt.2 hlow.le
  omega

end Decimal

namespace ShortDecimal

open Decimal

/-- The test for a magnitude is whether the decimal is rounded to it. -/
theorem roundsTo_iff {k m : Nat} {e : Int} (hk : 0 < k) :
    roundsTo k m e = true ↔ nearestScaled m e = k := by
  obtain ⟨j, rfl⟩ : ∃ j, k = j + 1 := ⟨k - 1, by omega⟩
  rw [nearestScaled, nearest_eq_succ_iff (powerOfTen_pos e).2, roundsTo, Nat.add_sub_cancel]
  dsimp only
  rw [← halfway, ← halfway, Nat.mul_assoc 2]
  split <;> simp

/-! ## Grids -/

theorem floorOn_le (k : Nat) (e : Int) : scaledUnits (floorOn k e) e ≤ units k := by
  have hden : (0 : ℚ) < (powerOfTen e).2 := by exact_mod_cast (powerOfTen_pos e).2
  have hle : floorOn k e * (one * (powerOfTen e).1) ≤ units k * (powerOfTen e).2 :=
    Nat.div_mul_le_self _ _
  rw [Nat.mul_comm one, ← Nat.mul_assoc] at hle
  rw [← mul_le_mul_iff_left₀ hden, scaledUnits_mul_den]
  exact_mod_cast hle

theorem lt_floorOn_add_one (k : Nat) (e : Int) :
    (units k : ℚ) < scaledUnits (floorOn k e + 1) e := by
  have hden : (0 : ℚ) < (powerOfTen e).2 := by exact_mod_cast (powerOfTen_pos e).2
  have hpos : 0 < one * (powerOfTen e).1 := Nat.mul_pos Binary64.one_pos (powerOfTen_pos e).1
  have hlt : units k * (powerOfTen e).2 < (floorOn k e + 1) * (one * (powerOfTen e).1) := by
    rw [← Nat.div_lt_iff_lt_mul hpos, floorOn]
    exact Nat.lt_add_one _
  rw [Nat.mul_comm one, ← Nat.mul_assoc] at hlt
  rw [← mul_lt_mul_iff_left₀ hden, scaledUnits_mul_den]
  exact_mod_cast hlt

/-! ## The first digit -/

theorem scaledUnits_one_mul_tenTo {e : Int} {length places : Nat} (h : e = length - places) :
    scaledUnits 1 e * tenTo places = ((10 ^ length * one : Nat) : ℚ) := by
  rw [scaledUnits, h, tenTo_eq, zpow_sub₀ (by norm_num), zpow_natCast, zpow_natCast]
  push_cast
  field_simp

theorem lt_pointPosition (k : Nat) : (units k : ℚ) < scaledUnits 1 (pointPosition k) := by
  have hten : (0 : ℚ) < tenTo 330 := by exact_mod_cast tenTo_pos 330
  have hposition : pointPosition k =
      (Nat.toDigits 10 (units k * tenTo 330 / one)).length - (330 : Nat) := rfl
  have hdigits : units k * tenTo 330 / one <
      10 ^ (Nat.toDigits 10 (units k * tenTo 330 / one)).length :=
    (Nat.length_toDigits_le_iff (by decide) Nat.length_toDigits_pos).1 (Nat.le_refl _)
  rw [Nat.div_lt_iff_lt_mul Binary64.one_pos] at hdigits
  rw [← mul_lt_mul_iff_left₀ hten, scaledUnits_one_mul_tenTo hposition]
  exact_mod_cast hdigits

theorem pointPosition_le {k : Nat} (hk : 0 < k) : scaledUnits 1 (pointPosition k - 1) ≤ units k := by
  have hten : (0 : ℚ) < tenTo 330 := by exact_mod_cast tenTo_pos 330
  have hpos : 0 < units k * tenTo 330 / one := by
    have hunits : 1 ≤ units k := Nat.le_trans hk (le_units k)
    have hone : one ≤ tenTo 330 := by decide +kernel
    apply Nat.div_pos _ Binary64.one_pos
    calc one ≤ tenTo 330 := hone
      _ ≤ units k * tenTo 330 := Nat.le_mul_of_pos_left _ hunits
  have hlength := Nat.length_toDigits_pos (b := 10) (n := units k * tenTo 330 / one)
  have hposition : pointPosition k - 1 =
      ((Nat.toDigits 10 (units k * tenTo 330 / one)).length - 1 : Nat) - (330 : Nat) := by
    rw [pointPosition]
    omega
  have hdigits : 10 ^ ((Nat.toDigits 10 (units k * tenTo 330 / one)).length - 1) ≤
      units k * tenTo 330 / one := by
    rcases Nat.eq_zero_or_pos ((Nat.toDigits 10 (units k * tenTo 330 / one)).length - 1) with
      hzero | hmore
    · rw [hzero]
      exact hpos
    · by_contra hlt
      have hle := (Nat.length_toDigits_le_iff (by decide) hmore).2 (Nat.not_le.1 hlt)
      omega
  rw [Nat.le_div_iff_mul_le Binary64.one_pos] at hdigits
  rw [← mul_le_mul_iff_left₀ hten, scaledUnits_one_mul_tenTo hposition]
  exact_mod_cast hdigits

/-! ## Seventeen digits -/

/-- A grid of seventeen digits is finer than the magnitudes around the value. -/
theorem step_lt_gap (k : Nat) :
    scaledUnits 1 (pointPosition (k + 1) - 17) < units (k + 1) - units k := by
  have hfirst := pointPosition_le (Nat.succ_pos k)
  have hsplit : scaledUnits 1 (pointPosition (k + 1) - 1) =
      10 ^ 16 * scaledUnits 1 (pointPosition (k + 1) - 17) := by
    have hmul := scaledUnits_mul_tenTo 1 16 (pointPosition (k + 1) - 17)
    rw [show pointPosition (k + 1) - 17 + (16 : Nat) = pointPosition (k + 1) - 1 by omega] at hmul
    rw [← hmul, scaledUnits_eq_mul, tenTo_eq]
    norm_num
  have hgap : ((units (k + 1) + 2 ^ 53 * units k : Nat) : ℚ) ≤ (2 ^ 53 * units (k + 1) : Nat) := by
    exact_mod_cast units_succ_le_mul_gap k
  have hgrows : (units k : ℚ) < units (k + 1) := by exact_mod_cast units_lt_units_succ k
  push_cast at hgap
  rw [Nat.succ_eq_add_one, hsplit] at hfirst
  linarith

/-- One of the two points around the value on a grid of seventeen digits is rounded to it: the
nearer one, which is at most half a step away. -/
theorem roundsTo_seventeen {k : Nat} (hk : 0 < k) :
    roundsTo k (floorOn k (pointPosition k - 17)) (pointPosition k - 17) = true ∨
      roundsTo k (floorOn k (pointPosition k - 17) + 1) (pointPosition k - 17) = true := by
  obtain ⟨j, rfl⟩ : ∃ j, k = j + 1 := ⟨k - 1, by omega⟩
  have hstep := step_lt_gap j
  have hgap : 2 * (units (j + 1) : ℚ) ≤ units j + units (j + 2) := by exact_mod_cast gap_mono j
  generalize pointPosition (j + 1) - 17 = e at hstep ⊢
  have hlow := floorOn_le (j + 1) e
  have hhigh := lt_floorOn_add_one (j + 1) e
  have hnext : scaledUnits (floorOn (j + 1) e + 1) e =
      scaledUnits (floorOn (j + 1) e) e + scaledUnits 1 e := by
    rw [scaledUnits_eq_mul, scaledUnits_eq_mul (floorOn (j + 1) e)]
    push_cast
    ring
  have hbelow : (halfway j : ℚ) = units j + units (j + 1) := by
    rw [halfway]
    push_cast
    rfl
  have habove : (halfway (j + 1) : ℚ) = units (j + 1) + units (j + 2) := by
    rw [halfway]
    push_cast
    rfl
  rw [roundsTo_iff (Nat.succ_pos j), roundsTo_iff (Nat.succ_pos j)]
  rcases le_or_gt (2 * (units (j + 1) : ℚ)) (2 * scaledUnits (floorOn (j + 1) e) e + scaledUnits 1 e)
    with hnear | hfar
  · left
    apply nearestScaled_eq_of_between <;> linarith
  · right
    apply nearestScaled_eq_of_between <;> linarith

/-! ## What is taken on a grid -/

/-- What is taken on a grid is one of the two points around the value, and is rounded to it. -/
theorem onGrid?_eq_some {tie : Tie} {k : Nat} {e : Int} {d : ShortDecimal}
    (h : onGrid? tie k e = some d) :
    d.exponent = e ∧ (d.digits = floorOn k e ∨ d.digits = floorOn k e + 1) ∧
      roundsTo k d.digits e = true := by
  unfold onGrid? at h
  dsimp only at h
  generalize floorOn k e = m at h ⊢
  generalize compareHalf k m e = half at h
  have hmod := Nat.mod_two_eq_zero_or_one m
  cases hfloor : roundsTo k m e <;> cases hnext : roundsTo k (m + 1) e <;> rw [hfloor, hnext] at h
  · cases h
  · cases h
    exact ⟨rfl, .inr rfl, hnext⟩
  · cases h
    exact ⟨rfl, .inl rfl, hfloor⟩
  · cases half with
    | lt =>
      cases h
      exact ⟨rfl, .inl rfl, hfloor⟩
    | gt =>
      cases h
      exact ⟨rfl, .inr rfl, hnext⟩
    | eq =>
      cases tie with
      | up =>
        cases h
        exact ⟨rfl, .inr rfl, hnext⟩
      | even =>
        cases h
        rcases hmod with heven | hodd
        · exact ⟨rfl, .inl (by simp [heven]), by simpa [heven] using hfloor⟩
        · exact ⟨rfl, .inr (by simp [hodd]), by simpa [hodd] using hnext⟩

theorem onGrid?_isSome (tie : Tie) {k : Nat} {e : Int}
    (h : roundsTo k (floorOn k e) e = true ∨ roundsTo k (floorOn k e + 1) e = true) :
    (onGrid? tie k e).isSome := by
  unfold onGrid?
  dsimp only
  generalize floorOn k e = m at h ⊢
  generalize compareHalf k m e = half
  cases hfloor : roundsTo k m e <;> cases hnext : roundsTo k (m + 1) e
  · rw [hfloor, hnext] at h
    simp at h
  · rfl
  · rfl
  · cases half
    · rfl
    · cases tie <;> rfl
    · rfl

theorem trimmed_eq (d : ShortDecimal) :
    nearestScaled d.trimmed.digits d.trimmed.exponent = nearestScaled d.digits d.exponent := by
  unfold trimmed
  split
  · next hten =>
    have hzero := nearestScaled_mul_tenTo 1 1 d.exponent
    rw [show 1 * tenTo 1 = 10 by decide, Nat.cast_one] at hzero
    rw [hten, hzero]
  · rfl

/-! ## The shortest decimal -/

/-- The first of several numbers in a row for which there is a result. -/
theorem exists_first_of_findSome? {f : Nat → Option ShortDecimal} {d : ShortDecimal}
    (h : (List.range' 1 17).findSome? f = some d) :
    ∃ n, 1 ≤ n ∧ n ≤ 17 ∧ f n = some d ∧ ∀ j, 1 ≤ j → j < n → f j = none := by
  obtain ⟨before, n, after, hrange, hn, hnone⟩ := List.findSome?_eq_some_iff.1 h
  have hmem : ∀ j, j ∈ before ++ n :: after ↔ 1 ≤ j ∧ j < 1 + 17 := by
    intro j
    rw [← hrange, List.mem_range'_1]
  have hsorted : (List.range' 1 17).Pairwise (· < ·) := by decide
  rw [hrange, List.pairwise_append, List.pairwise_cons] at hsorted
  have hin := (hmem n).1 (by simp)
  refine ⟨n, hin.1, by omega, hn, ?_⟩
  intro j hj hlt
  apply hnone
  have hjmem := (hmem j).2 ⟨hj, by omega⟩
  rw [List.mem_append, List.mem_cons] at hjmem
  rcases hjmem with hbefore | rfl | hafter
  · exact hbefore
  · omega
  · have hgreater := hsorted.2.1.1 j hafter
    omega

/-- The search, with what is done if it finds nothing.  The definition is opened as a function of
the magnitude: where it is applied to one, checking that step runs the search. -/
theorem ofMagnitude_eq_getD (tie : Tie) (k : Nat) :
    ofMagnitude tie k =
      (((List.range' 1 17).findSome? fun n : Nat => onGrid? tie k (pointPosition k - n)).map
        trimmed).getD ⟨floorOn k (pointPosition k - 17), pointPosition k - 17⟩ := by
  obtain ⟨f, hf⟩ : ∃ f, f = ofMagnitude := ⟨_, rfl⟩
  rw [← hf]
  delta ofMagnitude at hf
  rw [hf]
  dsimp only
  generalize List.findSome? _ _ = found
  cases found <;> rfl

/-- The shortest decimal is taken on the first grid where there is one. -/
theorem ofMagnitude_eq (tie : Tie) {k : Nat} (hk : 0 < k) :
    ∃ (n : Nat) (d : ShortDecimal), 1 ≤ n ∧ n ≤ 17 ∧ onGrid? tie k (pointPosition k - n) = some d ∧
      ofMagnitude tie k = d.trimmed ∧
      ∀ j : Nat, 1 ≤ j → j < n → onGrid? tie k (pointPosition k - j) = none := by
  have hlast := onGrid?_isSome tie (roundsTo_seventeen hk)
  have hsearch := ofMagnitude_eq_getD tie k
  cases hfound : (List.range' 1 17).findSome? fun n : Nat => onGrid? tie k (pointPosition k - n) with
  | some d =>
    obtain ⟨n, hlow, hhigh, hn, hnone⟩ := exists_first_of_findSome? hfound
    rw [hfound, Option.map_some, Option.getD_some] at hsearch
    exact ⟨n, d, hlow, hhigh, hn, hsearch, hnone⟩
  | none =>
    have hseventeen := List.findSome?_eq_none_iff.1 hfound 17 (by decide)
    rw [Nat.cast_ofNat] at hseventeen
    rw [hseventeen] at hlast
    cases hlast

/-- The shortest decimal of a magnitude is rounded to that magnitude. -/
theorem nearestScaled_ofMagnitude (tie : Tie) {k : Nat} (hk : 0 < k) :
    nearestScaled (ofMagnitude tie k).digits (ofMagnitude tie k).exponent = k := by
  obtain ⟨n, d, -, -, hgrid, hd, -⟩ := ofMagnitude_eq tie hk
  obtain ⟨hexponent, -, hrounds⟩ := onGrid?_eq_some hgrid
  rw [hd, trimmed_eq, hexponent]
  exact (roundsTo_iff hk).1 hrounds

theorem digits_ofMagnitude_pos (tie : Tie) {k : Nat} (hk : 0 < k) :
    0 < (ofMagnitude tie k).digits := by
  have hround := nearestScaled_ofMagnitude tie hk
  by_contra hzero
  rw [Nat.eq_zero_of_not_pos hzero, nearestScaled_zero_left] at hround
  omega

theorem floorOn_lt (k n : Nat) : floorOn k (pointPosition k - n) < tenTo n := by
  have hlow := floorOn_le k (pointPosition k - n)
  have hhigh := lt_pointPosition k
  have hstep := scaledUnits_pos Nat.one_pos (pointPosition k - n)
  have hten := scaledUnits_mul_tenTo 1 n (pointPosition k - n)
  rw [Nat.one_mul, Int.sub_add_cancel] at hten
  rw [← hten, scaledUnits_eq_mul] at hhigh
  rw [scaledUnits_eq_mul] at hlow
  have hlt := lt_of_mul_lt_mul_right (hlow.trans_lt hhigh) hstep.le
  exact_mod_cast hlt

/-- A shortest decimal has no more than seventeen digits, or is the power of ten after them. -/
theorem digits_ofMagnitude_le (tie : Tie) {k : Nat} (hk : 0 < k) :
    (ofMagnitude tie k).digits ≤ tenTo 17 := by
  obtain ⟨n, d, -, hn, hgrid, hd, -⟩ := ofMagnitude_eq tie hk
  obtain ⟨-, hdigits, -⟩ := onGrid?_eq_some hgrid
  have hfloor := floorOn_lt k n
  have hten : tenTo n ≤ tenTo 17 := tenTo_mono hn
  have htrimmed : d.trimmed.digits ≤ d.digits := by
    unfold trimmed
    split
    · next hten =>
      rw [hten]
      exact Nat.le_of_ble_eq_true rfl
    · exact Nat.le_refl _
  rw [hd]
  omega

/-! ## Whole numbers -/

section Whole

variable {k v : Nat} (hk : 0 < k) (h : units k = v * one)
include h

theorem floorOn_zero : floorOn k 0 = v := by
  have hone : powerOfTen 0 = (1, 1) := rfl
  rw [floorOn, hone]
  dsimp only
  rw [h, Nat.mul_one, Nat.mul_one, Nat.mul_div_cancel _ Binary64.one_pos]

include hk

/-- A whole number has a digit before the point. -/
theorem pointPosition_pos : 0 < pointPosition k := by
  by_contra hle
  have hpos : 0 < v := by
    by_contra hzero
    rw [Nat.eq_zero_of_not_pos hzero, Nat.zero_mul] at h
    have hunits := le_units k
    omega
  have hvalue : (units k : ℚ) = v * scaledUnits 1 0 := by
    rw [h, scaledUnits]
    push_cast
    ring
  have hone : scaledUnits 1 0 ≤ v * scaledUnits 1 0 :=
    le_mul_of_one_le_left (scaledUnits_pos Nat.one_pos 0).le (by exact_mod_cast hpos)
  have hmono := scaledUnits_mono 1 (Int.not_lt.1 hle)
  have hhigh := lt_pointPosition k
  linarith

/-- The shortest decimal of a whole number has no digit after the point: the number itself stands on
the grid of the whole numbers. -/
theorem exponent_ofMagnitude_nonneg (tie : Tie) : 0 ≤ (ofMagnitude tie k).exponent := by
  obtain ⟨n, d, -, -, hgrid, hd, hnone⟩ := ofMagnitude_eq tie hk
  obtain ⟨hexponent, -, -⟩ := onGrid?_eq_some hgrid
  have hpoint := pointPosition_pos hk h
  have hwhole : (onGrid? tie k 0).isSome := by
    apply onGrid?_isSome
    left
    rw [floorOn_zero h, roundsTo_iff hk, nearestScaled_zero, nearest_of_units_eq h]
  have hn : (n : Int) ≤ pointPosition k := by
    by_contra hgt
    have hzero := hnone (pointPosition k).toNat (by omega) (by omega)
    rw [show pointPosition k - (pointPosition k).toNat = 0 by omega] at hzero
    rw [hzero] at hwhole
    cases hwhole
  rw [hd, trimmed]
  split
  · show 0 ≤ d.exponent + 1
    omega
  · omega

end Whole

end ShortDecimal

end RecordFilter.Number
