import Mathlib
import RecordFilter.Proofs.Number.Nearest

/-!
# The numbers that doubles denote

A double that is a number denotes a quotient, or an infinity, which lies beyond all quotients:
`number?`.  Every such number, whether a double denotes it or not, has a double nearest to it.

* `rank_closest_mono`: a larger number never has a double of a smaller rank nearest to it.
* `rank_closest_of_number?`: the double nearest to the number of a double is that double, up to
  the sign of zero.
* `closest_intCast`: for whole numbers the nearest double is the one that `ofInt` takes.
-/

namespace RecordFilter.Number.Binary64

/-- The number that a double denotes, if it is one; the two infinities lie beyond all quotients. -/
def number? (x : Binary64) : Option (WithBot (WithTop ℚ)) :=
  if x.isNaN then none
  else if x.isFinite then
    let q : ℚ := units x.magnitude.toNat / one
    some (if x.negative then ((-q : ℚ) : WithTop ℚ) else (q : WithTop ℚ))
  else some (if x.negative then ⊥ else ⊤)

/-- The double nearest to a quotient. -/
def ofQuotient (q : ℚ) : Binary64 :=
  ofRatio (q < 0) q.num.natAbs q.den

/-- The double nearest to a number. -/
def closest : WithBot (WithTop ℚ) → Binary64 :=
  WithBot.recBotCoe (infinity true) (WithTop.recTopCoe (infinity false) ofQuotient)

theorem isNaN_eq_false {x : Binary64} (h : x.isFinite) : x.isNaN = false := by
  rw [Bool.eq_false_iff]
  intro hnan
  rw [isFinite_eq_false_of_isNaN hnan] at h
  cases h

/-! ## Quotients -/

/-- Of two quotients the larger is never rounded to a smaller magnitude. -/
theorem nearest_le_nearest {num den num' den' : Nat} (hden : 0 < den) (hden' : 0 < den')
    (h : num * den' ≤ num' * den) : nearest num den ≤ nearest num' den' := by
  calc nearest num den = nearest (num * den') (den * den') := (nearest_scale hden' _ _).symm
    _ ≤ nearest (num' * den) (den * den') := nearest_mono (Nat.mul_pos hden hden') h
    _ = nearest num' den' := by rw [Nat.mul_comm den den', nearest_scale hden]

/-- The absolute value of a quotient, as it is taken apart to be rounded. -/
theorem abs_eq_natAbs_div (q : ℚ) : |q| = (q.num.natAbs : ℚ) / q.den := by
  calc |q| = |(q.num : ℚ) / q.den| := by rw [Rat.num_div_den]
    _ = (q.num.natAbs : ℚ) / q.den := by
      rw [abs_div, Nat.abs_cast, Nat.cast_natAbs, Int.cast_abs]

/-- The magnitude nearest to a quotient does not depend on how the quotient is written. -/
theorem nearest_of_abs_eq {q : ℚ} {num den : Nat} (hden : 0 < den) (h : |q| = (num : ℚ) / den) :
    nearest q.num.natAbs q.den = nearest num den := by
  rw [abs_eq_natAbs_div, div_eq_div_iff (by exact_mod_cast q.den_ne_zero)
    (by exact_mod_cast hden.ne')] at h
  have hcross : q.num.natAbs * den = num * q.den := by exact_mod_cast h
  exact le_antisymm (nearest_le_nearest q.den_pos hden hcross.le)
    (nearest_le_nearest hden q.den_pos hcross.ge)

theorem nearest_mono_abs {q r : ℚ} (h : |q| ≤ |r|) :
    nearest q.num.natAbs q.den ≤ nearest r.num.natAbs r.den := by
  rw [abs_eq_natAbs_div, abs_eq_natAbs_div, div_le_div_iff₀ (by exact_mod_cast q.den_pos)
    (by exact_mod_cast r.den_pos)] at h
  exact nearest_le_nearest q.den_pos r.den_pos (by exact_mod_cast h)

/-! ## Ranks -/

theorem rank_ofMagnitude (negative : Bool) (k : Nat) :
    (ofMagnitude negative k).rank =
      if negative then -((min k infinite : Nat) : Int) else (min k infinite : Nat) := by
  rw [rank, toNat_magnitude_ofMagnitude]
  rfl

/-- No magnitude that is made from a number stands for what is not one. -/
theorem isNaN_ofMagnitude (negative : Bool) (k : Nat) :
    (ofMagnitude negative k).isNaN = false := by
  rw [isNaN, toNat_magnitude_ofMagnitude, decide_eq_false_iff_not, Nat.not_lt]
  exact Nat.min_le_right k infinite

theorem isNaN_closest (x : WithBot (WithTop ℚ)) : (closest x).isNaN = false := by
  induction x using WithBot.recBotCoe with
  | bot => exact isNaN_ofMagnitude true infinite
  | coe x =>
    induction x using WithTop.recTopCoe with
    | top => exact isNaN_ofMagnitude false infinite
    | coe q => exact isNaN_ofMagnitude _ _

/-- The infinities have the least and the greatest rank of all numbers. -/
theorem rank_closest_bounds (x : WithBot (WithTop ℚ)) :
    (infinity true).rank ≤ (closest x).rank ∧ (closest x).rank ≤ (infinity false).rank := by
  have hbounds : ∀ negative k, (infinity true).rank ≤ (ofMagnitude negative k).rank ∧
      (ofMagnitude negative k).rank ≤ (infinity false).rank := by
    intro negative k
    simp only [infinity, rank_ofMagnitude, min_self]
    cases negative with
    | true => simp only [if_true, Bool.false_eq_true, if_false]; omega
    | false => simp only [if_true, Bool.false_eq_true, if_false]; omega
  induction x using WithBot.recBotCoe with
  | bot => exact hbounds true infinite
  | coe x =>
    induction x using WithTop.recTopCoe with
    | top => exact hbounds false infinite
    | coe q => exact hbounds _ _

theorem rank_ofQuotient_mono {q r : ℚ} (h : q ≤ r) : (ofQuotient q).rank ≤ (ofQuotient r).rank := by
  simp only [ofQuotient, ofRatio, rank_ofMagnitude, decide_eq_true_eq]
  rcases lt_or_ge r 0 with hr | hr
  · have hq : q < 0 := lt_of_le_of_lt h hr
    have hle : nearest r.num.natAbs r.den ≤ nearest q.num.natAbs q.den :=
      nearest_mono_abs (abs_le_abs_of_nonpos hr.le h)
    rw [if_pos hq, if_pos hr]
    omega
  · rw [if_neg hr.not_gt]
    rcases lt_or_ge q 0 with hq | hq
    · rw [if_pos hq]
      omega
    · have hle : nearest q.num.natAbs q.den ≤ nearest r.num.natAbs r.den :=
        nearest_mono_abs (abs_le_abs_of_nonneg hq h)
      rw [if_neg hq.not_gt]
      omega

/-- Rounding to a double keeps the order of numbers, the infinities among them. -/
theorem rank_closest_mono {x y : WithBot (WithTop ℚ)} (h : x ≤ y) :
    (closest x).rank ≤ (closest y).rank := by
  induction x using WithBot.recBotCoe with
  | bot => exact (rank_closest_bounds y).1
  | coe x =>
    induction y using WithBot.recBotCoe with
    | bot => exact absurd h (WithBot.not_coe_le_bot x)
    | coe y =>
      have hle : x ≤ y := WithBot.coe_le_coe.1 h
      induction y using WithTop.recTopCoe with
      | top => exact (rank_closest_bounds x).2
      | coe r =>
        induction x using WithTop.recTopCoe with
        | top => exact absurd hle (WithTop.not_top_le_coe r)
        | coe q => exact rank_ofQuotient_mono (WithTop.coe_le_coe.1 hle)

/-! ## Numbers that are exact -/

theorem closest_intCast (n : Int) : closest (((n : ℚ) : WithTop ℚ)) = ofInt n := by
  change ofQuotient n = ofInt n
  simp [ofQuotient, ofInt]

theorem rank_ofQuotient_units (negative : Bool) {k : Nat} {q : ℚ} (hk : k < infinite)
    (hq : q = if negative then -((units k : ℚ) / one) else (units k : ℚ) / one) :
    (ofQuotient q).rank = if negative then -(k : Int) else k := by
  have hone : (0 : ℚ) < one := by exact_mod_cast one_pos
  have hnonneg : 0 ≤ (units k : ℚ) / one := div_nonneg (Nat.cast_nonneg _) hone.le
  have habs : |q| = (units k : ℚ) / one := by
    rw [hq]
    cases negative
    · exact abs_of_nonneg hnonneg
    · rw [if_pos rfl, abs_neg, abs_of_nonneg hnonneg]
  have hnearest : nearest q.num.natAbs q.den = k :=
    (nearest_of_abs_eq one_pos habs).trans (nearest_units k)
  rw [ofQuotient, ofRatio, rank_ofMagnitude, hnearest, min_eq_left hk.le]
  rcases Nat.eq_zero_or_pos k with rfl | hpos
  · simp
  · have hunits : 0 < (units k : ℚ) / one :=
      div_pos (Nat.cast_pos.2 (hpos.trans_le (le_units k))) hone
    cases negative with
    | true => simp only [hq, if_true, Left.neg_neg_iff, hunits, decide_true]
    | false =>
      simp only [hq, Bool.false_eq_true, if_false, hnonneg.not_gt, decide_false]

/-- A double is the nearest to the number that it denotes, up to the sign of zero. -/
theorem rank_closest_of_number? {x : Binary64} {y : WithBot (WithTop ℚ)}
    (h : x.number? = some y) : x.isNaN = false ∧ (closest y).rank = x.rank := by
  cases hnan : x.isNaN with
  | true => simp [number?, hnan] at h
  | false =>
    refine ⟨rfl, ?_⟩
    rw [number?, hnan, if_neg Bool.false_ne_true] at h
    split at h
    · next hfinite =>
      have hk : x.magnitude.toNat < infinite := by simpa [isFinite] using hfinite
      obtain ⟨rfl⟩ := h
      unfold rank
      cases hnegative : x.negative with
      | true => exact rank_ofQuotient_units true hk rfl
      | false => exact rank_ofQuotient_units false hk rfl
    · next hfinite =>
      have hk : x.magnitude.toNat = infinite := by
        simp only [isFinite, isNaN, decide_eq_true_eq, decide_eq_false_iff_not] at hfinite hnan
        omega
      obtain ⟨rfl⟩ := h
      unfold rank
      rw [hk]
      cases hnegative : x.negative with
      | true => exact rank_ofMagnitude true infinite
      | false => exact rank_ofMagnitude false infinite

/-- A double that is a whole number denotes that number. -/
theorem number?_of_toInt? {x : Binary64} {n : Int} (h : x.toInt? = some n) :
    x.number? = some ((n : ℚ) : WithTop ℚ) := by
  rw [toInt?] at h
  split at h
  · next hwhole =>
    obtain ⟨hfinite, hmod⟩ := hwhole
    have hnan := isNaN_eq_false hfinite
    have hone : (one : ℚ) ≠ 0 := Nat.cast_ne_zero.2 one_pos.ne'
    have hquotient : (units x.magnitude.toNat : ℚ) / one =
        ((units x.magnitude.toNat / one : Nat) : ℚ) :=
      (Nat.cast_div (Nat.dvd_of_mod_eq_zero hmod) hone).symm
    have hn : n = if x.negative then -((units x.magnitude.toNat / one : Nat) : Int)
        else ((units x.magnitude.toNat / one : Nat) : Int) := (Option.some.inj h).symm
    simp only [number?, hnan, hfinite, Bool.false_eq_true, if_false, if_true, hquotient, hn]
    generalize units x.magnitude.toNat / one = m
    cases x.negative <;> simp
  · cases h

end RecordFilter.Number.Binary64
