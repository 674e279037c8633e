import Mathlib
import RecordFilter.Proofs.Number.Nearest

/-!
# How far several roundings stray

A quotient that is rounded changes by a factor of no more than `1 + 2 ^ -53`, unless it is smaller
than all the magnitudes that have as many bits (`close_nearest`).  Two values are `Close` if so many
roundings lie between them.  Then the magnitudes nearest to them are only so many steps apart:
`nearest_le_of_close`.
-/

namespace RecordFilter.Number

/-- The factor by which a rounding may change a value. -/
def roundoff : ℚ :=
  1 + 1 / 2 ^ 53

/-- Whether no more than `n` roundings lie between two values. -/
def Close (n : Nat) (a b : ℚ) : Prop :=
  a ≤ b * roundoff ^ n ∧ b ≤ a * roundoff ^ n

theorem one_lt_roundoff : 1 < roundoff := by
  norm_num [roundoff]

theorem one_le_roundoff_pow (n : Nat) : 1 ≤ roundoff ^ n :=
  one_le_pow₀ one_lt_roundoff.le

theorem roundoff_pow_pos (n : Nat) : 0 < roundoff ^ n :=
  lt_of_lt_of_le one_pos (one_le_roundoff_pow n)

namespace Close

variable {i j : Nat} {a b c d : ℚ}

theorem symm (h : Close i a b) : Close i b a :=
  ⟨h.2, h.1⟩

theorem of_eq (ha : 0 ≤ a) (h : a = b) : Close i a b := by
  subst h
  exact ⟨le_mul_of_one_le_right ha (one_le_roundoff_pow i),
    le_mul_of_one_le_right ha (one_le_roundoff_pow i)⟩

theorem trans (h : Close i a b) (h' : Close j b c) : Close (i + j) a c := by
  constructor
  · calc a ≤ b * roundoff ^ i := h.1
      _ ≤ c * roundoff ^ j * roundoff ^ i :=
        mul_le_mul_of_nonneg_right h'.1 (roundoff_pow_pos i).le
      _ = c * roundoff ^ (i + j) := by rw [pow_add]; ring
  · calc c ≤ b * roundoff ^ j := h'.2
      _ ≤ a * roundoff ^ i * roundoff ^ j :=
        mul_le_mul_of_nonneg_right h.2 (roundoff_pow_pos j).le
      _ = a * roundoff ^ (i + j) := by rw [pow_add]; ring

theorem mono (h : Close i a b) (ha : 0 ≤ a) (hb : 0 ≤ b) (hij : i ≤ j) : Close j a b := by
  have hpow : roundoff ^ i ≤ roundoff ^ j := pow_le_pow_right₀ one_lt_roundoff.le hij
  exact ⟨h.1.trans (mul_le_mul_of_nonneg_left hpow hb),
    h.2.trans (mul_le_mul_of_nonneg_left hpow ha)⟩

theorem mul (h : Close i a b) (h' : Close j c d) (ha : 0 ≤ a) (hb : 0 ≤ b) (hc : 0 ≤ c)
    (hd : 0 ≤ d) : Close (i + j) (a * c) (b * d) := by
  have hi := roundoff_pow_pos i
  have hj := roundoff_pow_pos j
  constructor
  · calc a * c ≤ b * roundoff ^ i * (d * roundoff ^ j) := mul_le_mul h.1 h'.1 hc (by positivity)
      _ = b * d * roundoff ^ (i + j) := by rw [pow_add]; ring
  · calc b * d ≤ a * roundoff ^ i * (c * roundoff ^ j) := mul_le_mul h.2 h'.2 hd (by positivity)
      _ = a * c * roundoff ^ (i + j) := by rw [pow_add]; ring

theorem inv (h : Close i a b) (ha : 0 < a) (hb : 0 < b) : Close i a⁻¹ b⁻¹ := by
  have hi := roundoff_pow_pos i
  constructor
  · rw [inv_eq_one_div, inv_mul_eq_div, div_le_div_iff₀ ha hb, one_mul, mul_comm]
    exact h.2
  · rw [inv_eq_one_div, inv_mul_eq_div, div_le_div_iff₀ hb ha, one_mul, mul_comm]
    exact h.1

theorem div (h : Close i a b) (h' : Close j c d) (ha : 0 ≤ a) (hb : 0 ≤ b) (hc : 0 < c)
    (hd : 0 < d) : Close (i + j) (a / c) (b / d) := by
  rw [div_eq_mul_inv, div_eq_mul_inv]
  exact h.mul (h'.inv hc hd) ha hb (inv_pos.2 hc).le (inv_pos.2 hd).le

end Close

namespace Binary64

/-- A quotient in units of the smallest positive magnitude. -/
def value (num den : Nat) : ℚ :=
  num * one / den

theorem value_nonneg (num den : Nat) : 0 ≤ value num den := by
  unfold value
  positivity

theorem value_mul_den {den : Nat} (hden : 0 < den) (num : Nat) :
    value num den * den = ((num * one : Nat) : ℚ) := by
  have hne : (den : ℚ) ≠ 0 := by exact_mod_cast hden.ne'
  rw [value]
  push_cast
  field_simp

theorem le_value_iff {num den n : Nat} (hden : 0 < den) :
    n ≤ value num den ↔ n * den ≤ num * one := by
  have hpos : (0 : ℚ) < den := by exact_mod_cast hden
  rw [← mul_le_mul_iff_left₀ hpos, value_mul_den hden]
  norm_cast

/-- A quotient is rounded to one of its two neighbours, and to the nearer one. -/
theorem nearest_eq_or {den : Nat} (hden : 0 < den) (num : Nat) :
    ∃ k, units k ≤ value num den ∧ value num den < units (k + 1) ∧
      (nearest num den = k ∧ 2 * value num den ≤ units k + units (k + 1) ∨
        nearest num den = k + 1 ∧ units k + units (k + 1) ≤ 2 * value num den) := by
  obtain ⟨k, hlow, hhigh⟩ := exists_between hden num
  have hnearest := nearest_of_between hden hlow hhigh
  have hpos : (0 : ℚ) < den := by exact_mod_cast hden
  have hmod := Nat.mod_two_eq_zero_or_one k
  have hbelow : 2 * (num * one) ≤ (units k + units (k + 1)) * den →
      2 * value num den ≤ units k + units (k + 1) := by
    intro h
    rw [← mul_le_mul_iff_left₀ hpos, mul_assoc, value_mul_den hden]
    exact_mod_cast h
  have habove : (units k + units (k + 1)) * den ≤ 2 * (num * one) →
      units k + units (k + 1) ≤ 2 * value num den := by
    intro h
    rw [← mul_le_mul_iff_left₀ hpos, mul_assoc, value_mul_den hden]
    exact_mod_cast h
  refine ⟨k, (le_value_iff hden).2 hlow, ?_, ?_⟩
  · rw [← not_le, le_value_iff hden]
    exact Nat.not_le.2 hhigh
  · rw [hnearest]
    split_ifs with hless hmore
    · exact .inl ⟨rfl, hbelow hless.le⟩
    · exact .inr ⟨rfl, habove hmore.le⟩
    · rcases hmod with heven | hodd
      · exact .inl ⟨by omega, hbelow (Nat.not_lt.1 hmore)⟩
      · exact .inr ⟨by omega, habove (Nat.not_lt.1 hless)⟩

/-- The step above a magnitude, and that the magnitude is no more than `2 ^ 53` of them. -/
theorem exists_step (k : Nat) :
    ∃ g : Nat, 0 < g ∧ units (k + 1) = units k + g ∧ units (k + 1) ≤ 2 ^ 53 * g ∧
      (binade ≤ k → 2 ^ 52 * g ≤ units k) := by
  obtain ⟨s, n, hk, hn, hs, hunits, hunits'⟩ := exists_exponent k
  have hbinade : binade = 2 ^ 52 := by decide
  refine ⟨2 ^ s, Nat.two_pow_pos s, ?_, ?_, ?_⟩
  · rw [hunits, hunits']
    ring
  · rw [hunits']
    exact Nat.mul_le_mul_right _ (by omega)
  · intro hle
    rw [hunits]
    apply Nat.mul_le_mul_right
    rcases Nat.eq_zero_or_pos s with rfl | hpos
    · omega
    · have hstart := hs hpos
      omega

/-- One rounding changes a quotient by no more than the factor, if it reaches the magnitudes that have
fifty-three bits. -/
theorem close_nearest {num den : Nat} (hden : 0 < den) (h : binade ≤ value num den) :
    Close 1 (units (nearest num den)) (value num den) := by
  obtain ⟨k, hlow, hhigh, hnearest⟩ := nearest_eq_or hden num
  obtain ⟨g, hg, hnext, -, hlarge⟩ := exists_step k
  have hk : binade ≤ k := by
    by_contra hlt
    have hunits : units (k + 1) ≤ binade := by
      rw [units_of_lt (by have := binade_pos; omega)]
      omega
    have hle : (units (k + 1) : ℚ) ≤ binade := by exact_mod_cast hunits
    linarith
  have hstep : (2 ^ 52 * g : ℚ) ≤ units k := by exact_mod_cast hlarge hk
  have hnext' : (units (k + 1) : ℚ) = units k + g := by exact_mod_cast hnext
  rw [hnext'] at hhigh hnearest
  rcases hnearest with ⟨heq, hhalf⟩ | ⟨heq, hhalf⟩
  · rw [heq]
    constructor <;> rw [pow_one, roundoff] <;> linarith
  · rw [heq, hnext']
    constructor <;> rw [pow_one, roundoff] <;> linarith

/-- A rounding changes little also where up to two bits are missing. -/
theorem close_nearest_of_le {num den : Nat} (hden : 0 < den) (h : 2 ^ 50 ≤ value num den) :
    Close 5 (units (nearest num den)) (value num den) := by
  rcases le_or_gt (binade : ℚ) (value num den) with hlarge | hsmall
  · exact (close_nearest hden hlarge).mono (Nat.cast_nonneg _) (value_nonneg num den) (by decide)
  · obtain ⟨k, hlow, hhigh, hnearest⟩ := nearest_eq_or hden num
    have hk : units k < binade := by exact_mod_cast hlow.trans_lt hsmall
    have hnext : units (k + 1) = units k + 1 := by
      have hle := le_units k
      rw [units_of_lt (by omega), units_of_lt (by omega)]
    have hnext' : (units (k + 1) : ℚ) = units k + 1 := by exact_mod_cast hnext
    have hpow : 1 + 1 / (2 ^ 51 - 1) ≤ roundoff ^ 5 := by norm_num [roundoff]
    have hbound : ∀ a b : ℚ, 2 ^ 50 - 1 / 2 ≤ b → a ≤ b + 1 / 2 → a ≤ b * roundoff ^ 5 := by
      intro a b hb hab
      have hmul := mul_le_mul_of_nonneg_left hpow (show 0 ≤ b by linarith)
      linarith
    rw [hnext'] at hnearest
    rcases hnearest with ⟨heq, hhalf⟩ | ⟨heq, hhalf⟩
    · rw [heq]
      constructor <;> apply hbound <;> linarith
    · rw [heq, hnext']
      constructor <;> apply hbound <;> linarith

/-! ## Steps -/

/-- Steps never become smaller, so that so many of them are at least so many of the first. -/
theorem units_add_mul_le {k g : Nat} (hg : units (k + 1) = units k + g) (i : Nat) :
    units k + i * g ≤ units (k + i) := by
  have hstep : ∀ i, units (k + i) + g ≤ units (k + i + 1) := by
    intro i
    induction i with
    | zero => exact hg.ge
    | succ i ih =>
      have hmono := gap_mono (k + i)
      show units (k + i + 1) + g ≤ units (k + i + 2)
      omega
  induction i with
  | zero => simp
  | succ i ih =>
    have hnext := hstep i
    rw [Nat.add_mul, Nat.one_mul, ← Nat.add_assoc k]
    omega

theorem nearest_le_of_value_lt {num den k : Nat} (hden : 0 < den)
    (h : 2 * value num den < halfway k) : nearest num den ≤ k := by
  have hpos : (0 : ℚ) < den := by exact_mod_cast hden
  have hlt : 2 * (num * one) < halfway k * den := by
    rw [← mul_lt_mul_iff_left₀ hpos, mul_assoc, value_mul_den hden] at h
    exact_mod_cast h
  rw [nearest_le_iff hden]
  split
  · exact hlt.le
  · exact hlt

theorem two_mul_value_le {den : Nat} (hden : 0 < den) (num : Nat) :
    2 * value num den ≤ halfway (nearest num den) := by
  have hpos : (0 : ℚ) < den := by exact_mod_cast hden
  have hiff : nearest num den ≤ nearest num den ↔ _ := nearest_le_iff hden
  have hle := hiff.1 (Nat.le_refl _)
  have hle' : 2 * (num * one) ≤ halfway (nearest num den) * den := by
    split at hle
    · exact hle
    · exact hle.le
  rw [← mul_le_mul_iff_left₀ hpos, mul_assoc, value_mul_den hden]
  exact_mod_cast hle'

/-- A value that is above another by no more than so many steps is rounded to no more than one step
further. -/
theorem nearest_le_add {num den num' den' i : Nat} (hden : 0 < den) (hden' : 0 < den')
    (h : ∀ g : Nat, units (nearest num den + 1) = units (nearest num den) + g →
      2 * value num' den' < 2 * value num den + (2 * i + 2) * g) :
    nearest num' den' ≤ nearest num den + (i + 1) := by
  obtain ⟨g, hg, hnext, -⟩ := exists_step (nearest num den)
  have hvalue := two_mul_value_le hden num
  have hlt := h g hnext
  have hsteps := units_add_mul_le hnext (i + 1)
  have hsteps' := units_add_mul_le hnext (i + 2)
  have hhalf :
      halfway (nearest num den) + (2 * i + 2) * g ≤ halfway (nearest num den + (i + 1)) := by
    unfold halfway
    rw [hnext, Nat.add_assoc (nearest num den) (i + 1) 1, show i + 1 + 1 = i + 2 from rfl]
    have hdistrib : (2 * i + 2) * g + g = (i + 1) * g + (i + 2) * g := by ring
    omega
  apply nearest_le_of_value_lt hden'
  have hhalf' : (halfway (nearest num den) : ℚ) + (2 * i + 2) * g ≤
      halfway (nearest num den + (i + 1)) := by exact_mod_cast hhalf
  linarith

/-- Values with so many roundings between them are rounded to magnitudes so many steps apart and one
more. -/
theorem nearest_le_of_close {num den num' den' i : Nat} (hi : i ≤ 4) (hden : 0 < den)
    (hden' : 0 < den') (h : Close i (value num' den') (value num den)) :
    nearest num' den' ≤ nearest num den + (i + 1) := by
  apply nearest_le_add hden hden'
  intro g hnext
  obtain ⟨g', hg, hnext', hsmall, -⟩ := exists_step (nearest num den)
  obtain rfl : g = g' := by omega
  have hvalue := two_mul_value_le hden num
  have hhalf : (halfway (nearest num den) : ℚ) = 2 * units (nearest num den) + g := by
    rw [halfway, hnext]
    push_cast
    ring
  have hbound : (units (nearest num den) : ℚ) + g ≤ 2 ^ 53 * g := by
    rw [hnext] at hsmall
    exact_mod_cast hsmall
  have hgpos : (0 : ℚ) < g := by exact_mod_cast hg
  have hpow : roundoff ^ i ≤ 1 + (i + 1 / 4) / 2 ^ 53 := by
    interval_cases i <;> norm_num [roundoff]
  have hle : 2 * value num' den' ≤ 2 * value num den * (1 + (i + 1 / 4) / 2 ^ 53) := by
    have hnonneg := value_nonneg num den
    calc 2 * value num' den' ≤ 2 * (value num den * roundoff ^ i) :=
          mul_le_mul_of_nonneg_left h.1 (by norm_num)
      _ = 2 * value num den * roundoff ^ i := by ring
      _ ≤ 2 * value num den * (1 + (i + 1 / 4) / 2 ^ 53) :=
        mul_le_mul_of_nonneg_left hpow (by positivity)
  have hextra : 2 * value num den * ((i + 1 / 4) / 2 ^ 53) ≤ (2 * i + 1 / 2) * g := by
    calc 2 * value num den * ((i + 1 / 4) / 2 ^ 53) ≤ 2 ^ 54 * g * ((i + 1 / 4) / 2 ^ 53) :=
          mul_le_mul_of_nonneg_right (by linarith) (by positivity)
      _ = (2 * i + 1 / 2) * g := by ring
  linarith

/-- Where the steps are all the smallest there is, more roundings make no more than one step. -/
theorem nearest_le_succ_of_close {num den num' den' : Nat} (hden : 0 < den) (hden' : 0 < den')
    (hsmall : value num den ≤ 3 * 2 ^ 48) (h : Close 8 (value num' den') (value num den)) :
    nearest num' den' ≤ nearest num den + 1 := by
  have hpow : roundoff ^ 8 ≤ 1 + 9 / 2 ^ 53 := by norm_num [roundoff]
  have hle : value num' den' ≤ value num den * (1 + 9 / 2 ^ 53) :=
    h.1.trans (mul_le_mul_of_nonneg_left hpow (value_nonneg num den))
  have hextra : value num den * (9 / 2 ^ 53) ≤ 3 * 2 ^ 48 * (9 / 2 ^ 53) :=
    mul_le_mul_of_nonneg_right hsmall (by norm_num)
  have hsteps : ∀ g : Nat, units (nearest num den + 1) = units (nearest num den) + g →
      2 * value num' den' < 2 * value num den + (2 * (0 : Nat) + 2) * g := by
    intro g hnext
    have hgpos : (1 : ℚ) ≤ g := by
      have hlt := units_lt_units_succ (nearest num den)
      exact_mod_cast (show 1 ≤ g by omega)
    rw [Nat.cast_zero, mul_zero, zero_add]
    linarith
  exact nearest_le_add hden hden' hsteps

end Binary64

end RecordFilter.Number
