import Mathlib
import RecordFilter.Number.Binary64

/-!
# Rounding keeps the order

Rounding a quotient to a whole number, and rounding it to a magnitude, depend on the
quotient alone (`divHalfEven_scale`, `nearest_scale`), and a larger quotient is never
rounded to less (`divHalfEven_mono`, `nearest_mono`).

A magnitude is its own rounding, so it bounds the rounding of everything on one side of it:
`le_nearest` and `nearest_le` are the form in which that is used.
-/

namespace RecordFilter.Number

/-! ## Rounding a quotient -/

theorem divHalfEven_scale {c : Nat} (hc : 0 < c) (num den : Nat) :
    divHalfEven (num * c) (den * c) = divHalfEven num den := by
  have hdiv : num * c / (den * c) = num / den := Nat.mul_div_mul_right num den hc
  have hmod : num * c % (den * c) = num % den * c := Nat.mul_mod_mul_right c num den
  have hlt : 2 * (num % den * c) < den * c ↔ 2 * (num % den) < den := by
    rw [← Nat.mul_assoc]
    exact Nat.mul_lt_mul_right hc
  have hgt : den * c < 2 * (num % den * c) ↔ den < 2 * (num % den) := by
    rw [← Nat.mul_assoc]
    exact Nat.mul_lt_mul_right hc
  simp only [divHalfEven, hdiv, hmod, hlt, hgt]

theorem div_le_divHalfEven (num den : Nat) : num / den ≤ divHalfEven num den := by
  unfold divHalfEven
  split_ifs <;> omega

theorem divHalfEven_le_div_add_one (num den : Nat) : divHalfEven num den ≤ num / den + 1 := by
  have hmod := Nat.mod_lt (num / den) two_pos
  unfold divHalfEven
  split_ifs <;> omega

/-- A larger numerator never rounds to less. -/
theorem divHalfEven_mono {num num' : Nat} (h : num ≤ num') (den : Nat) :
    divHalfEven num den ≤ divHalfEven num' den := by
  have hdiv : num / den ≤ num' / den := Nat.div_le_div_right h
  rcases Nat.lt_or_eq_of_le hdiv with hlt | heq
  · have hhigh := divHalfEven_le_div_add_one num den
    have hlow := div_le_divHalfEven num' den
    omega
  · have hmod : num % den ≤ num' % den := by
      have hnum := Nat.div_add_mod num den
      have hnum' := Nat.div_add_mod num' den
      rw [heq] at hnum
      omega
    have hodd := Nat.mod_lt (num' / den) two_pos
    unfold divHalfEven
    rw [heq]
    split_ifs <;> omega

theorem divHalfEven_le {q num den : Nat} (hden : 0 < den) (h : num ≤ q * den) :
    divHalfEven num den ≤ q := by
  rw [← @divHalfEven_mul q den hden]
  exact divHalfEven_mono h den

theorem le_divHalfEven {q num den : Nat} (hden : 0 < den) (h : q * den ≤ num) :
    q ≤ divHalfEven num den := by
  rw [← @divHalfEven_mul q den hden]
  exact divHalfEven_mono h den

theorem log2_mono {m n : Nat} (h : m ≤ n) : m.log2 ≤ n.log2 := by
  by_cases hm : m = 0
  · rw [hm, Nat.log2_zero]
    exact Nat.zero_le _
  · have hn : n ≠ 0 := by omega
    rw [Nat.le_log2 hn]
    exact (Nat.log2_self_le hm).trans h

namespace Binary64

/-! ## Rounding to a magnitude -/

theorem nearest_scale {c : Nat} (hc : 0 < c) (num den : Nat) :
    nearest (num * c) (den * c) = nearest num den := by
  have hnum : num * c * one = num * one * c := Nat.mul_right_comm num c one
  have hdiv : num * one * c / (den * c) = num * one / den := Nat.mul_div_mul_right _ _ hc
  have hshift (s : Nat) : (den * c) <<< s = (den <<< s) * c := by
    rw [Nat.shiftLeft_eq, Nat.shiftLeft_eq, Nat.mul_right_comm]
  simp only [nearest, hnum, hdiv, hshift, divHalfEven_scale hc]

/-- A rounding ends its binade at the latest. -/
theorem divHalfEven_le_of_log2 {n den s : Nat} (hden : 0 < den) (hs : (n / den).log2 - 52 = s) :
    divHalfEven n (den <<< s) ≤ 2 * binade := by
  rw [Nat.shiftLeft_eq]
  refine divHalfEven_le (Nat.mul_pos hden (Nat.two_pow_pos s)) ?_
  have hquot : n / den < 2 ^ (53 + s) :=
    Nat.lt_of_lt_of_le Nat.lt_log2_self (Nat.pow_le_pow_right (by decide) (by omega))
  have hnum : n < 2 ^ (53 + s) * den := (Nat.div_lt_iff_lt_mul hden).1 hquot
  have hbinade : 2 * binade = 2 ^ 53 := by decide
  calc n ≤ 2 ^ (53 + s) * den := Nat.le_of_lt hnum
    _ = 2 * binade * (den * 2 ^ s) := by rw [hbinade, Nat.pow_add]; ring

/-- A rounding whose exponent is not the least starts its binade at the earliest. -/
theorem le_divHalfEven_of_log2 {n den s : Nat} (hden : 0 < den) (hs : (n / den).log2 - 52 = s)
    (hpos : 0 < s) : binade ≤ divHalfEven n (den <<< s) := by
  rw [Nat.shiftLeft_eq]
  refine le_divHalfEven (Nat.mul_pos hden (Nat.two_pow_pos s)) ?_
  have hne : n / den ≠ 0 := by
    intro hzero
    rw [hzero, Nat.log2_zero] at hs
    omega
  have hquot : 2 ^ (52 + s) ≤ n / den := (Nat.le_log2 hne).1 (by omega)
  have hnum : 2 ^ (52 + s) * den ≤ n := (Nat.le_div_iff_mul_le hden).1 hquot
  have hbinade : binade = 2 ^ 52 := by decide
  calc binade * (den * 2 ^ s) = 2 ^ (52 + s) * den := by rw [hbinade, Nat.pow_add]; ring
    _ ≤ n := hnum

/-- A larger numerator never has a smaller magnitude nearest to it.  If the exponent grows
with the numerator, then the smaller rounds to at most the end of its binade and the larger
to at least the start of its own. -/
theorem nearest_mono {num num' den : Nat} (hden : 0 < den) (h : num ≤ num') :
    nearest num den ≤ nearest num' den := by
  have hquot : num * one / den ≤ num' * one / den :=
    Nat.div_le_div_right (Nat.mul_le_mul_right one h)
  unfold nearest
  dsimp only
  generalize hs : (num * one / den).log2 - 52 = s
  generalize hs' : (num' * one / den).log2 - 52 = s'
  have hle : s ≤ s' := by
    have hlog := log2_mono hquot
    omega
  rcases Nat.lt_or_eq_of_le hle with hlt | heq
  · have hend := divHalfEven_le_of_log2 hden hs
    have hstart := le_divHalfEven_of_log2 hden hs' (by omega)
    have hbinade : (s + 1) * binade ≤ s' * binade := Nat.mul_le_mul_right binade hlt
    rw [Nat.add_mul] at hbinade
    omega
  · rw [heq]
    exact Nat.add_le_add_left (divHalfEven_mono (Nat.mul_le_mul_right one h) _) _

theorem units_mono {j k : Nat} (h : j ≤ k) : units j ≤ units k := by
  rcases Nat.lt_or_eq_of_le h with hlt | rfl
  · exact Nat.le_of_lt (units_strictMono hlt)
  · exact Nat.le_refl _

/-- A quotient that reaches a magnitude is rounded to that magnitude or a larger one. -/
theorem le_nearest {k num den : Nat} (hden : 0 < den) (h : units k * den ≤ num * one) :
    k ≤ nearest num den := by
  calc k = nearest (units k) one := (nearest_units k).symm
    _ = nearest (units k * den) (one * den) := (nearest_scale hden _ _).symm
    _ ≤ nearest (num * one) (one * den) := nearest_mono (Nat.mul_pos one_pos hden) h
    _ = nearest num den := by rw [Nat.mul_comm one den, nearest_scale one_pos]

/-- A quotient that does not exceed a magnitude is rounded to that magnitude or a smaller
one. -/
theorem nearest_le {k num den : Nat} (hden : 0 < den) (h : num * one ≤ units k * den) :
    nearest num den ≤ k := by
  calc nearest num den = nearest (num * one) (one * den) := by
        rw [Nat.mul_comm one den, nearest_scale one_pos]
    _ ≤ nearest (units k * den) (one * den) := nearest_mono (Nat.mul_pos one_pos hden) h
    _ = nearest (units k) one := nearest_scale hden _ _
    _ = k := nearest_units k

end Binary64

end RecordFilter.Number
