import Mathlib
import RecordFilter.Number.Decimal
import RecordFilter.Proofs.Number.Rounding

/-!
# Which quotients round to a magnitude

A quotient lies between two neighbouring magnitudes, and `nearest` takes the nearer of them, or
the even one if the quotient is half way (`nearest_of_between`).  The quotients that round to a
magnitude are therefore an interval around it, which reaches half way to either neighbour and has
its ends when the magnitude is even: `nearest_eq_iff`.

A quotient `num / den` is compared in units of the smallest magnitude, as `num * one` against
`units k * den`.
-/

namespace RecordFilter.Number.Binary64

theorem units_zero : units 0 = 0 := by
  decide

theorem le_units (k : Nat) : k ≤ units k := by
  induction k with
  | zero => exact Nat.zero_le _
  | succ k ih =>
    have hlt := units_lt_units_succ k
    omega

/-! ## Neighbouring magnitudes -/

/-- A magnitude by its exponent and its leading bits, and the magnitude above it. -/
theorem exists_exponent (k : Nat) :
    ∃ s n, k = s * binade + n ∧ n < 2 * binade ∧ (0 < s → binade ≤ n) ∧
      units k = n * 2 ^ s ∧ units (k + 1) = (n + 1) * 2 ^ s := by
  rcases Nat.lt_or_ge k binade with h | h
  · refine ⟨0, k, by omega, by omega, by omega, ?_, ?_⟩
    · rw [units_of_lt (by omega)]
      omega
    · rw [units_of_lt (by omega)]
      omega
  · have hmod := Nat.mod_lt k binade_pos
    have hk := eq_add_of_binade_le h
    generalize hs : k / binade - 1 = s at hk
    generalize hn : k % binade + binade = n at hk
    refine ⟨s, n, hk, by omega, by omega, ?_, ?_⟩
    · rw [hk, units_add (by omega) (by omega), Nat.shiftLeft_eq]
    · rw [hk, Nat.add_assoc, units_add (by omega) (by omega), Nat.shiftLeft_eq]

/-- No magnitude is more than `2 ^ 53` steps of its own size. -/
theorem units_succ_le_mul_gap (k : Nat) :
    units (k + 1) + 2 ^ 53 * units k ≤ 2 ^ 53 * units (k + 1) := by
  obtain ⟨s, n, -, hn, -, hunits, hunits'⟩ := exists_exponent k
  have hbinade : 2 * binade = 2 ^ 53 := by decide
  have hle : (n + 1) * 2 ^ s ≤ 2 ^ 53 * 2 ^ s := Nat.mul_le_mul_right _ (by omega)
  rw [hunits, hunits']
  calc (n + 1) * 2 ^ s + 2 ^ 53 * (n * 2 ^ s) ≤ 2 ^ 53 * 2 ^ s + 2 ^ 53 * (n * 2 ^ s) :=
        Nat.add_le_add_right hle _
    _ = 2 ^ 53 * ((n + 1) * 2 ^ s) := by ring

/-- The steps between magnitudes never become smaller. -/
theorem gap_mono (k : Nat) : 2 * units (k + 1) ≤ units k + units (k + 2) := by
  obtain ⟨s, n, hk, hn, hs, hunits, hunits'⟩ := exists_exponent k
  obtain ⟨s', n', hk', hn', hs', hsucc, hsucc'⟩ := exists_exponent (k + 1)
  have hle : s ≤ s' := by
    by_contra hlt
    have hbinade : (s' + 1) * binade ≤ s * binade := Nat.mul_le_mul_right binade (by omega)
    have hstart := hs (by omega)
    rw [Nat.add_mul] at hbinade
    omega
  have hstep : 2 ^ s ≤ 2 ^ s' := Nat.pow_le_pow_right (by decide) hle
  have hgap : units (k + 1) = units k + 2 ^ s := by
    rw [hunits, hunits']
    ring
  have hgap' : units (k + 2) = units (k + 1) + 2 ^ s' := by
    rw [hsucc, hsucc']
    ring
  omega

/-- The exponent that is taken for a quotient is that of the magnitude below it. -/
theorem log2_of_between {s n q : Nat} (hn : n < 2 * binade) (hs : 0 < s → binade ≤ n)
    (hlow : n * 2 ^ s ≤ q) (hhigh : q < (n + 1) * 2 ^ s) : q.log2 - 52 = s := by
  have hbinade : binade = 2 ^ 52 := by decide
  have hupper : q < 2 ^ (53 + s) := by
    calc q < (n + 1) * 2 ^ s := hhigh
      _ ≤ 2 ^ 53 * 2 ^ s := Nat.mul_le_mul_right _ (by omega)
      _ = 2 ^ (53 + s) := (Nat.pow_add 2 53 s).symm
  by_cases hzero : q = 0
  · subst hzero
    have hspos : ¬ 0 < s := by
      intro hpos
      have hle := hs hpos
      have hprod : 0 < n * 2 ^ s := Nat.mul_pos (by omega) (Nat.two_pow_pos s)
      omega
    simp only [Nat.log2_zero]
    omega
  · have hlt : q.log2 < 53 + s := (Nat.log2_lt hzero).2 hupper
    by_cases hpos : 0 < s
    · have hlower : 2 ^ (52 + s) ≤ q := by
        calc 2 ^ (52 + s) = 2 ^ 52 * 2 ^ s := Nat.pow_add 2 52 s
          _ ≤ n * 2 ^ s := Nat.mul_le_mul_right _ (by have := hs hpos; omega)
          _ ≤ q := hlow
      have hle : 52 + s ≤ q.log2 := (Nat.le_log2 hzero).2 hlower
      omega
    · omega

/-- A quotient between two neighbouring magnitudes is rounded to the nearer of them, and to the
even one if it is half way. -/
theorem nearest_of_between {k num den : Nat} (hden : 0 < den) (hlow : units k * den ≤ num * one)
    (hhigh : num * one < units (k + 1) * den) :
    nearest num den =
      if 2 * (num * one) < (units k + units (k + 1)) * den then k
      else if (units k + units (k + 1)) * den < 2 * (num * one) then k + 1
      else k + k % 2 := by
  obtain ⟨s, n, hk, hn, hs, hunits, hunits'⟩ := exists_exponent k
  rw [hunits] at hlow ⊢
  rw [hunits'] at hhigh ⊢
  have hlog : (num * one / den).log2 - 52 = s := by
    apply log2_of_between hn hs
    · exact (Nat.le_div_iff_mul_le hden).2 hlow
    · exact (Nat.div_lt_iff_lt_mul hden).2 hhigh
  have hlow' : n * (den * 2 ^ s) ≤ num * one := by
    calc n * (den * 2 ^ s) = n * 2 ^ s * den := by ring
      _ ≤ num * one := hlow
  have hhigh' : num * one < (n + 1) * (den * 2 ^ s) := by
    calc num * one < (n + 1) * 2 ^ s * den := hhigh
      _ = (n + 1) * (den * 2 ^ s) := by ring
  have hhalf : (n * 2 ^ s + (n + 1) * 2 ^ s) * den = 2 * (n * (den * 2 ^ s)) + den * 2 ^ s := by
    ring
  have hquot : num * one / (den * 2 ^ s) = n := Nat.div_eq_of_lt_le hlow' hhigh'
  have hdm := Nat.div_add_mod (num * one) (den * 2 ^ s)
  rw [hquot, Nat.mul_comm] at hdm
  -- Every exponent has an even number of magnitudes, so the parity is that of the leading bits.
  have hparity : k % 2 = n % 2 := by
    have hbinade : s * binade % 2 = 0 := by
      rw [Nat.mul_mod, show binade % 2 = 0 by decide]
      rfl
    omega
  unfold nearest
  dsimp only
  rw [hlog, Nat.shiftLeft_eq, divHalfEven, hquot, hhalf, hparity, hk]
  generalize num * one % (den * 2 ^ s) = r at *
  generalize n * (den * 2 ^ s) = a at *
  split_ifs <;> omega

/-- Every quotient lies between two neighbouring magnitudes. -/
theorem exists_between {den : Nat} (hden : 0 < den) (num : Nat) :
    ∃ k, units k * den ≤ num * one ∧ num * one < units (k + 1) * den := by
  have hbound : ∃ k, num * one < units (k + 1) * den := by
    refine ⟨num * one, ?_⟩
    calc num * one < num * one + 1 := Nat.lt_succ_self _
      _ ≤ units (num * one + 1) := le_units _
      _ ≤ units (num * one + 1) * den := Nat.le_mul_of_pos_right _ hden
  refine ⟨Nat.find hbound, ?_, Nat.find_spec hbound⟩
  cases hfind : Nat.find hbound with
  | zero =>
    rw [units_zero, Nat.zero_mul]
    exact Nat.zero_le _
  | succ k =>
    have hmin := Nat.find_min hbound (show k < Nat.find hbound by omega)
    exact Nat.not_lt.1 hmin

/-! ## The interval of a magnitude -/

/-- Twice the point half way between a magnitude and the next. -/
def halfway (k : Nat) : Nat :=
  units k + units (k + 1)

theorem two_mul_units_lt_halfway (k : Nat) : 2 * units k < halfway k := by
  have hlt := units_lt_units_succ k
  unfold halfway
  omega

theorem halfway_lt_two_mul_units {j k : Nat} (h : j < k) : halfway j < 2 * units k := by
  have hlt := units_lt_units_succ j
  have hle := units_mono (show j + 1 ≤ k from h)
  unfold halfway
  omega

/-- A quotient is rounded to at most a magnitude if it does not lie above the point half way
to the next; that point itself is rounded down if the magnitude is even. -/
theorem nearest_le_iff {k num den : Nat} (hden : 0 < den) :
    nearest num den ≤ k ↔
      if k % 2 = 0 then 2 * (num * one) ≤ halfway k * den else 2 * (num * one) < halfway k * den := by
  obtain ⟨j, hlow, hhigh⟩ := exists_between hden num
  have hnearest := nearest_of_between hden hlow hhigh
  rw [← halfway] at hnearest
  rcases Nat.lt_trichotomy k j with hlt | rfl | hgt
  · have hhalf : halfway k * den < 2 * (num * one) := by
      calc halfway k * den < 2 * units j * den :=
            Nat.mul_lt_mul_of_pos_right (halfway_lt_two_mul_units hlt) hden
        _ = 2 * (units j * den) := Nat.mul_assoc _ _ _
        _ ≤ 2 * (num * one) := Nat.mul_le_mul_left 2 hlow
    have hj : ¬ nearest num den ≤ k := by
      rw [hnearest]
      split_ifs <;> omega
    split_ifs <;> omega
  · have hmod := Nat.mod_two_eq_zero_or_one k
    rw [hnearest]
    split_ifs <;> omega
  · have hhalf : 2 * (num * one) < halfway k * den := by
      calc 2 * (num * one) < 2 * (units (j + 1) * den) := by omega
        _ ≤ 2 * (units k * den) :=
          Nat.mul_le_mul_left 2 (Nat.mul_le_mul_right den (units_mono hgt))
        _ = 2 * units k * den := (Nat.mul_assoc _ _ _).symm
        _ ≤ halfway k * den := Nat.mul_le_mul_right den (two_mul_units_lt_halfway k).le
    have hmod := Nat.mod_lt j two_pos
    have hj : nearest num den ≤ k := by
      rw [hnearest]
      split_ifs <;> omega
    split_ifs <;> omega

/-- A quotient is rounded to a positive magnitude if it is no further from it than half way to
either neighbour; the two points half way are rounded to the magnitude if it is even. -/
theorem nearest_eq_succ_iff {k num den : Nat} (hden : 0 < den) :
    nearest num den = k + 1 ↔
      if (k + 1) % 2 = 0 then
        halfway k * den ≤ 2 * (num * one) ∧ 2 * (num * one) ≤ halfway (k + 1) * den
      else halfway k * den < 2 * (num * one) ∧ 2 * (num * one) < halfway (k + 1) * den := by
  have hle : nearest num den ≤ k ↔ _ := nearest_le_iff hden
  have hle' : nearest num den ≤ k + 1 ↔ _ := nearest_le_iff hden
  have hsplit : nearest num den = k + 1 ↔ ¬ nearest num den ≤ k ∧ nearest num den ≤ k + 1 := by
    omega
  rw [hsplit, hle, hle']
  rcases Nat.mod_two_eq_zero_or_one k with hmod | hmod
  · rw [if_pos hmod, if_neg (by omega), if_neg (by omega), Nat.not_le]
  · rw [if_neg (by omega), if_pos (by omega), if_pos (by omega), Nat.not_lt]

/-! ## Whole numbers -/

theorem nearest_of_units_eq {k m : Nat} (h : units k = m * one) : nearest m 1 = k := by
  rw [← nearest_scale one_pos, ← h, Nat.one_mul, nearest_units]

/-- Whole numbers of no more than fifty-three bits are magnitudes. -/
theorem exists_units_eq {m : Nat} (hm : m ≤ 2 ^ 53) : ∃ k, units k = m * one := by
  rcases Nat.eq_zero_or_pos m with rfl | hpos
  · exact ⟨0, by rw [units_zero, Nat.zero_mul]⟩
  have hbinade : binade = 2 ^ 52 := by decide
  rcases Nat.lt_or_eq_of_le hm with hlt | rfl
  · have hlog : m.log2 < 53 := (Nat.log2_lt (by omega)).2 hlt
    have hlow : 2 ^ m.log2 ≤ m := Nat.log2_self_le (by omega)
    have hhigh : m < 2 ^ (m.log2 + 1) := Nat.lt_log2_self
    generalize m.log2 = l at hlog hlow hhigh
    have hstart : binade ≤ m * 2 ^ (52 - l) := by
      calc binade = 2 ^ l * 2 ^ (52 - l) := by rw [hbinade, ← Nat.pow_add]; congr 1; omega
        _ ≤ m * 2 ^ (52 - l) := Nat.mul_le_mul_right _ hlow
    have hend : m * 2 ^ (52 - l) ≤ 2 * binade := by
      calc m * 2 ^ (52 - l) ≤ 2 ^ (l + 1) * 2 ^ (52 - l) := Nat.mul_le_mul_right _ hhigh.le
        _ = 2 ^ (52 + 1) := by rw [← Nat.pow_add]; congr 1; omega
        _ = 2 * binade := by rw [hbinade, Nat.pow_succ']
    refine ⟨(1022 + l) * binade + m * 2 ^ (52 - l), ?_⟩
    rw [units_add hstart hend, Nat.shiftLeft_eq, Nat.mul_assoc, ← Nat.pow_add,
      show 52 - l + (1022 + l) = 1074 by omega, one, Nat.one_shiftLeft]
  · exact ⟨1076 * binade, by decide +kernel⟩

/-- Whole numbers of no more than fifty-three bits are their own rounding. -/
theorem units_nearest {m : Nat} (hm : m ≤ 2 ^ 53) : units (nearest m 1) = m * one := by
  obtain ⟨k, hk⟩ := exists_units_eq hm
  rw [nearest_of_units_eq hk, hk]

end RecordFilter.Number.Binary64
