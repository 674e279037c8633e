import RecordFilter.Number.Rounding

/-!
# Double-precision numbers

A double is a sign and a magnitude of sixty-three bits.  Finite magnitudes are numbered upward from
zero, so the magnitude is the position of the double in the order of its absolute value; then comes the
infinity, and after it the values that are not a number.

Finite magnitudes stand for whole multiples of the smallest positive double; `units` is that multiple.
All arithmetic is done exactly on `units` and rounded once by `nearest`, to the nearest magnitude and on
a tie to the even one.

The main statements say that `units` is strictly increasing and that `nearest` leaves a value that is
a magnitude already where it is.
-/

namespace RecordFilter.Number

/-- A double-precision number, told apart bit by bit. -/
structure Binary64 where
  /-- Whether the sign is minus; zeros and values that are not a number have a sign too. -/
  negative : Bool
  /-- The bits below the sign: biased exponent, then fraction. -/
  magnitude : BitVec 63
deriving DecidableEq, Inhabited

namespace Binary64

/-! ## Magnitudes -/

/-- The number of magnitudes with one exponent; there are fifty-two bits of fraction. -/
def binade : Nat := 1 <<< 52

/-- The magnitude of the infinities, the first that is not finite. -/
def infinite : Nat := 2047 * binade

/-- The value of a finite magnitude as a multiple of the smallest positive one. -/
def units (k : Nat) : Nat :=
  if k < binade then k else (binade + k % binade) <<< (k / binade - 1)

/-- The number of units in one. -/
def one : Nat := 1 <<< 1074

/-- The magnitude nearest to `num / den`; a tie goes to the even magnitude.  A quotient that is half a
step or more above the largest finite magnitude gives `infinite` or more. -/
def nearest (num den : Nat) : Nat :=
  let shift := (num * one / den).log2 - 52
  shift * binade + divHalfEven (num * one) (den <<< shift)

/-! ## Values -/

/-- The double of a given magnitude, or the infinity if the magnitude is not finite. -/
def ofMagnitude (negative : Bool) (k : Nat) : Binary64 :=
  ⟨negative, .ofNat 63 (min k infinite)⟩

/-- The infinity of a given sign. -/
def infinity (negative : Bool) : Binary64 :=
  ofMagnitude negative infinite

/-- A value that is not a number. -/
def nan : Binary64 :=
  ⟨false, .ofNat 63 (infinite + binade / 2)⟩

/-- The double nearest to a quotient of natural numbers with a sign. -/
def ofRatio (negative : Bool) (num den : Nat) : Binary64 :=
  ofMagnitude negative (nearest num den)

/-- The double nearest to a whole number. -/
def ofInt (n : Int) : Binary64 :=
  ofRatio (n < 0) n.natAbs 1

/-- Whether the value is neither infinite nor not a number. -/
def isFinite (x : Binary64) : Bool :=
  x.magnitude.toNat < infinite

/-- Whether the value is not a number. -/
def isNaN (x : Binary64) : Bool :=
  infinite < x.magnitude.toNat

/-- The sixty-four bits of the value, as a natural number. -/
def toBits (x : Binary64) : Nat :=
  (if x.negative then 1 <<< 63 else 0) + x.magnitude.toNat

/-- The position of the value on the number line: both zeros stand at zero, and larger numbers have
larger ranks. -/
def rank (x : Binary64) : Int :=
  if x.negative then -x.magnitude.toNat else x.magnitude.toNat

/-! ## Comparison -/

/-- Equality of numbers: zeros are equal whatever their sign, and what is not a number equals
nothing. -/
def equal (x y : Binary64) : Bool :=
  !x.isNaN && !y.isNaN && x.rank == y.rank

/-- The order of numbers: what is not a number is neither below nor above anything. -/
def less (x y : Binary64) : Bool :=
  !x.isNaN && !y.isNaN && x.rank < y.rank

/-! ## Whole numbers -/

/-- The whole number that a double denotes exactly, if there is one. -/
def toInt? (x : Binary64) : Option Int :=
  if x.isFinite ∧ units x.magnitude.toNat % one = 0 then
    let n : Int := units x.magnitude.toNat / one
    some (if x.negative then -n else n)
  else none

/-! ## Laws -/

theorem one_pos : 0 < one := by
  unfold one
  generalize 1074 = n
  rw [Nat.shiftLeft_eq, Nat.one_mul]
  exact Nat.two_pow_pos n

theorem binade_pos : 0 < binade := by decide

theorem toNat_magnitude_ofMagnitude (negative : Bool) (k : Nat) :
    (ofMagnitude negative k).magnitude.toNat = min k infinite := by
  rw [ofMagnitude, BitVec.toNat_ofNat]
  refine Nat.mod_eq_of_lt (Nat.lt_of_le_of_lt (Nat.min_le_right k infinite) ?_)
  decide

theorem isFinite_eq_false_of_isNaN {x : Binary64} (h : x.isNaN) : x.isFinite = false := by
  simp only [isNaN, decide_eq_true_eq] at h
  simp only [isFinite, decide_eq_false_iff_not]
  omega

/-- Magnitudes of the smallest exponents are their own multiples. -/
theorem units_of_lt {k : Nat} (h : k < 2 * binade) : units k = k := by
  unfold units
  split
  · rfl
  · next hk =>
    have hdiv : k / binade = 1 := Nat.div_eq_of_lt_le (by omega) (by omega)
    have hdm := Nat.div_add_mod k binade
    rw [hdiv] at hdm ⊢
    simp
    omega

/-- A magnitude given by its exponent and its leading bits. -/
theorem units_add {s n : Nat} (hlow : binade ≤ n) (hhigh : n ≤ 2 * binade) :
    units (s * binade + n) = n <<< s := by
  have hge : ¬ s * binade + n < binade := by
    have := Nat.zero_le (s * binade)
    omega
  unfold units
  rw [if_neg hge, Nat.shiftLeft_eq, Nat.shiftLeft_eq]
  rcases Nat.lt_or_eq_of_le hhigh with h | rfl
  · have hdiv : (s * binade + n) / binade = s + 1 := by
      rw [Nat.mul_comm, Nat.mul_add_div binade_pos]
      have : n / binade = 1 := Nat.div_eq_of_lt_le (by omega) (by omega)
      omega
    have hmod : (s * binade + n) % binade = n - binade := by
      rw [Nat.mul_comm, Nat.mul_add_mod, Nat.mod_eq_sub_mod hlow, Nat.mod_eq_of_lt (by omega)]
    rw [hdiv, hmod, Nat.add_sub_cancel' hlow, Nat.add_sub_cancel]
  · have hdiv : (s * binade + 2 * binade) / binade = s + 2 := by
      rw [← Nat.add_mul, Nat.mul_div_cancel _ binade_pos]
    have hmod : (s * binade + 2 * binade) % binade = 0 := by
      rw [← Nat.add_mul, Nat.mul_mod_left]
    rw [hdiv, hmod, show s + 2 - 1 = s + 1 by omega, Nat.pow_succ]
    simp [Nat.mul_comm, Nat.mul_assoc]

/-- A magnitude split into an exponent and its leading bits. -/
theorem eq_add_of_binade_le {k : Nat} (h : binade ≤ k) :
    k = (k / binade - 1) * binade + (k % binade + binade) := by
  have hdm := Nat.div_add_mod k binade
  have hone : 1 ≤ k / binade := (Nat.one_le_div_iff binade_pos).2 h
  calc k = (k / binade - 1 + 1) * binade + k % binade := by
          rw [Nat.sub_add_cancel hone, Nat.mul_comm]; exact hdm.symm
    _ = (k / binade - 1) * binade + (k % binade + binade) := by rw [Nat.add_mul]; omega

/-- The next magnitude is larger. -/
theorem units_lt_units_succ (k : Nat) : units k < units (k + 1) := by
  rcases Nat.lt_or_ge k binade with h | h
  · rw [units_of_lt (by omega), units_of_lt (by omega)]
    omega
  · have hk := eq_add_of_binade_le h
    have hmod := Nat.mod_lt k binade_pos
    generalize hs : k / binade - 1 = s at hk
    generalize hn : k % binade = n at hk hmod
    subst hk
    rw [units_add (by omega) (by omega), Nat.add_assoc, units_add (by omega) (by omega),
      Nat.shiftLeft_eq, Nat.shiftLeft_eq]
    exact (Nat.mul_lt_mul_right (Nat.two_pow_pos s)).2 (by omega)

/-- Larger magnitudes have larger values. -/
theorem units_strictMono {j k : Nat} (h : j < k) : units j < units k := by
  induction k with
  | zero => omega
  | succ k ih =>
    rcases Nat.lt_or_eq_of_le (Nat.lt_succ_iff.1 h) with hlt | rfl
    · exact Nat.lt_trans (ih hlt) (units_lt_units_succ k)
    · exact units_lt_units_succ j

/-- A value that is a magnitude already is its own rounding. -/
theorem nearest_units (k : Nat) : nearest (units k) one = k := by
  unfold nearest
  rw [Nat.mul_div_cancel _ one_pos]
  rcases Nat.lt_or_ge k binade with h | h
  · have hlog : (units k).log2 - 52 = 0 := by
      rw [units_of_lt (by omega)]
      rcases Nat.eq_zero_or_pos k with rfl | hk
      · simp
      · have := (Nat.log2_lt (by omega)).2 (show k < 2 ^ 52 from h)
        omega
    simp only [hlog, Nat.shiftLeft_zero, Nat.zero_mul, Nat.zero_add]
    rw [divHalfEven_mul one_pos, units_of_lt (by omega)]
  · have hmod := Nat.mod_lt k binade_pos
    have hk := eq_add_of_binade_le h
    generalize hs : k / binade - 1 = s at hk
    generalize hn : k % binade = n at hk hmod
    subst hk
    rw [units_add (by omega) (by omega)]
    have hprod : 0 < (n + binade) <<< s := by
      rw [Nat.shiftLeft_eq]
      exact Nat.mul_pos (by omega) (Nat.two_pow_pos s)
    have hlog : ((n + binade) <<< s).log2 - 52 = s := by
      have hlow : 52 + s ≤ ((n + binade) <<< s).log2 := by
        rw [Nat.le_log2 (Nat.ne_of_gt hprod), Nat.pow_add, Nat.shiftLeft_eq]
        exact Nat.mul_le_mul_right _ (show 2 ^ 52 ≤ n + binade from Nat.le_add_left binade n)
      have hhigh : ((n + binade) <<< s).log2 < 53 + s := by
        rw [Nat.log2_lt (Nat.ne_of_gt hprod), Nat.pow_add, Nat.shiftLeft_eq]
        refine (Nat.mul_lt_mul_right (Nat.two_pow_pos s)).2 ?_
        have htwo : (2 : Nat) ^ 53 = 2 * binade := by decide
        omega
      omega
    simp only [hlog]
    rw [Nat.shiftLeft_eq, Nat.shiftLeft_eq, Nat.mul_assoc, Nat.mul_comm (2 ^ s) one,
      divHalfEven_mul (Nat.mul_pos one_pos (Nat.two_pow_pos s))]

end Binary64

end RecordFilter.Number
