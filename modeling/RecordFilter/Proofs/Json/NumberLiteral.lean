import Mathlib
import RecordFilter.Proofs.Json.FloatRoundTrip
import RecordFilter.Proofs.Json.RuleSetLanguage
import RecordFilter.Proofs.Number.Denotation
import RecordFilter.Proofs.QuotedNumber

/-!
# Which literal a number is

A number without a point and without an exponent is an integer literal, exactly as it is written, if it
is in the range of 64-bit numbers and not minus zero: `Numeral.IsInt64`.  Any other number is a float
with the sign that it is written with, or too large and refused.

The reader does not compute the nearest float, so a number is refused when what the reader computes is
too large.  That is at most six floats away from the nearest (`Literal.ofJson_numeralText`), and close
to the largest float it makes a difference: `Literal.ofJson_nearLargestToken`.
-/

namespace RecordFilter.Json.Numeral

open Number Binary64 Decimal Reader

/-- A token that is a given whole number in the range of 64-bit ones: there is no point, no exponent
and no minus before a zero. -/
structure IsInt64 (t : Numeral) (n : Int) : Prop where
  fraction : t.fraction = []
  exponent : t.exponent = none
  not_minusZero : ¬ (t.negative = true ∧ n = 0)
  wholeValue : t.wholeValue = n
  lower : -2 ^ 63 ≤ n
  upper : n ≤ 2 ^ 63 - 1

variable {t : Numeral}

/-! ## Integers -/

theorem isInt64_iff {n : Int} :
    t.IsInt64 n ↔ t.isInteger = true ∧ t.wholeValue = n ∧ n ≤ Int64.maxValue.toInt := by
  have hmin : Int64.minValue.toInt = -2 ^ 63 := by decide
  have hmax : Int64.maxValue.toInt = 2 ^ 63 - 1 := by decide
  simp only [isInteger, isWhole, Bool.and_eq_true, decide_eq_true_eq, List.isEmpty_iff,
    Option.isNone_iff_eq_none, Bool.not_eq_true', Bool.and_eq_false_iff, decide_eq_false_iff_not]
  constructor
  · rintro ⟨hfraction, hexponent, hzero, rfl, hlow, hhigh⟩
    refine ⟨⟨⟨⟨⟨hfraction, hexponent⟩, by omega⟩, ?_⟩, ?_⟩, rfl, by omega⟩
    · unfold UInt64.size
      omega
    · rwa [not_and_or, Bool.not_eq_true] at hzero
  · rintro ⟨⟨⟨⟨⟨hfraction, hexponent⟩, hlow⟩, -⟩, hzero⟩, rfl, hhigh⟩
    refine ⟨hfraction, hexponent, ?_, rfl, by omega, by omega⟩
    rwa [not_and_or, Bool.not_eq_true]

theorem value?_of_isInt64 {n : Int} (h : t.IsInt64 n) : t.value? = some (.integer n) := by
  obtain ⟨hinteger, hvalue, -⟩ := isInt64_iff.1 h
  rw [value?, if_pos hinteger, hvalue]

/-- A token is an integer literal exactly if it is that 64-bit number. -/
theorem outcome_eq_int_iff (t : Numeral) (n : Int64) :
    t.outcome.map Literal.ofNumber = .ok (.int n) ↔ t.IsInt64 n.toInt := by
  constructor
  · intro h
    rw [outcome] at h
    cases hvalue : t.value? with
    | none =>
      rw [hvalue] at h
      cases h
    | some v =>
      rw [hvalue] at h
      have hnumber : Literal.ofNumber v = .int n := Except.ok.inj h
      rw [value?] at hvalue
      split at hvalue
      · next hinteger =>
        obtain rfl := Option.some.inj hvalue
        rw [Literal.ofNumber] at hnumber
        split at hnumber
        · next hhigh =>
          obtain ⟨hlow⟩ : Int64.minValue.toInt ≤ t.wholeValue ∧ True := by
            simp only [isInteger, Bool.and_eq_true, decide_eq_true_eq] at hinteger
            exact ⟨hinteger.1.1.2, trivial⟩
          obtain rfl := Literal.int.inj hnumber
          rw [isInt64_iff, Int64.toInt_ofInt_of_le hlow (Int.lt_add_one_of_le hhigh)]
          exact ⟨hinteger, rfl, hhigh⟩
        · cases hnumber
      · obtain ⟨k, -, rfl⟩ := Option.map_eq_some_iff.1 hvalue
        cases hnumber
  · intro h
    rw [outcome, value?_of_isInt64 h]
    show Except.ok (Literal.ofNumber (.integer n.toInt)) = _
    rw [Literal.ofNumber, if_pos (isInt64_iff.1 h).2.2, Int64.ofInt_toInt]

/-! ## Floats -/

/-- A token that is no integer literal is the float that a `float` field would be compared with. -/
theorem outcome_of_not_isInt64 (h : ∀ n, ¬ t.IsInt64 n) :
    t.outcome.map Literal.ofNumber =
      match t.floatOperand? with
      | some x => .ok (.float x)
      | none => .error .malformed := by
  rw [outcome, floatOperand?]
  cases hvalue : t.value? with
  | none => rfl
  | some v =>
    have hfloat : ∃ x, Literal.ofNumber v = .float x := by
      rw [value?] at hvalue
      split at hvalue
      · next hinteger =>
        obtain rfl := Option.some.inj hvalue
        have hlarge : ¬ t.wholeValue ≤ Int64.maxValue.toInt := fun hle =>
          h t.wholeValue (isInt64_iff.2 ⟨hinteger, rfl, hle⟩)
        exact ⟨_, if_neg hlarge⟩
      · obtain ⟨k, -, rfl⟩ := Option.map_eq_some_iff.1 hvalue
        exact ⟨_, rfl⟩
    obtain ⟨x, hx⟩ := hfloat
    rw [Option.bind_some, hx]
    exact congrArg Except.ok hx

/-! ## Numbers close to zero -/

theorem length_appendFitting_le (m : Nat) (ds : List Nat) :
    (appendFitting m ds).2.length ≤ ds.length := by
  induction ds generalizing m with
  | nil => exact Nat.le_refl _
  | cons d ds ih =>
    rw [appendFitting]
    split
    · exact (ih _).trans (Nat.le_succ _)
    · exact Nat.le_refl _

/-- The power of ten that goes with the significand. -/
theorem scaled_snd_le (t : Numeral) : t.scaled.2 ≤ t.whole.length + t.exponentValue := by
  have hdropped := length_appendFitting_le 0 t.whole
  have hscaled : t.scaled.2 = (appendFitting 0 t.whole).2.length -
      (t.fraction.length - (appendFitting (appendFitting 0 t.whole).1 t.fraction).2.length : Nat) +
        t.exponentValue := rfl
  omega

theorem divide_mono {j j' k k' : Nat} (hk : 0 < units k) (hj : j ≤ j') (hkk : k ≤ k') :
    divide j k' ≤ divide j' k := by
  refine nearest_le_nearest (hk.trans_le (units_mono hkk)) hk ?_
  exact Nat.mul_le_mul (units_mono hj) (units_mono hkk)

/-- Dividing by a power of ten leaves no more than one division by a smaller power does. -/
theorem shrink_le_divide {n e : Nat} (hn : n ≤ e) (hpower : n ≤ maxPower) (k : Nat) :
    shrink k e ≤ divide k (power n) := by
  have hdivide : ∀ f, n ≤ f → divide k (power f) ≤ divide k (power n) := fun f hf =>
    divide_mono (units_power_pos n) (Nat.le_refl k) (power_mono hf)
  rcases Nat.lt_or_ge maxPower e with hmore | hle
  · obtain ⟨f, rfl⟩ := Nat.exists_eq_add_of_le hmore.le
    rw [shrink_add (by omega)]
    exact (shrink_le _ _).trans (hdivide maxPower hpower)
  · rw [shrink_of_le hle]
    exact hdivide e hn

/-- Sixty-four bits divided by a power of ten from the 345th on leave nothing. -/
theorem shrink_eq_zero {k e : Nat} (hk : k ≤ nearest UInt64.size 1) (he : 345 ≤ e) :
    shrink k e = 0 := by
  have hlargest : divide (divide (nearest UInt64.size 1) (power maxPower)) (power 37) = 0 := by
    decide +kernel
  obtain ⟨f, rfl⟩ := Nat.exists_eq_add_of_le (show maxPower + 37 ≤ e from he)
  rw [Nat.add_assoc, shrink_add (by omega), ← Nat.le_zero, ← hlargest]
  calc shrink (divide k (power maxPower)) (37 + f)
      ≤ divide (divide k (power maxPower)) (power 37) :=
        shrink_le_divide (by omega) (by decide) _
    _ ≤ divide (divide (nearest UInt64.size 1) (power maxPower)) (power 37) :=
        divide_mono (units_power_pos 37)
          (divide_mono (units_power_pos maxPower) hk (Nat.le_refl _)) (Nat.le_refl _)

/-- A number below so small a power of ten is read as zero. -/
theorem magnitude?_of_length_le (h : t.whole.length + t.exponentValue ≤ -345) :
    t.magnitude? = some 0 := by
  have hscaled := t.scaled_snd_le
  have hk : nearest t.scaled.1 1 ≤ nearest UInt64.size 1 :=
    nearest_mono Nat.one_pos t.significand_lt.le
  rw [magnitude?_eq, if_neg (by omega), shrink_eq_zero hk (by omega)]

theorem eq_zero_of_within? {negative : Bool} {j : Nat}
    (h : (within? j).map (ofMagnitude negative) = some (ofMagnitude negative 0)) : j = 0 := by
  obtain ⟨k, hk, hzero⟩ := Option.map_eq_some_iff.1 h
  have hmagnitude := congrArg (fun x : Binary64 => x.magnitude.toNat) hzero
  rw [within?] at hk
  split at hk
  · next hj =>
    obtain rfl := Option.some.inj hk
    simpa only [toNat_magnitude_ofMagnitude, Nat.min_eq_left hj.le, Nat.zero_min] using hmagnitude
  · cases hk

/-- What a token that is no integer literal is read as: a float near the nearest one, or nothing if
that float is too large. -/
theorem exists_outcome (hdigits : ∀ d ∈ t.whole ++ t.fraction, d < 10) (h : ∀ n, ¬ t.IsInt64 n) :
    ∃ j, Near 6 j (nearestScaled t.significand t.scale) ∧
      (t.isInteger ∨ t.IsExact → j = nearestScaled t.significand t.scale) ∧
      (t.significand = 0 ∨ t.whole.length + t.exponentValue ≤ -345 → j = 0) ∧
      t.outcome.map Literal.ofNumber =
        match within? j with
        | some k => .ok (.float (ofMagnitude t.negative k))
        | none => .error .malformed := by
  obtain ⟨j, hnear, hexact, hoperand⟩ := exists_floatOperand? hdigits
  refine ⟨j, hnear, fun hj => hexact (by tauto), ?_, ?_⟩
  · intro hsmall
    rcases hsmall with hzero | hreach
    · rw [hexact (.inr (.inr hzero)), hzero, nearestScaled_zero_left]
    · have hinteger : ¬ t.isInteger = true := by
        intro hinteger
        simp only [isInteger, isWhole, Bool.and_eq_true, Option.isNone_iff_eq_none] at hinteger
        have hexponent : t.exponentValue = 0 := by
          rw [exponentValue, hinteger.1.1.1.2]
        omega
      rw [floatOperand?_of_not_isInteger hinteger, magnitude?_of_length_le hreach] at hoperand
      exact eq_zero_of_within? hoperand.symm
  · rw [outcome_of_not_isInt64 h, hoperand]
    cases within? j <;> rfl

end RecordFilter.Json.Numeral

namespace RecordFilter

open Number Binary64 Decimal Json Reader Text

/-- A number as a literal, or as the value of a condition.  It is an integer literal exactly if it is
written without a point, without an exponent and with no minus before a zero, and is in the range of
64-bit numbers; it is that number then.  Otherwise it is a float with the sign that is written, or too
large.  The magnitude that decides is near the one nearest to the number, and is that one if the digits
and their power of ten are floats or the number is a whole one of sixty-four bits; it is zero if all
digits are zeros or the number is below the power `-345` of ten. -/
theorem Literal.ofJson_numeralText {text : List Char} {t : Numeral} (htext : NumeralText text t) :
    (∀ n : Int64, Literal.ofJson (bytesOf text) = .ok (.int n) ↔ t.IsInt64 n.toInt) ∧
    (∀ n, t.IsInt64 n → ∃ m : Int64, m.toInt = n) ∧
    ((∀ n, ¬ t.IsInt64 n) →
      ∃ j, Near 6 j (nearestScaled t.significand t.scale) ∧
        (t.isInteger ∨ t.IsExact → j = nearestScaled t.significand t.scale) ∧
        (t.significand = 0 ∨ t.whole.length + t.exponentValue ≤ -345 → j = 0) ∧
        (j < infinite → ∃ x : Binary64, Literal.ofJson (bytesOf text) = .ok (.float x) ∧
          x.negative = t.negative ∧ x.magnitude.toNat = j) ∧
        (infinite ≤ j → Literal.ofJson (bytesOf text) = .error .malformed)) ∧
    ∀ connector field op,
      RuleSet.ofJson (conditionDocument connector field op text) =
        (Literal.ofJson (bytesOf text)).map fun literal =>
          ⟨some connector, [⟨field, op, some literal⟩]⟩ := by
  have hlead := Numeral.leads_numeralText htext
  have hread := Numeral.readNumber_returns_outcome htext
  have hliteral : Literal.ofJson (bytesOf text) = t.outcome.map Literal.ofNumber :=
    (readLiteral_returns_number maxDepth hlead hread).complete
  refine ⟨fun n => ?_, fun n hn => ?_, fun hnot => ?_, fun connector field op => ?_⟩
  · rw [hliteral]
    exact t.outcome_eq_int_iff n
  · have hlow := hn.lower
    have hhigh := hn.upper
    exact ⟨.ofInt n, Int64.toInt_ofInt_of_le (by omega) (by omega)⟩
  · obtain ⟨j, hnear, hexact, hzero, houtcome⟩ :=
      Numeral.exists_outcome (lt_ten_of_numeralText htext) hnot
    rw [hliteral, houtcome]
    refine ⟨j, hnear, hexact, hzero, fun hj => ?_, fun hj => ?_⟩
    · rw [Numeral.within?_of_lt hj]
      refine ⟨_, rfl, rfl, ?_⟩
      rw [toNat_magnitude_ofMagnitude, Nat.min_eq_left hj.le]
    · rw [Numeral.within?_of_le hj]
  · have hvalue := readValue_returns_number 124 hlead hread
    rw [hliteral, RuleSet.ofJson_eq_ofBytes, conditionDocument, utf8_ofList,
      ofBytes_oneCondition (some connector) field op hvalue]
    cases t.outcome <;> rfl

/-- The least integer literal, and three numbers that are minus zero: one has the form of an integer,
and one is too small for any other float. -/
theorem Literal.ofJson_numeralText_leastAndZeros :
    Literal.ofJson (bytesOf "-9223372036854775808".toList) = .ok (.int Int64.minValue) ∧
    ∀ text ∈ ["-0", "-0.0", "-1e-400"], ∃ x : Binary64,
      Literal.ofJson (bytesOf text.toList) = .ok (.float x) ∧ x.negative = true ∧
        x.magnitude.toNat = 0 := by
  have hminusZero : ∀ {text t}, NumeralText text t → (∀ n, ¬ t.IsInt64 n) → t.negative = true →
      t.significand = 0 ∨ t.whole.length + t.exponentValue ≤ -345 → ∃ x : Binary64,
        Literal.ofJson (bytesOf text) = .ok (.float x) ∧ x.negative = true ∧
          x.magnitude.toNat = 0 := by
    intro text t htext hnot hnegative hsmall
    obtain ⟨j, -, -, hj, hfloat, -⟩ := (Literal.ofJson_numeralText htext).2.2.1 hnot
    obtain rfl := hj hsmall
    rw [← hnegative]
    exact hfloat (by decide)
  have hone : WholeText ['1'] [1] := ⟨⟨by decide, by decide, rfl⟩, by decide⟩
  have hzero : WholeText ['0'] [0] := ⟨⟨by decide, by decide, rfl⟩, by decide⟩
  have hexponent : ExponentText ('e' :: ['-'] ++ ['4', '0', '0']) (some (true, [4, 0, 0])) :=
    .digits (by decide) (.sign .minus) ⟨by decide, by decide, rfl⟩
  constructor
  · let least : WholeNumeral :=
      ⟨true, [9, 2, 2, 3, 3, 7, 2, 0, 3, 6, 8, 5, 4, 7, 7, 5, 8, 0, 8], by decide, by decide,
        fun _ h => by cases h⟩
    have hint64 : least.token.IsInt64 Int64.minValue.toInt :=
      ⟨rfl, rfl, by decide, by decide, by decide, by decide⟩
    exact ((Literal.ofJson_numeralText least.numeralText).1 _).2 hint64
  · simp only [List.forall_mem_cons, List.not_mem_nil, false_implies, implies_true, and_true]
    refine ⟨?_, ?_, ?_⟩
    · exact hminusZero (.parts .minus hzero .none .none)
        (fun n hn => hn.not_minusZero ⟨rfl, hn.wholeValue.symm⟩) rfl (.inl rfl)
    · exact hminusZero (.parts .minus hzero (.digits hzero.1) .none)
        (fun n hn => nomatch hn.fraction) rfl (.inl rfl)
    · exact hminusZero (.parts .minus hone .none hexponent)
        (fun n hn => nomatch hn.exponent) rfl (.inr (by decide))

/-- A number just below the largest float. -/
def nearLargestToken : Numeral :=
  ⟨false, [1, 7, 9, 7, 6, 9, 3, 1, 3, 4, 8, 6, 2, 3, 1, 5, 7, 0, 8], [], some (false, [2, 9, 0])⟩

/-- The float nearest to a number may be the largest, and the number refused as too large. -/
theorem Literal.ofJson_nearLargestToken :
    NumeralText "1797693134862315708e290".toList nearLargestToken ∧
    nearestScaled nearLargestToken.significand nearLargestToken.scale = infinite - 1 ∧
    Literal.ofJson (bytesOf "1797693134862315708e290".toList) = .error .malformed ∧
    ¬ ∀ text t, NumeralText text t → (∀ n, ¬ t.IsInt64 n) →
      nearestScaled t.significand t.scale < infinite →
        ∃ x, Literal.ofJson (bytesOf text) = .ok (.float x) := by
  have hwhole : WholeText "1797693134862315708".toList nearLargestToken.whole :=
    ⟨⟨by decide, by decide, rfl⟩, by decide⟩
  have hexponent : ExponentText ('e' :: [] ++ "290".toList) nearLargestToken.exponent :=
    .digits (by simp) (.sign .none) ⟨by decide, by decide, rfl⟩
  have htext : NumeralText "1797693134862315708e290".toList nearLargestToken :=
    .parts .none hwhole .none hexponent
  have hnearest : nearestScaled nearLargestToken.significand nearLargestToken.scale =
      infinite - 1 := by
    decide +kernel
  have hrefused : Literal.ofJson (bytesOf "1797693134862315708e290".toList) =
      .error .malformed := by
    decide +kernel
  refine ⟨htext, hnearest, hrefused, fun h => ?_⟩
  obtain ⟨x, hx⟩ := h _ _ htext (fun n hn => nomatch hn.exponent) (by rw [hnearest]; decide)
  rw [hrefused] at hx
  cases hx

end RecordFilter
