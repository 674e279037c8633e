import Mathlib
import RecordFilter.Proofs.IntegerCondition
import RecordFilter.Proofs.Json.DroppedDigits
import RecordFilter.Proofs.LiteralText

/-!
# Numbers with and without quotes

A number in a condition on a `float` field may stand in quotes.  Then the float nearest to it is what
the field is compared with.  Without quotes the reader of documents has rounded it already, and not
always to that float: `ofJson_number_and_string` says how near the two are, and when they are the same.
-/

namespace RecordFilter

open Number Binary64 Decimal Json Reader Text

theorem lt_ten_of_numeralText {text : List Char} {t : Numeral} (h : NumeralText text t) :
    ∀ d ∈ t.whole ++ t.fraction, d < 10 := by
  cases h with
  | parts _ hwhole hfraction _ =>
    rw [List.forall_mem_append]
    refine ⟨hwhole.1.2.1, ?_⟩
    cases hfraction with
    | none => simp
    | digits htext => exact htext.2.1

/-! ## The number in quotes -/

namespace Number.Decimal

theorem finite?_ofMagnitude (negative : Bool) (k : Nat) :
    finite? (ofMagnitude negative k) = (Numeral.within? k).map (ofMagnitude negative) := by
  rw [finite?, Numeral.within?]
  by_cases hk : k < infinite
  · rw [if_pos (isFinite_ofMagnitude.2 hk), if_pos hk]
    rfl
  · rw [if_neg (mt isFinite_ofMagnitude.1 hk), if_neg hk]
    rfl

/-- A number below so small a power of ten is rounded to zero. -/
theorem nearestScaled_of_reach {d : Decimal} (h : ∀ x ∈ d.whole ++ d.fraction, x < 10)
    (hreach : d.reach < -400) : nearestScaled d.significand d.scale = 0 := by
  obtain ⟨e, he⟩ := Int.eq_ofNat_of_zero_le (show 0 ≤ -d.reach by omega)
  have hunits : scaledUnits d.significand d.scale ≤ scaledUnits 1 (-e) := by
    have hdigits : d.significand ≤ 1 * tenTo (d.whole ++ d.fraction).length := by
      rw [Nat.one_mul]
      exact (ofDigits_lt h).le
    have hexponent : d.scale + (d.whole ++ d.fraction).length = -e := by
      rw [← he, neg_neg, scale, reach, List.length_append]
      push_cast
      ring
    rw [← hexponent, ← scaledUnits_mul_tenTo, scaledUnits_eq_mul, scaledUnits_eq_mul (1 * _)]
    exact mul_le_mul_of_nonneg_right (by exact_mod_cast hdigits) (scaledUnits_nonneg 1 _)
  have hsmall := Numeral.scaledUnits_mul_pow_le (show 401 ≤ e by omega) 1
  have hlarge : 2 * one ≤ 10 ^ 401 := by decide +kernel
  have hlarge' : (2 * one : ℚ) ≤ 10 ^ 401 := by exact_mod_cast hlarge
  have hpow : (0 : ℚ) < 10 ^ 401 := by positivity
  rw [Nat.cast_one, one_mul] at hsmall
  generalize (10 : ℚ) ^ 401 = power at hsmall hlarge' hpow
  have hmul := mul_le_mul_of_nonneg_right hunits hpow.le
  apply Numeral.nearestScaled_eq_zero_of_le
  rw [← mul_le_mul_iff_left₀ hpow]
  linarith

/-- The float that is nearest to a number, unless it is too large. -/
theorem finite?_nearest {d : Decimal} (h : ∀ x ∈ d.whole ++ d.fraction, x < 10) :
    finite? d.nearest =
      (Numeral.within? (nearestScaled d.significand d.scale)).map (ofMagnitude d.negative) := by
  unfold nearest
  split
  · next hsmall =>
    have hzero : nearestScaled d.significand d.scale = 0 := by
      rcases hsmall with hzero | hreach
      · rw [hzero, nearestScaled_zero_left]
      · exact nearestScaled_of_reach h hreach
    rw [finite?_ofMagnitude, hzero]
  · next hsmall =>
    split
    · next hlarge =>
      have hpos : 0 < d.significand := Nat.pos_of_ne_zero (not_or.1 hsmall).1
      have hinfinite := Numeral.infinite_le_nearestScaled hpos (e := d.scale)
        (by unfold Numeral.maxPower; omega)
      rw [Numeral.within?_of_le hinfinite, infinity, finite?_ofMagnitude,
        Numeral.within?_of_le (Nat.le_refl _)]
    · exact finite?_ofMagnitude _ _

/-- An exponent is read in full, or as another one that is at least as large as the limit. -/
theorem exponentValue_eq_or (ds : List Nat) :
    exponentValue ds = ofDigits ds ∨
      exponentLimit ≤ exponentValue ds ∧ exponentLimit ≤ ofDigits ds := by
  induction ds using List.reverseRecOn with
  | nil => exact .inl rfl
  | append_singleton ds d ih =>
    have hnext : exponentValue (ds ++ [d]) =
        if exponentValue ds < exponentLimit then 10 * exponentValue ds + d else exponentValue ds := by
      rw [exponentValue, List.foldl_append]
      rfl
    rw [hnext, ofDigits_append_singleton]
    split
    · rcases ih with heq | ⟨hle, -⟩
      · exact .inl (by rw [heq])
      · omega
    · omega

end Number.Decimal

namespace Json.Numeral

theorem exponent_decimal_eq_or (t : Numeral) :
    t.decimal.exponent = t.exponentValue ∨
      exponentLimit ≤ t.decimal.exponent ∧ exponentLimit ≤ t.exponentValue ∨
      t.decimal.exponent ≤ -exponentLimit ∧ t.exponentValue ≤ -exponentLimit := by
  rw [decimal, Numeral.exponentValue]
  cases t.exponent with
  | none => exact .inl rfl
  | some exponent =>
    obtain ⟨negative, ds⟩ := exponent
    have hds := exponentValue_eq_or ds
    dsimp only
    cases negative <;> simp only [Bool.false_eq_true, if_false, if_true] <;> omega

/-- Whether the digits of the exponent that are left out in quotes make no difference: none is, or the
number is so short that it is zero or too large either way. -/
def ExponentFits (t : Numeral) : Prop :=
  t.decimal.exponent = t.exponentValue ∨ t.whole.length + t.fraction.length ≤ 65000

/-- In quotes, what is compared with is the float nearest to the number, unless that is too large. -/
theorem finite?_nearest_decimal {t : Numeral} (h : ∀ d ∈ t.whole ++ t.fraction, d < 10)
    (hexponent : t.ExponentFits) :
    finite? t.decimal.nearest =
      (within? (nearestScaled t.significand t.scale)).map (ofMagnitude t.negative) := by
  have hquoted : finite? t.decimal.nearest =
      (within? (nearestScaled t.significand t.decimal.scale)).map (ofMagnitude t.negative) :=
    finite?_nearest h
  have hscale : t.decimal.scale = t.decimal.exponent - t.fraction.length := rfl
  have hscale' : t.scale = t.exponentValue - t.fraction.length := rfl
  have hlimit : exponentLimit = 65536 := rfl
  rw [hquoted]
  by_cases heq : t.decimal.exponent = t.exponentValue
  · rw [hscale, heq, hscale']
  have hlength := hexponent.resolve_left heq
  rcases t.exponent_decimal_eq_or.resolve_left heq with hlarge | hsmall
  · rcases Nat.eq_zero_or_pos t.significand with hzero | hpos
    · rw [hzero, nearestScaled_zero_left, nearestScaled_zero_left]
    · have hpower : maxPower < t.decimal.scale ∧ maxPower < t.scale := by
        unfold maxPower
        omega
      rw [within?_of_le (infinite_le_nearestScaled hpos hpower.1),
        within?_of_le (infinite_le_nearestScaled hpos hpower.2)]
  · have hreach : t.decimal.reach = t.whole.length + t.decimal.exponent := rfl
    have hreach' : Decimal.reach { t.decimal with exponent := t.exponentValue } =
        t.whole.length + t.exponentValue := rfl
    have hzero : nearestScaled t.significand t.decimal.scale = 0 :=
      nearestScaled_of_reach (d := t.decimal) h (by omega)
    have hzero' : nearestScaled t.significand t.scale = 0 :=
      nearestScaled_of_reach (d := { t.decimal with exponent := t.exponentValue }) h (by omega)
    rw [hzero, hzero']

/-! ## The number without quotes -/

/-- What a token is read as. -/
def outcome (t : Numeral) : Except Fault NumberValue :=
  match t.value? with
  | some v => .ok v
  | none => .error .malformed

theorem readNumber_returns_outcome {text : List Char} {t : Numeral} (h : NumeralText text t) :
    Returns readNumber (bytesOf text) t.outcome := by
  intro rest hrest
  rw [readNumber, bind_of_ok (read_returns h rest hrest), outcome]
  cases t.value? <;> rfl

theorem leads_numeralText {text : List Char} {t : Numeral} (h : NumeralText text t) :
    Leads .number (bytesOf text) := by
  have hread := read_returns h [] delimited_nil
  rw [List.append_nil] at hread
  exact leads_of_read hread

/-- What a `float` field is compared with, if the token stands in a condition on it. -/
def floatOperand? (t : Numeral) : Option Binary64 :=
  t.value?.bind fun v => (Literal.ofNumber v).toFloat?

variable {t : Numeral}

theorem floatOperand?_of_not_isInteger (h : ¬ t.isInteger) :
    t.floatOperand? = t.magnitude?.map (ofMagnitude t.negative) := by
  rw [floatOperand?, value?, if_neg h]
  cases t.magnitude? <;> rfl

theorem toFloat?_ofNumber_integer {n : Int} (hlow : Int64.minValue.toInt ≤ n) :
    (Literal.ofNumber (.integer n)).toFloat? = some (.ofInt n) := by
  rw [Literal.ofNumber]
  split
  · next hhigh =>
    have hmin : Int64.minValue.toInt = -2 ^ 63 := by decide
    have hmax : Int64.maxValue.toInt = 2 ^ 63 - 1 := by decide
    rw [Literal.toFloat?, Int64.toInt_ofInt_of_le (by omega) (by omega)]
  · rfl

/-- A whole number of sixty-four bits is rounded once, whether it is read as one or as a float. -/
theorem floatOperand?_of_isInteger (h : t.isInteger) :
    t.floatOperand? =
      (within? (nearestScaled t.significand t.scale)).map (ofMagnitude t.negative) := by
  have hparts := h
  simp only [isInteger, isWhole, Bool.and_eq_true, decide_eq_true_eq, List.isEmpty_iff,
    Option.isNone_iff_eq_none, Bool.not_eq_true'] at hparts
  obtain ⟨⟨⟨⟨hfraction, hexponent⟩, hlow⟩, hhigh⟩, hzero⟩ := hparts
  have hmin : Int64.minValue.toInt = -2 ^ 63 := by decide
  have habs : t.wholeValue.natAbs = t.significand := by
    rw [wholeValue, significand, hfraction, List.append_nil]
    split <;> omega
  have hscale : t.scale = 0 := by
    rw [scale, exponentValue, hexponent, hfraction]
    rfl
  have hsign : decide (t.wholeValue < 0) = t.negative := by
    rw [wholeValue] at hzero ⊢
    cases hnegative : t.negative with
    | false => simp
    | true =>
      simp [hnegative] at hzero ⊢
      omega
  have hfinite : nearest t.significand 1 < infinite := by
    apply nearest_lt_infinite
    unfold UInt64.size at hhigh ⊢
    omega
  rw [floatOperand?, value?, if_pos h, Option.bind_some, toFloat?_ofNumber_integer hlow, hscale,
    nearestScaled_zero, within?_of_lt hfinite, ofInt, hsign, habs]
  rfl

/-- What is compared with is near what the same number in quotes would be compared with. -/
theorem exists_floatOperand? (h : ∀ d ∈ t.whole ++ t.fraction, d < 10) :
    ∃ j, Near 6 j (nearestScaled t.significand t.scale) ∧
      (t.isInteger ∨ t.IsExact ∨ t.significand = 0 → j = nearestScaled t.significand t.scale) ∧
      t.floatOperand? = (within? j).map (ofMagnitude t.negative) := by
  by_cases hinteger : t.isInteger
  · exact ⟨_, .refl 6 _, fun _ => rfl, floatOperand?_of_isInteger hinteger⟩
  · rw [floatOperand?_of_not_isInteger hinteger]
    by_cases hexact : t.IsExact ∨ t.significand = 0
    · have hmagnitude : t.magnitude? = some (nearestScaled t.significand t.scale) := by
        rcases hexact with hexact | hzero
        · exact magnitude?_of_isExact hexact
        · rw [magnitude?_of_significand_eq_zero hzero, hzero, nearestScaled_zero_left]
      refine ⟨_, .refl 6 _, fun _ => rfl, ?_⟩
      rw [hmagnitude, within?_of_lt (magnitude?_lt_infinite hmagnitude)]
    · obtain ⟨j, hnear, hmagnitude⟩ := exists_magnitude? h
      refine ⟨j, hnear, ?_, by rw [hmagnitude]⟩
      intro hany
      rcases hany with hinteger' | hexact'
      · exact absurd hinteger' hinteger
      · exact absurd hexact' hexact

end Json.Numeral

/-! ## One condition on a `float` field -/

/-- The text of a rule set of one condition, with a text for the value. -/
def conditionDocument (connector : Connector) (field : String) (op : Operator) (value : List Char) :
    String :=
  String.ofList (ruleSetText (some connector) [conditionText field op value])

/-- The predicate that compares a `float` field with the float of a given magnitude, if that is not
too large and the operator is one that numbers have. -/
def floatPredicate? (connector : Connector) (field : String) (op : Operator) (route : List Nat)
    (negative : Bool) (k : Nat) : Option Predicate :=
  (Numeral.within? k).bind fun k => (NumberComparison.ofOperator? op).map fun comparison =>
    ⟨connector, [⟨field, op, .float route comparison (ofMagnitude negative k)⟩]⟩

section FloatField

variable {family : Family} {field : String} {route : List Nat} (hblank : strip field.toList ≠ [])
  (hresolve : Path.resolve family Family.root (Path.segments field) = .ok ⟨.scalar .float, route⟩)
include hblank hresolve

theorem predicate_ofJson_conditionDocument [Dialect] {connector : Connector} {op : Operator}
    {value : List Char} (outcome : Except Fault Literal) {negative : Bool} {k : Nat}
    (hvalue : Returns (readValue 124) (bytesOf value) (outcome.map some))
    (hoperand : outcome.toOption.bind Literal.toFloat? =
      (Numeral.within? k).map (ofMagnitude negative)) (p : Predicate) :
    Predicate.ofJson family (conditionDocument connector field op value) = .ok p ↔
      floatPredicate? connector field op route negative k = some p := by
  rw [Predicate.ofJson_eq_ok_iff_compile, RuleSet.ofJson_eq_ofBytes, conditionDocument, utf8_ofList,
    ofBytes_oneCondition (some connector) field op hvalue, floatPredicate?]
  cases outcome with
  | error fault =>
    have hlarge : Numeral.within? k = none := Option.map_eq_none_iff.1 hoperand.symm
    simp [hlarge, Except.map_eq_ok_iff]
  | ok literal =>
    have hfloat : literal.toFloat? = (Numeral.within? k).map (ofMagnitude negative) := hoperand
    have hcompile : RuleSet.compile ⟨some connector, [⟨field, op, some literal⟩]⟩ {} family = .ok p ↔
        ((Numeral.within? k).bind fun k => (NumberComparison.ofOperator? op).map fun comparison =>
          (⟨connector, [⟨field, op, .float route comparison (ofMagnitude negative k)⟩]⟩ :
            Predicate)) = some p := by
      rw [RuleSet.compile_oneCondition_eq_ok_iff hblank hresolve, Literal.fit?, hfloat]
      cases Numeral.within? k with
      | none => simp
      | some k =>
        cases hcomparison : NumberComparison.ofOperator? op with
        | none => simp [Test.ofOperand?, hcomparison]
        | some comparison => simp [Test.ofOperand?, hcomparison, eq_comm]
    rw [← hcompile]
    simp [Except.map_eq_ok_iff]

/-- A number as the value of a condition on a `float` field, and the same number in quotes.  In quotes
the field is compared with the float nearest to the number.  Without quotes it is compared with one
near that, and with that one if the number is a whole number of sixty-four bits, its digits are zeros,
or its digits and their power of ten are floats.  Magnitudes that are too large are counted on past
the largest: with either the condition is refused. -/
theorem ofJson_number_and_string [Dialect] {text : List Char} {t : Numeral}
    (htext : NumeralText text t)
    (hexponent : t.ExponentFits) (connector : Connector) (op : Operator) :
    ∃ j, Near 6 j (nearestScaled t.significand t.scale) ∧
      (t.isInteger ∨ t.IsExact ∨ t.significand = 0 → j = nearestScaled t.significand t.scale) ∧
      (∀ p, Predicate.ofJson family (conditionDocument connector field op text) = .ok p ↔
        floatPredicate? connector field op route t.negative j = some p) ∧
      ∀ p, Predicate.ofJson family (conditionDocument connector field op ('"' :: text ++ ['"'])) =
          .ok p ↔
        floatPredicate? connector field op route t.negative
          (nearestScaled t.significand t.scale) = some p := by
  have hdigits := lt_ten_of_numeralText htext
  obtain ⟨j, hnear, hsame, hoperand⟩ := Numeral.exists_floatOperand? hdigits
  refine ⟨j, hnear, hsame, ?_, ?_⟩
  · apply predicate_ofJson_conditionDocument hblank hresolve (t.outcome.map Literal.ofNumber)
    · have hvalue := readValue_returns_number 124 (Numeral.leads_numeralText htext)
        (Numeral.readNumber_returns_outcome htext)
      cases houtcome : t.outcome <;> rw [houtcome] at hvalue <;> exact hvalue
    · rw [← hoperand, Numeral.floatOperand?, Numeral.outcome]
      cases t.value? <;> rfl
  · apply predicate_ofJson_conditionDocument hblank hresolve (.ok (.string (String.ofList text)))
    · have hstring := readValue_returns_string 124 (String.ofList text)
      rw [write_numeralText htext] at hstring
      exact hstring
    · rw [← String.toList_ofList (l := text)] at htext
      rw [← Numeral.finite?_nearest_decimal hdigits hexponent]
      exact Literal.toFloat?_numeralText htext

end FloatField

def prices : Family := [[⟨"Price", .scalar .float⟩]]

/-- Twelve and a half. -/
def twelveAndHalf : Numeral :=
  ⟨false, [1, 2], [5], none⟩

theorem numeralText_twelveAndHalf : NumeralText "12.5".toList twelveAndHalf := by
  have hwhole : WholeText ['1', '2'] [1, 2] :=
    ⟨⟨List.cons_ne_nil _ _, by decide, rfl⟩, by decide⟩
  have hfraction : DigitText ['5'] [5] := ⟨List.cons_ne_nil _ _, by decide, rfl⟩
  exact .parts .none hwhole (.digits hfraction) .none

theorem ofJson_number_and_string_twelveAndHalf :
    strip "Price".toList ≠ [] ∧
    Path.resolve prices Family.root (Path.segments "Price") = .ok ⟨.scalar .float, [0]⟩ ∧
    NumeralText "12.5".toList twelveAndHalf ∧ twelveAndHalf.ExponentFits ∧
    ∀ p, Predicate.ofJson prices (conditionDocument .and "Price" .lessThan "12.5".toList) = .ok p ↔
      Predicate.ofJson prices (conditionDocument .and "Price" .lessThan "\"12.5\"".toList) = .ok p := by
  have hblank : strip "Price".toList ≠ [] := by decide
  have hresolve : Path.resolve prices Family.root (Path.segments "Price") =
      .ok ⟨.scalar .float, [0]⟩ := by
    decide +kernel
  have hexponent : twelveAndHalf.ExponentFits := .inl rfl
  have hexact : twelveAndHalf.IsExact := by decide
  obtain ⟨j, -, hsame, hnumber, hstring⟩ := ofJson_number_and_string hblank hresolve
    numeralText_twelveAndHalf hexponent .and .lessThan
  rw [hsame (.inr (.inl hexact))] at hnumber
  refine ⟨hblank, hresolve, numeralText_twelveAndHalf, hexponent, ?_⟩
  intro p
  exact (hnumber p).trans (hstring p).symm

/-- A number that is a float, with and without quotes: a record that has it is found with the
quotes only. -/
theorem number_and_string_differ :
    ∃ p q,
      Predicate.ofJson prices
        (conditionDocument .and "Price" .equal "9007199254740991.0".toList) = .ok p ∧
      Predicate.ofJson prices
        (conditionDocument .and "Price" .equal "\"9007199254740991.0\"".toList) = .ok q ∧
      p ≠ q ∧ p.accepts [.float (.ofInt (2 ^ 53 - 1))] = false ∧
      q.accepts [.float (.ofInt (2 ^ 53 - 1))] = true := by
  refine ⟨⟨.and, [⟨"Price", .equal, .float [0] .equal (.ofInt (2 ^ 53 - 2))⟩]⟩,
    ⟨.and, [⟨"Price", .equal, .float [0] .equal (.ofInt (2 ^ 53 - 1))⟩]⟩, ?_⟩
  decide +kernel

end RecordFilter
