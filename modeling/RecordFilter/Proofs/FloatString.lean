import Mathlib
import RecordFilter.Proofs.NumberSyntax
import RecordFilter.Proofs.QuotedNumber
import RecordFilter.Proofs.Stripping
import RecordFilter.Proofs.Number.NearestEven

/-!
# Strings as operands of float fields

A string fits a `float` field if it is a number with an optional point and an optional exponent, white
space around it apart, and the float nearest to it is finite.  Words for infinities and for what is
not a number are letters, and letters other than the `e` of an exponent are not in the grammar.

The number is the one that is written, up to one exception.  The digits of an exponent count only
until their value has reached `65536`.  A number whose digits before and after the point are few is
zero or too large by then, whatever comes next; but a text with tens of thousands of digits can make
up for its exponent, and then it is read as another number than it denotes.
-/

namespace RecordFilter

open Number Binary64 Decimal Json

/-! ## The number denoted -/

/-- The float is finite, has the sign, and is the nearest to a number with it; a tie goes to the even
one. -/
structure Number.Binary64.Rounds (x : Binary64) (negative : Bool) (q : ℚ) : Prop where
  finite : x.isFinite = true
  sign : x.negative = negative
  nearest : IsNearestEven x.magnitude.toNat q

/-- The digits of an exponent that count: all of them, or those with which the value first reaches
the limit. -/
structure CountedDigits (es ds : List Nat) : Prop where
  front : es <+: ds
  below : ∀ fs, fs <+: es → fs ≠ es → digitsValue fs < 65536
  reached : es ≠ ds → 65536 ≤ digitsValue es

/-- The value of an exponent as far as its digits count. -/
inductive CountedExponent : Option (Bool × List Nat) → Int → Prop
  | none : CountedExponent none 0
  | digits {negative : Bool} {ds es : List Nat} : CountedDigits es ds →
      CountedExponent (some (negative, ds)) (if negative then -digitsValue es else digitsValue es)

namespace Json.Numeral

/-- The value of the exponent as it is written. -/
def writtenExponent (t : Numeral) : Int :=
  match t.exponent with
  | none => 0
  | some (negative, ds) => if negative then -digitsValue ds else digitsValue ds

/-- The number denoted without its sign, for a value of the exponent. -/
def absolute (t : Numeral) (e : Int) : ℚ :=
  (digitsValue t.whole + digitsValue t.fraction / 10 ^ t.fraction.length) * 10 ^ e

/-- The digits before and after the point make up a whole number with a power of ten. -/
theorem absolute_eq (t : Numeral) (e : Int) :
    t.absolute e = t.significand * 10 ^ (e - t.fraction.length) := by
  have hten : (10 : ℚ) ≠ 0 := by norm_num
  rw [absolute, significand, ofDigits_append, ofDigits_eq_digitsValue, ofDigits_eq_digitsValue,
    tenTo_eq, zpow_sub₀ hten, zpow_natCast]
  push_cast
  field_simp

theorem absolute_eq_div (t : Numeral) (e : Int) :
    t.absolute e = ((t.significand * (powerOfTen (e - t.fraction.length)).1 : Nat) : ℚ) /
      (powerOfTen (e - t.fraction.length)).2 := by
  have hden : ((powerOfTen (e - t.fraction.length)).2 : ℚ) ≠ 0 := by
    exact_mod_cast (powerOfTen_pos _).2.ne'
  rw [absolute_eq, eq_div_iff hden, Nat.cast_mul, powerOfTen_fst_eq, mul_assoc]

theorem isNearestEven_absolute_iff {t : Numeral} {e : Int} {k : Nat} :
    IsNearestEven k (t.absolute e) ↔ nearestScaled t.significand (e - t.fraction.length) = k := by
  rw [absolute_eq_div, isNearestEven_div_iff (powerOfTen_pos _).2]
  rfl

end Json.Numeral

/-! ## Exponents -/

theorem exponentValue_append_singleton (ds : List Nat) (d : Nat) :
    exponentValue (ds ++ [d]) =
      if exponentValue ds < exponentLimit then 10 * exponentValue ds + d else exponentValue ds := by
  rw [exponentValue, List.foldl_append]
  rfl

/-- Reading an exponent digit by digit comes to the value of the digits that count. -/
theorem exists_countedDigits (ds : List Nat) :
    ∃ es, CountedDigits es ds ∧ exponentValue ds = digitsValue es := by
  have hlimit : exponentLimit = 65536 := rfl
  induction ds using List.reverseRecOn with
  | nil =>
    exact ⟨[], ⟨List.prefix_refl _, fun fs hfs hne => absurd (List.prefix_nil.1 hfs) hne,
      fun hne => absurd rfl hne⟩, rfl⟩
  | append_singleton ds d ih =>
    obtain ⟨es, ⟨hfront, hbelow, hreached⟩, hvalue⟩ := ih
    rw [exponentValue_append_singleton, hlimit]
    split
    · next hlt =>
      -- The limit is not reached yet, so all the digits count up to here, and the next one does.
      have hall : es = ds := by
        by_contra hne
        have := hreached hne
        omega
      subst hall
      refine ⟨es ++ [d], ⟨List.prefix_refl _, fun fs hfs hne => ?_, fun hne => absurd rfl hne⟩, ?_⟩
      · rcases List.prefix_concat_iff.1 hfs with heq | hfs
        · exact absurd heq hne
        · by_cases heq : fs = es
          · rwa [heq, ← hvalue]
          · exact hbelow fs hfs heq
      · rw [hvalue, ← ofDigits_eq_digitsValue, ← ofDigits_eq_digitsValue, ofDigits_append_singleton]
    · next hge =>
      refine ⟨es, ⟨hfront.trans (List.prefix_append ds [d]), hbelow, fun _ => ?_⟩, hvalue⟩
      omega

theorem CountedDigits.eq_of_front {es fs ds : List Nat} (h : CountedDigits es ds)
    (h' : CountedDigits fs ds) (hle : es <+: fs) : es = fs := by
  by_contra hne
  have hlt := h'.below es hle hne
  have hes : es ≠ ds := by
    rintro rfl
    exact hne (hle.eq_of_length_le h'.front.length_le)
  exact absurd (h.reached hes) (Nat.not_le.2 hlt)

theorem CountedDigits.unique {es fs ds : List Nat} (h : CountedDigits es ds)
    (h' : CountedDigits fs ds) : es = fs := by
  rcases List.prefix_or_prefix_of_prefix h.front h'.front with hle | hle
  · exact h.eq_of_front h' hle
  · exact (h'.eq_of_front h hle).symm

/-- The exponent that is read is the one that counts. -/
theorem countedExponent_iff {t : Numeral} {e : Int} :
    CountedExponent t.exponent e ↔ t.decimal.exponent = e := by
  obtain ⟨negative, whole, fraction, exponent⟩ := t
  rcases exponent with _ | ⟨sign, ds⟩
  · constructor
    · rintro ⟨⟩
      rfl
    · rintro rfl
      exact .none
  · obtain ⟨es, hes, hvalue⟩ := exists_countedDigits ds
    have hdecimal : (Numeral.mk negative whole fraction (some (sign, ds))).decimal.exponent =
        if sign then -(digitsValue es : Int) else digitsValue es := by
      rw [← hvalue]
      rfl
    rw [hdecimal]
    constructor
    · rintro (_ | hes')
      rw [hes.unique hes']
    · rintro rfl
      exact .digits hes

theorem Json.Numeral.exponentValue_eq (t : Numeral) : t.exponentValue = t.writtenExponent := by
  unfold Numeral.exponentValue writtenExponent
  cases t.exponent with
  | none => rfl
  | some exponent => simp only [ofDigits_eq_digitsValue]

/-- A digit that does not count makes the value ten times the limit. -/
theorem le_digitsValue_of_countedDigits {es ds : List Nat} (h : CountedDigits es ds) (hne : es ≠ ds) :
    655360 ≤ digitsValue ds := by
  have hreached := h.reached hne
  obtain ⟨rest, rfl⟩ := h.front
  have hrest : 1 ≤ rest.length := by
    rw [Nat.one_le_iff_ne_zero, ne_eq, List.length_eq_zero_iff]
    rintro rfl
    exact hne (List.append_nil es).symm
  have hten : tenTo 1 ≤ tenTo rest.length := tenTo_mono hrest
  rw [← ofDigits_eq_digitsValue, ofDigits_append, ofDigits_eq_digitsValue]
  calc 655360 = 65536 * tenTo 1 := rfl
    _ ≤ digitsValue es * tenTo rest.length := Nat.mul_le_mul hreached hten
    _ ≤ digitsValue es * tenTo rest.length + ofDigits rest := Nat.le_add_right _ _

/-- An exponent below ten times the limit counts in full. -/
theorem exponentFits_of_lt {t : Numeral}
    (h : |t.writtenExponent| < 655360 ∨ (t.whole ++ t.fraction).length ≤ 65000) :
    t.ExponentFits := by
  rw [List.length_append] at h
  refine h.imp_left fun hlt => ?_
  rw [t.exponentValue_eq]
  apply countedExponent_iff.1
  obtain ⟨negative, whole, fraction, exponent⟩ := t
  rcases exponent with _ | ⟨sign, ds⟩
  · exact .none
  · obtain ⟨es, hes, -⟩ := exists_countedDigits ds
    have hall : es = ds := by
      by_contra hne
      have hle := le_digitsValue_of_countedDigits hes hne
      have habs : |Numeral.writtenExponent ⟨negative, whole, fraction, some (sign, ds)⟩| =
          digitsValue ds := by
        cases sign <;> simp [Numeral.writtenExponent]
      omega
    subst hall
    exact .digits hes

/-! ## Rounding -/

theorem within?_map_eq_some_iff {k : Nat} {negative : Bool} {x : Binary64} :
    (Numeral.within? k).map (ofMagnitude negative) = some x ↔
      x.isFinite = true ∧ x.negative = negative ∧ k = x.magnitude.toNat := by
  constructor
  · intro h
    obtain ⟨k', hk, rfl⟩ := Option.map_eq_some_iff.1 h
    rw [Numeral.within?] at hk
    split at hk
    · next hlt =>
      cases hk
      rw [toNat_magnitude_ofMagnitude, Nat.min_eq_left hlt.le]
      exact ⟨isFinite_ofMagnitude.2 hlt, rfl, rfl⟩
    · cases hk
  · rintro ⟨hx, rfl, rfl⟩
    have hlt : x.magnitude.toNat < infinite := of_decide_eq_true hx
    rw [Numeral.within?_of_lt hlt, Option.map_some, ofMagnitude_of_isFinite hx]

theorem rounds_absolute_iff {t : Numeral} {e : Int} {x : Binary64} :
    x.Rounds t.negative (t.absolute e) ↔
      (Numeral.within? (nearestScaled t.significand (e - t.fraction.length))).map
        (ofMagnitude t.negative) = some x := by
  rw [within?_map_eq_some_iff, ← Numeral.isNearestEven_absolute_iff]
  constructor
  · rintro ⟨hfinite, hsign, hnearest⟩
    exact ⟨hfinite, hsign, hnearest⟩
  · rintro ⟨hfinite, hsign, hnearest⟩
    exact ⟨hfinite, hsign, hnearest⟩

/-- There is such a float if the number is less than half way from the largest float to the next power
of two. -/
theorem exists_rounds_absolute_iff {t : Numeral} {e : Int} :
    (∃ x : Binary64, x.Rounds t.negative (t.absolute e)) ↔ t.absolute e < 2 ^ 1024 - 2 ^ 970 := by
  rw [t.absolute_eq_div, ← nearest_lt_infinite_iff (powerOfTen_pos _).2, ← t.absolute_eq_div]
  simp only [rounds_absolute_iff]
  change _ ↔ nearestScaled t.significand (e - t.fraction.length) < infinite
  generalize nearestScaled t.significand (e - t.fraction.length) = k
  constructor
  · rintro ⟨x, hx⟩
    obtain ⟨hfinite, -, rfl⟩ := within?_map_eq_some_iff.1 hx
    exact of_decide_eq_true hfinite
  · intro hlt
    rw [Numeral.within?_of_lt hlt]
    exact ⟨_, rfl⟩

/-! ## Floats in strings -/

theorem lt_ten_of_floatText {text : List Char} {t : Numeral} (h : FloatText text t) :
    ∀ d ∈ t.whole ++ t.fraction, d < 10 := by
  obtain ⟨-, htext, -⟩ := h
  cases htext with
  | whole h =>
    rw [List.append_nil]
    exact h.2.1
  | point _ hlt => exact hlt

theorem stripped_of_floatText {text : List Char} {t : Numeral} (h : FloatText text t) :
    Text.Stripped text text := by
  have hchars := mem_numberChars_of_floatText h
  refine ⟨⟨[], [], (List.append_nil text).symm, by simp, by simp⟩, fun c hc => ?_, fun c hc => ?_⟩
  · exact isBlank_of_mem_numberChars (hchars c (List.mem_of_mem_head? hc))
  · exact isBlank_of_mem_numberChars (hchars c (List.mem_of_getLast? hc))

namespace Literal

variable {s : String} {text : List Char} {t : Numeral}

theorem toFloat?_eq_some_iff {x : Binary64} :
    (Literal.string s).toFloat? = some x ↔
      ∃ text t, Text.Stripped s.toList text ∧ FloatText text t ∧
        finite? t.decimal.nearest = some x := by
  simp only [toFloat?, Option.bind_eq_some_iff, ofText?_eq_some_iff, ← Text.strip_eq_iff,
    exists_and_left, exists_eq_left']
  constructor
  · rintro ⟨d, ⟨t, htext, rfl⟩, hx⟩
    exact ⟨t, htext, hx⟩
  · rintro ⟨t, htext, hx⟩
    exact ⟨_, ⟨t, htext, rfl⟩, hx⟩

theorem toFloat?_of_floatText (hstripped : Text.Stripped s.toList text) (htext : FloatText text t) :
    (Literal.string s).toFloat? = finite? t.decimal.nearest := by
  rw [toFloat?, Text.strip_eq_iff.2 hstripped, ofText?_eq_some_iff.2 ⟨t, htext, rfl⟩,
    Option.bind_some]

theorem finite?_nearest_eq_some_iff {x : Binary64} {e : Int} (htext : FloatText text t)
    (he : CountedExponent t.exponent e) :
    finite? t.decimal.nearest = some x ↔ x.Rounds t.negative (t.absolute e) := by
  rw [finite?_nearest (d := t.decimal) (lt_ten_of_floatText htext), rounds_absolute_iff,
    ← countedExponent_iff.1 he]
  rfl

/-- A word for an infinity or for what is not a number has a letter that no number has. -/
theorem not_floatText_word {sign word : List Char}
    (hword : word.map asciiLower ∈ ["inf".toList, "infinity".toList, "nan".toList]) :
    ¬ FloatText (sign ++ word) t := by
  intro htext
  have hletter : 'n' ∈ word.map asciiLower := by
    simp only [List.mem_cons, List.not_mem_nil, or_false] at hword
    rcases hword with h | h | h <;> rw [h] <;> decide
  obtain ⟨c, hc, hlower⟩ := List.mem_map.1 hletter
  have hchars := mem_numberChars_of_floatText htext c (List.mem_append_right sign hc)
  have hne : ∀ d ∈ numberChars, asciiLower d ≠ 'n' := by
    intro d hd
    fin_cases hd <;> decide
  exact hne c hchars hlower

/-! ### One with many places -/

/-- The text of one at a number of places after the point, with an exponent. -/
def smallOne (places : Nat) (exponent : List Nat) : List Char :=
  ['0', '.'] ++ List.replicate places '0' ++ ['1', 'e'] ++ exponent.map Nat.digitChar

/-- The numeral of that text. -/
def smallOneNumeral (places : Nat) (exponent : List Nat) : Numeral :=
  ⟨false, [0], List.replicate places 0 ++ [1], some (false, exponent)⟩

theorem floatText_smallOne (places : Nat) {exponent : List Nat} (hne : exponent ≠ [])
    (hlt : ∀ d ∈ exponent, d < 10) :
    FloatText (smallOne places exponent) (smallOneNumeral places exponent) := by
  have hdigits : ∀ d ∈ [0] ++ (List.replicate places 0 ++ [1]), d < 10 := by
    simp only [List.forall_mem_append, List.forall_mem_singleton]
    refine ⟨by decide, fun d hd => ?_, by decide⟩
    rw [List.eq_of_mem_replicate hd]
    decide
  have hpointed : PointedText _ [0] (List.replicate places 0 ++ [1]) := .point (by simp) hdigits
  have hexponent : ExponentText ('e' :: [] ++ exponent.map Nat.digitChar) (some (false, exponent)) :=
    .digits (by simp) (.sign .none) ⟨hne, hlt, rfl⟩
  have htext := FloatText.parts (.sign .none) hpointed hexponent
  simpa [smallOne, smallOneNumeral, Nat.digitChar] using htext

theorem absolute_smallOne (places : Nat) (exponent : List Nat) (e : Int) :
    (smallOneNumeral places exponent).absolute e = 10 ^ (e - (places + 1 : Nat)) := by
  have hsignificand : (smallOneNumeral places exponent).significand = 1 := by
    have hzeros : [0] ++ (List.replicate places 0 ++ [1]) = List.replicate (places + 1) 0 ++ [1] := rfl
    rw [Numeral.significand, smallOneNumeral, hzeros, ofDigits_append, ofDigits_replicate_zero,
      Nat.zero_mul]
    rfl
  rw [Numeral.absolute_eq, hsignificand, Nat.cast_one, one_mul]
  simp [smallOneNumeral]

/-- An exponent that makes up for the places gives one. -/
theorem rounds_smallOne {places : Nat} (exponent : List Nat) {e : Int} (h : e = (places + 1 : Nat)) :
    (ofInt 1).Rounds false ((smallOneNumeral places exponent).absolute e) := by
  have hone : (smallOneNumeral places exponent).absolute e = ((1 : Nat) : ℚ) / (1 : Nat) := by
    rw [absolute_smallOne, h]
    norm_num
  have hfloat : (ofInt 1).isFinite = true ∧ (ofInt 1).negative = false ∧
      Binary64.nearest 1 1 = (ofInt 1).magnitude.toNat := by
    decide +kernel
  rw [hone]
  exact ⟨hfloat.1, hfloat.2.1, (isNearestEven_div_iff Nat.one_pos).2 hfloat.2.2⟩

/-- The exponent `655360` is read as `65536`. -/
theorem toFloat?_smallOne {places : Nat} (h : places + 1 = 65536) :
    (Literal.string (String.ofList (smallOne places [6, 5, 5, 3, 6, 0]))).toFloat? =
      some (ofInt 1) := by
  have htext : FloatText (smallOne places [6, 5, 5, 3, 6, 0]) _ :=
    floatText_smallOne places (by decide) (by decide)
  have hstripped : Text.Stripped (String.ofList (smallOne places [6, 5, 5, 3, 6, 0])).toList
      (smallOne places [6, 5, 5, 3, 6, 0]) := by
    rw [String.toList_ofList]
    exact stripped_of_floatText htext
  have he : CountedExponent (smallOneNumeral places [6, 5, 5, 3, 6, 0]).exponent 65536 :=
    countedExponent_iff.2 rfl
  rw [toFloat?_of_floatText hstripped htext, finite?_nearest_eq_some_iff htext he]
  exact rounds_smallOne _ (by rw [h]; rfl)

/-- The number that is written is too large for a float. -/
theorem not_rounds_smallOne {places : Nat} (h : places + 1 = 65536) {text : List Char} {t : Numeral}
    {x : Binary64} (hstripped : Text.Stripped (smallOne places [6, 5, 5, 3, 6, 0]) text)
    (htext : FloatText text t) : ¬ x.Rounds t.negative (t.absolute t.writtenExponent) := by
  intro hx
  have htext' : FloatText (smallOne places [6, 5, 5, 3, 6, 0]) _ :=
    floatText_smallOne places (by decide) (by decide)
  have hstrip := Text.strip_eq_iff.2 (stripped_of_floatText htext')
  rw [← Text.strip_eq_iff.2 hstripped, hstrip] at htext
  obtain rfl := htext.unique htext'
  have hwritten : (smallOneNumeral places [6, 5, 5, 3, 6, 0]).writtenExponent = 655360 := by
    rw [← Numeral.exponentValue_eq]
    rfl
  have hlt := exists_rounds_absolute_iff.1 ⟨x, hx⟩
  rw [hwritten, absolute_smallOne, h] at hlt
  have hpow : (2 : ℚ) ^ 1024 ≤ 10 ^ (400 : Int) := by
    have hnat : 2 ^ 1024 ≤ 10 ^ 400 := by decide +kernel
    exact_mod_cast hnat
  have hmono : (10 : ℚ) ^ (400 : Int) ≤ 10 ^ (655360 - (65536 : Nat) : Int) :=
    zpow_le_zpow_right₀ (by norm_num) (by norm_num)
  have hle : (2 : ℚ) ^ 1024 - 2 ^ 970 ≤ 2 ^ 1024 := sub_le_self _ (by positivity)
  exact (hlt.trans_le (hle.trans (hpow.trans hmono))).false

/-! ### The float of a string -/

/-- A string fits a `float` field exactly if it is, without the white space at its ends, a sign or
none, digits with a point or none, and an exponent or none, and the float nearest to the number is
finite; and what is compared is that float, with the sign that is written.  The number is the one
with the exponent as far as its digits count; that is the number written if the exponent is less than
ten times the limit, or if no more than `65000` digits come before it.  Any other string is reported as
a literal that does not fit, and so are the words for what is no finite number. -/
theorem toFloat?_string_nearest (s : String) :
    (∀ x, (Literal.string s).toFloat? = some x ↔
        ∃ text t e, Text.Stripped s.toList text ∧ FloatText text t ∧
          CountedExponent t.exponent e ∧ x.Rounds t.negative (t.absolute e)) ∧
      (∀ text t, Text.Stripped s.toList text → FloatText text t →
        |t.writtenExponent| < 655360 ∨ (t.whole ++ t.fraction).length ≤ 65000 →
        ∀ x, (Literal.string s).toFloat? = some x ↔
          x.Rounds t.negative (t.absolute t.writtenExponent)) ∧
      ((∃ x, (Literal.string s).toFloat? = some x) ↔
        ∃ text t e, Text.Stripped s.toList text ∧ FloatText text t ∧
          CountedExponent t.exponent e ∧ t.absolute e < 2 ^ 1024 - 2 ^ 970) ∧
      (∀ (options : CompileOptions) (c : Condition) (route : List Nat),
        compileTest options c (.string s) .float route =
            .error (.typeMismatch c.field .float (.literal (.string s))) ↔
          ¬ ∃ x, (Literal.string s).toFloat? = some x) ∧
      ∀ sign word, sign ∈ [[], ['+'], ['-']] →
        word.map asciiLower ∈ ["inf".toList, "infinity".toList, "nan".toList] →
        Text.Stripped s.toList (sign ++ word) → (Literal.string s).toFloat? = none := by
  have hsome : ∀ x, (Literal.string s).toFloat? = some x ↔
      ∃ text t e, Text.Stripped s.toList text ∧ FloatText text t ∧
        CountedExponent t.exponent e ∧ x.Rounds t.negative (t.absolute e) := by
    intro x
    rw [toFloat?_eq_some_iff]
    constructor
    · rintro ⟨text, t, hstripped, htext, hx⟩
      have he := countedExponent_iff (t := t).2 rfl
      exact ⟨text, t, _, hstripped, htext, he, (finite?_nearest_eq_some_iff htext he).1 hx⟩
    · rintro ⟨text, t, e, hstripped, htext, he, hx⟩
      exact ⟨text, t, hstripped, htext, (finite?_nearest_eq_some_iff htext he).2 hx⟩
  refine ⟨hsome, ?_, ?_, ?_, ?_⟩
  · intro text t hstripped htext hfits x
    rw [toFloat?_of_floatText hstripped htext, rounds_absolute_iff,
      t.finite?_nearest_decimal (lt_ten_of_floatText htext) (exponentFits_of_lt hfits),
      Numeral.scale, t.exponentValue_eq]
  · simp only [hsome]
    constructor
    · rintro ⟨x, text, t, e, hstripped, htext, he, hx⟩
      exact ⟨text, t, e, hstripped, htext, he, exists_rounds_absolute_iff.1 ⟨x, hx⟩⟩
    · rintro ⟨text, t, e, hstripped, htext, he, hlt⟩
      obtain ⟨x, hx⟩ := exists_rounds_absolute_iff.2 hlt
      exact ⟨x, text, t, e, hstripped, htext, he, hx⟩
  · intro options c route
    exact compileTest_eq_typeMismatch_iff_of_fit? rfl
  · intro sign word _ hword hstripped
    rw [Option.eq_none_iff_forall_ne_some]
    intro x hx
    obtain ⟨text, t, hstripped', htext, -⟩ := toFloat?_eq_some_iff.1 hx
    rw [← Text.strip_eq_iff.2 hstripped', Text.strip_eq_iff.2 hstripped] at htext
    exact not_floatText_word hword htext

/-- Fewer digits make up for a smaller exponent, which counts in full; and a word is no number. -/
theorem toFloat?_string_nearest_smallOne :
    (Literal.string "0.01e2").toFloat? = some (ofInt 1) ∧
      (Literal.string "-Infinity").toFloat? = none := by
  obtain ⟨-, hwritten, -⟩ := toFloat?_string_nearest "0.01e2"
  obtain ⟨-, -, -, -, hword⟩ := toFloat?_string_nearest "-Infinity"
  have htext : FloatText (smallOne 1 [2]) (smallOneNumeral 1 [2]) :=
    floatText_smallOne 1 (by decide) (by decide)
  have hlist : "0.01e2".toList = smallOne 1 [2] := by decide
  have hstripped : Text.Stripped "0.01e2".toList (smallOne 1 [2]) := by
    rw [hlist]
    exact stripped_of_floatText htext
  refine ⟨?_, ?_⟩
  · exact (hwritten _ _ hstripped htext (.inr (by decide)) _).2 (rounds_smallOne [2] rfl)
  · refine hword ['-'] "Infinity".toList (by decide) (by decide +kernel) ?_
    exact Text.strip_eq_iff.1 (by decide +kernel)

/-- Some strings are read as another number than they denote. -/
theorem toFloat?_string_not_written :
    (Literal.string (String.ofList (smallOne 65535 [6, 5, 5, 3, 6, 0]))).toFloat? = some (ofInt 1) ∧
      ¬ ∀ (s : String) (x : Binary64), (Literal.string s).toFloat? = some x ↔
        ∃ text t, Text.Stripped s.toList text ∧ FloatText text t ∧
          x.Rounds t.negative (t.absolute t.writtenExponent) := by
  have hone : 65535 + 1 = 65536 := rfl
  refine ⟨toFloat?_smallOne hone, fun hall => ?_⟩
  obtain ⟨text, t, hstripped, htext, hx⟩ := (hall _ _).1 (toFloat?_smallOne hone)
  rw [String.toList_ofList] at hstripped
  exact not_rounds_smallOne hone hstripped htext hx

end Literal

end RecordFilter
