import Mathlib
import RecordFilter.Proofs.IntegerOperand
import RecordFilter.Proofs.Json.FloatText
import RecordFilter.Proofs.Json.Magnitude
import RecordFilter.Proofs.NumberText
import RecordFilter.Proofs.StringCoercion

/-!
# A literal and its text

A literal may be written as it is or as a string with its text: both fit a field alike, with the
same value.  The text of a number is a number of the JSON grammar, of which the readers of strings
find the same value as the conversion of the literal.

Only an `int` field asks for care.  Floats beyond `2 ^ 53` may be written with fewer digits than
they have as whole numbers, and the text of such a one is another whole number than the float is.
-/

namespace RecordFilter

open Number Binary64 Json

/-! ## Texts of numbers -/

theorem Number.Binary64.ofMagnitude_of_isFinite {x : Binary64} (hx : x.isFinite) :
    ofMagnitude x.negative x.magnitude.toNat = x := by
  have hlt : x.magnitude.toNat < infinite := of_decide_eq_true hx
  have hbits : BitVec.ofNat 63 x.magnitude.toNat = x.magnitude := by simp
  rw [ofMagnitude, Nat.min_eq_left hlt.le, hbits]

namespace Number.Decimal

/-- A numeral with no exponent is rounded with no regard to how large it is. -/
theorem nearest_of_exponent_eq_zero {d : Decimal} (h : d.exponent = 0) (hne : d.whole ≠ []) :
    d.nearest = .ofMagnitude d.negative (nearestScaled d.significand d.scale) := by
  have hlength := List.length_pos_iff.2 hne
  have hreach : ¬ d.reach < -400 := by
    rw [reach]
    omega
  have hscale : ¬ 400 < d.scale := by
    rw [scale]
    omega
  unfold nearest
  rw [if_neg hscale]
  split
  · next hsmall =>
    have hzero : d.significand = 0 := hsmall.resolve_right hreach
    rw [hzero, nearestScaled_zero_left]
  · rfl

end Number.Decimal

namespace Json.WholeNumeral

theorem decide_value_neg (w : WholeNumeral)
    (h : w.negative → w.value ≠ 0) : decide (w.value < 0) = w.negative := by
  by_cases hminus : w.negative
  · have hne := h hminus
    have hle : w.value ≤ 0 := by
      rw [WholeNumeral.value, if_pos hminus]
      omega
    rw [hminus, decide_eq_true (by omega)]
  · have hge : 0 ≤ w.value := by
      rw [WholeNumeral.value, if_neg hminus]
      omega
    rw [Bool.not_eq_true] at hminus
    rw [hminus, decide_eq_false (by omega)]

end Json.WholeNumeral

namespace Literal

section NumeralText

variable {s : String} {t : Numeral} (h : NumeralText s.toList t)
include h

theorem toInt?_numeralText :
    (Literal.string s).toInt? = (if t.isWhole then some t.wholeValue else none).bind int64? := by
  rw [toInt?, strip_numeralText h, wholeNumber?_numeralText h]

theorem toFloat?_numeralText : (Literal.string s).toFloat? = finite? t.decimal.nearest := by
  rw [toFloat?, strip_numeralText h, ofText?_numeralText h, Option.bind_some]

/-- A number is not the name of a truth value. -/
theorem toBool?_numeralText : (Literal.string s).toBool? = none := by
  obtain ⟨c, tail, htext, hc⟩ := exists_first_of_numeralText h
  have hdigit : ∀ d < 10, asciiLower (Nat.digitChar d) ≠ 't' ∧ asciiLower (Nat.digitChar d) ≠ 'f' := by
    decide
  have hfirst : asciiLower c ≠ 't' ∧ asciiLower c ≠ 'f' := by
    rcases hc with rfl | ⟨d, hd, rfl⟩
    · decide
    · exact hdigit d hd
  have hword : ∀ b, (c :: tail).map asciiLower ≠ boolText b := by
    intro b heq
    cases b with
    | false => exact hfirst.2 (List.cons_eq_cons.1 heq).1
    | true => exact hfirst.1 (List.cons_eq_cons.1 heq).1
  rw [toBool?, strip_numeralText h, htext, if_neg (hword true), if_neg (hword false)]

end NumeralText

/-! ## Whole numbers -/

theorem exists_numeral_int (n : Int64) :
    ∃ w : WholeNumeral, NumeralText (Literal.int n).text w.token ∧ w.value = n.toInt ∧
      (w.negative → n.toInt ≠ 0) := by
  obtain ⟨w, htext, hvalue, hnegative⟩ := WholeNumeral.exists_text_eq_wholeText n.toInt
  have hnumeral := w.numeralText
  rw [htext] at hnumeral
  exact ⟨w, hnumeral, hvalue, hnegative⟩

theorem int64?_toInt (n : Int64) : int64? n.toInt = some n := by
  have hmin : Int64.minValue.toInt ≤ n.toInt := n.le_toInt
  have hmax : n.toInt ≤ Int64.maxValue.toInt := n.toInt_le
  rw [int64?, if_pos ⟨hmin, hmax⟩, Int64.ofInt_toInt]

section Int

variable {s : String} {n : Int64} (hs : s.toList = (Literal.int n).text)
include hs

theorem toInt?_text_int : (Literal.string s).toInt? = some n := by
  obtain ⟨w, htext, hvalue, -⟩ := exists_numeral_int n
  rw [← hs] at htext
  rw [toInt?_numeralText htext, w.token_isWhole, w.token_wholeValue, hvalue]
  exact int64?_toInt n

theorem toFloat?_text_int : (Literal.string s).toFloat? = some (.ofInt n.toInt) := by
  obtain ⟨w, htext, hvalue, hnegative⟩ := exists_numeral_int n
  rw [← hs] at htext
  have hnearest : w.token.decimal.nearest = .ofInt n.toInt := by
    have habs := w.natAbs_value
    have hsignificand : w.token.decimal.significand = w.value.natAbs := by
      rw [habs]
      exact congrArg ofDigits (List.append_nil w.digits)
    have hscale : w.token.decimal.scale = 0 := rfl
    have hsign : w.token.decimal.negative = decide (n.toInt < 0) := by
      rw [← hvalue] at hnegative ⊢
      exact (w.decide_value_neg hnegative).symm
    rw [Decimal.nearest_of_exponent_eq_zero rfl w.ne_nil, hsignificand, hscale,
      Decimal.nearestScaled_zero, hsign, hvalue]
    rfl
  have hfinite : (ofInt n.toInt).isFinite := by
    apply isFinite_ofInt
    have hlow := n.le_toInt
    have hhigh := n.toInt_lt
    unfold UInt64.size
    omega
  rw [toFloat?_numeralText htext, hnearest, finite?, if_pos hfinite]

end Int

/-! ## Floats -/

section Float

variable {x : Binary64} (hx : x.isFinite)
include hx

theorem exists_numeral_float :
    ∃ whole fraction,
      NumeralText (Literal.float x).text ⟨x.negative, whole, fraction, none⟩ ∧ whole ≠ [] ∧
      Decimal.nearestScaled (ofDigits (whole ++ fraction)) (-fraction.length) = x.magnitude.toNat ∧
      ∀ v, units x.magnitude.toNat = v * one → fraction = [] := by
  obtain ⟨whole, fraction, htext, hvalue, hwhole⟩ :=
    Layout.exists_numeral_display x.magnitude.toNat
  have hne : whole ≠ [] := by
    generalize Layout.display.magnitudeText x.magnitude.toNat = text at htext
    cases htext with
    | parts _ hdigits _ _ => exact hdigits.1.1
  exact ⟨whole, fraction, Layout.numeralText_text hx htext rfl, hne, hvalue, hwhole⟩

variable {s : String} (hs : s.toList = (Literal.float x).text)
include hs

theorem toFloat?_text_float : (Literal.string s).toFloat? = some x := by
  obtain ⟨whole, fraction, htext, hne, hvalue, -⟩ := exists_numeral_float hx
  rw [← hs] at htext
  have hnearest : (Numeral.decimal ⟨x.negative, whole, fraction, none⟩).nearest = x := by
    have hscale : (Numeral.decimal ⟨x.negative, whole, fraction, none⟩).scale = -fraction.length :=
      Int.zero_sub _
    rw [Decimal.nearest_of_exponent_eq_zero rfl hne, hscale]
    show ofMagnitude x.negative (Decimal.nearestScaled (ofDigits (whole ++ fraction)) _) = x
    rw [hvalue, ofMagnitude_of_isFinite hx]
  rw [toFloat?_numeralText htext, hnearest, finite?, if_pos hx]

/-- The largest whole number of the range stands at its end, where the text still is the number. -/
theorem toInt?_text_bound (h : x.magnitude.toNat = nearest (2 ^ 53) 1) :
    (Literal.string s).toInt? = (Literal.float x).toInt? := by
  have hfloat := ofMagnitude_of_isFinite hx
  rw [h] at hfloat
  rw [← hfloat] at hs ⊢
  show (wholeNumber? (Text.strip s.toList)).bind int64? = _
  rw [hs]
  cases x.negative <;> decide +kernel

/-- Up to `2 ^ 53` the whole numbers are floats, so that the text of a float is that of a whole number
only if the float is that number. -/
theorem toInt?_text_float (hbound : units x.magnitude.toNat ≤ 2 ^ 53 * one) :
    (Literal.string s).toInt? = (Literal.float x).toInt? := by
  have htop := units_nearest (Nat.le_refl (2 ^ 53))
  have hle : x.magnitude.toNat ≤ nearest (2 ^ 53) 1 := by
    by_contra hgt
    have hlt := units_strictMono (Nat.not_le.1 hgt)
    omega
  rcases Nat.lt_or_eq_of_le hle with hlt | heq
  · obtain ⟨whole, fraction, htext, -, hvalue, hwhole⟩ := exists_numeral_float hx
    rw [← hs] at htext
    rw [toInt?_numeralText htext]
    show _ = x.toInt?.bind int64?
    rw [Binary64.toInt?]
    by_cases hfraction : fraction = []
    · rw [hfraction, List.append_nil, List.length_nil, Int.ofNat_zero, neg_zero,
        Decimal.nearestScaled_zero] at hvalue
      have hsmall : ofDigits whole ≤ 2 ^ 53 := by
        by_contra hlarge
        have hmono := nearest_mono Nat.one_pos (Nat.not_le.1 hlarge).le
        omega
      have hunits := units_nearest hsmall
      have hquot : ((ofDigits whole * one : Nat) : Int) / one = ofDigits whole := by
        exact_mod_cast Nat.mul_div_cancel _ Binary64.one_pos
      rw [hvalue] at hunits
      rw [if_pos (by rw [hfraction]; rfl), if_pos ⟨hx, by rw [hunits, Nat.mul_mod_left]⟩, hunits,
        hquot]
      rfl
    · have hmod : ¬ units x.magnitude.toNat % one = 0 := by
        intro hzero
        exact hfraction (hwhole _ (Nat.div_mul_cancel (Nat.dvd_of_mod_eq_zero hzero)).symm)
      have hpoint : ¬ Numeral.isWhole ⟨x.negative, whole, fraction, none⟩ := by
        simp [Numeral.isWhole, hfraction]
      rw [if_neg hpoint, if_neg fun h => hmod h.2]
  · exact toInt?_text_bound hx hs heq

end Float

/-! ## Literals -/

/-- Whether a literal is anything but a float beyond `2 ^ 53` on either side. -/
def WithinWhole (literal : Literal) : Prop :=
  ∀ x, literal = .float x → units x.magnitude.toNat ≤ 2 ^ 53 * one

section Text

variable {literal : Literal} {s : String} (hs : literal.toString? .stringify = some s)
include hs

theorem toList_of_toString? : s.toList = literal.text := by
  cases literal with
  | string s' =>
    cases hs
    rfl
  | bool b =>
    cases hs
    exact String.toList_ofList
  | int n =>
    cases hs
    exact String.toList_ofList
  | float x =>
    cases hs
    exact String.toList_ofList

theorem toInt?_text (hfinite : literal.isFinite) (hwithin : literal.WithinWhole) :
    (Literal.string s).toInt? = literal.toInt? := by
  have htext := toList_of_toString? hs
  cases literal with
  | string s' =>
    cases hs
    rfl
  | bool b =>
    cases hs
    cases b <;> decide +kernel
  | int n => exact toInt?_text_int htext
  | float x => exact toInt?_text_float hfinite htext (hwithin x rfl)

theorem toFloat?_text (hfinite : literal.isFinite) :
    (Literal.string s).toFloat? = literal.toFloat? := by
  have htext := toList_of_toString? hs
  cases literal with
  | string s' =>
    cases hs
    rfl
  | bool b =>
    cases hs
    cases b <;> decide +kernel
  | int n => exact toFloat?_text_int htext
  | float x => exact toFloat?_text_float hfinite htext

theorem toBool?_text (hfinite : literal.isFinite) :
    (Literal.string s).toBool? = literal.toBool? := by
  have htext := toList_of_toString? hs
  cases literal with
  | string s' =>
    cases hs
    rfl
  | bool b =>
    cases hs
    cases b <;> decide +kernel
  | int n =>
    obtain ⟨w, hnumeral, -⟩ := exists_numeral_int n
    exact toBool?_numeralText (htext ▸ hnumeral)
  | float x =>
    obtain ⟨whole, fraction, hnumeral, -⟩ := exists_numeral_float hfinite
    exact toBool?_numeralText (htext ▸ hnumeral)

/-- The text of a literal fits every type as the literal does. -/
theorem fit?_text (hfinite : literal.isFinite) (hwithin : literal.WithinWhole) (type : ScalarType) :
    (Literal.string s).fit? .lenient type = literal.fit? .lenient type := by
  cases type with
  | int => rw [fit?, fit?, toInt?_text hs hfinite hwithin]
  | float => rw [fit?, fit?, toFloat?_text hs hfinite]
  | bool => rw [fit?, fit?, toBool?_text hs hfinite]
  | string =>
    show some (Literal.string s) = (literal.toString? .stringify).map .string
    rw [hs]
    rfl

/-- A condition compiles to the same with a literal as with its text. -/
theorem compilesTo_text_iff (hfinite : literal.isFinite) (hwithin : literal.WithinWhole)
    (family : Family) (field : String) (op : Operator) (compiled : CompiledCondition) :
    Condition.CompilesTo .lenient family ⟨field, op, some (.string s)⟩ compiled ↔
      Condition.CompilesTo .lenient family ⟨field, op, some literal⟩ compiled := by
  have htest (type : ScalarType) (route : List Nat) (test : Test) :
      compileTest .lenient ⟨field, op, some (.string s)⟩ (.string s) type route = .ok test ↔
        compileTest .lenient ⟨field, op, some literal⟩ literal type route = .ok test := by
    rw [compileTest_eq_ok_iff, compileTest_eq_ok_iff, fit?_text hs hfinite hwithin]
  constructor
  · intro h
    obtain ⟨hblank, hfield, hop, _, type, route, ⟨⟩, hpath, hcompiled⟩ := h
    exact ⟨hblank, hfield, hop, literal, type, route, rfl, hpath, (htest type route _).1 hcompiled⟩
  · intro h
    obtain ⟨hblank, hfield, hop, _, type, route, ⟨⟩, hpath, hcompiled⟩ := h
    exact ⟨hblank, hfield, hop, .string s, type, route, rfl, hpath, (htest type route _).2 hcompiled⟩

end Text

/-- A finite literal and the string with its text fit the fields of numbers and truth values alike,
with the same value: floats bit by bit, the sign of zero among them.  For `int` fields a float must
not lie beyond `2 ^ 53`.  So a condition compiles to the same with either. -/
theorem coerces_as_text {literal : Literal} {s : String} (hfinite : literal.isFinite)
    (hs : literal.toString? .stringify = some s) :
    (literal.WithinWhole → (Literal.string s).toInt? = literal.toInt?) ∧
      (Literal.string s).toFloat? = literal.toFloat? ∧
      (Literal.string s).toBool? = literal.toBool? ∧
      (literal.WithinWhole → ∀ family field op compiled,
        Condition.CompilesTo .lenient family ⟨field, op, some (.string s)⟩ compiled ↔
          Condition.CompilesTo .lenient family ⟨field, op, some literal⟩ compiled) :=
  ⟨toInt?_text hs hfinite, toFloat?_text hs hfinite, toBool?_text hs hfinite,
    compilesTo_text_iff hs hfinite⟩

/-- The text of minus zero is read as zero by `int` fields, and with its sign by `float` fields. -/
theorem coerces_as_text_minusZero :
    (Literal.float ⟨true, 0⟩).isFinite ∧
    (Literal.float ⟨true, 0⟩).toString? .stringify = some "-0" ∧
    (Literal.float ⟨true, 0⟩).WithinWhole ∧
    (Literal.string "-0").toInt? = some 0 ∧
    (Literal.string "-0").toFloat? = some ⟨true, 0⟩ ∧
    (Literal.string "-0").toBool? = none := by
  have hfinite : (Literal.float ⟨true, 0⟩).isFinite := by decide
  have hs : (Literal.float ⟨true, 0⟩).toString? .stringify = some "-0" := by decide +kernel
  have hwithin : (Literal.float ⟨true, 0⟩).WithinWhole := by
    intro x hx
    cases hx
    decide +kernel
  obtain ⟨hint, hfloat, hbool, -⟩ := coerces_as_text hfinite hs
  exact ⟨hfinite, hs, hwithin, (hint hwithin).trans (by decide +kernel), hfloat, hbool⟩

/-- Beyond `2 ^ 53` the text of a float may be another whole number. -/
example : (Literal.float (.ofInt (2 ^ 60))).toString? .stringify = some "1152921504606847000" ∧
    (Literal.string "1152921504606847000").toInt? ≠ (Literal.float (.ofInt (2 ^ 60))).toInt? := by
  decide +kernel

end Literal

end RecordFilter
