import Mathlib
import RecordFilter.Proofs.NumberText

/-!
# What is read as a number in a string

`IntegerText` and `FloatText` are the texts that strings on `int` and `float` fields may consist of,
white space around them apart.  They are wider than the numbers of the JSON grammar: a plus sign may
stand in front, there may be zeros in front, and the point of a float may be its first or its last
character.  The readers take these texts and no others: `wholeNumber?_eq_some_iff` and
`ofText?_eq_some_iff`.
-/

namespace RecordFilter

open Number Decimal Json

/-! ## Grammar -/

/-- The number that decimal digits denote, the first one being the most significant. -/
def Number.digitsValue (ds : List Nat) : Nat :=
  Nat.ofDigits 10 ds.reverse

/-- A whole number: digits after an optional sign. -/
inductive IntegerText : List Char → Int → Prop
  | parts {sign text : List Char} {negative : Bool} {ds : List Nat} :
      ExponentSignText sign negative → DigitText text ds →
      IntegerText (sign ++ text) (if negative then -digitsValue ds else digitsValue ds)

/-- Digits with an optional point, and at least one digit on either side of it. -/
inductive PointedText : List Char → List Nat → List Nat → Prop
  | whole {text : List Char} {ds : List Nat} : DigitText text ds → PointedText text ds []
  | point {whole fraction : List Nat} : whole ++ fraction ≠ [] →
      (∀ d ∈ whole ++ fraction, d < 10) →
      PointedText (whole.map Nat.digitChar ++ '.' :: fraction.map Nat.digitChar) whole fraction

/-- A float: digits with an optional point, after an optional sign and before an optional exponent.
-/
inductive FloatText : List Char → Numeral → Prop
  | parts {sign text exponentText : List Char} {negative : Bool} {whole fraction : List Nat}
      {exponent : Option (Bool × List Nat)} : ExponentSignText sign negative →
      PointedText text whole fraction → ExponentText exponentText exponent →
      FloatText (sign ++ (text ++ exponentText)) ⟨negative, whole, fraction, exponent⟩

/-! ## Digits and signs -/

namespace Number

theorem ofDigits_eq_digitsValue (ds : List Nat) : ofDigits ds = digitsValue ds := by
  induction ds using List.reverseRecOn with
  | nil => rfl
  | append_singleton ds d ih =>
    rw [ofDigits_append_singleton, ih, digitsValue, digitsValue, List.reverse_append]
    simp [Nat.ofDigits_cons, Nat.add_comm]

/-- A digit is the character of its value. -/
theorem digitChar_digitValue {c : Char} (h : isDigit c = true) :
    digitValue c < 10 ∧ Nat.digitChar (digitValue c) = c := by
  simp only [isDigit, Bool.and_eq_true, decide_eq_true_eq] at h
  have hlow : 48 ≤ c.toNat := h.1
  have hhigh : c.toNat ≤ 57 := h.2
  have hvalue : digitValue c = c.toNat - 48 := rfl
  have hlt : digitValue c < 10 := by omega
  have hchar : ∀ n < 10, Nat.digitChar n = Char.ofNat (48 + n) := by decide
  refine ⟨hlt, ?_⟩
  rw [hchar _ hlt, hvalue, Nat.add_sub_cancel' hlow, Char.ofNat_toNat]

/-- The digits that a text begins with, and what comes after them. -/
theorem spanDigits_spec {cs rest : List Char} {ds : List Nat} (h : spanDigits cs = (ds, rest)) :
    cs = ds.map Nat.digitChar ++ rest ∧ (∀ d ∈ ds, d < 10) ∧ NoDigit rest := by
  obtain ⟨rfl, rfl⟩ := Prod.mk.inj h
  have hdigit : ∀ c ∈ cs.takeWhile isDigit, isDigit c = true := fun c hc =>
    List.mem_takeWhile_imp hc
  have hchars : ((cs.takeWhile isDigit).map digitValue).map Nat.digitChar = cs.takeWhile isDigit := by
    rw [List.map_map]
    conv => rhs; rw [← List.map_id (cs.takeWhile isDigit)]
    exact List.map_congr_left fun c hc => (digitChar_digitValue (hdigit c hc)).2
  refine ⟨?_, ?_, ?_⟩
  · rw [hchars, List.takeWhile_append_dropWhile]
  · intro d hd
    obtain ⟨c, hc, rfl⟩ := List.mem_map.1 hd
    exact (digitChar_digitValue (hdigit c hc)).1
  · intro c hc
    have hfirst := List.head?_dropWhile_not isDigit cs
    rw [Option.mem_def.1 hc] at hfirst
    exact hfirst

theorem spanSign_spec {cs rest : List Char} {negative : Bool} (h : spanSign cs = (negative, rest)) :
    ∃ sign, ExponentSignText sign negative ∧ cs = sign ++ rest := by
  unfold spanSign at h
  split at h
  · cases h
    exact ⟨['-'], .sign .minus, rfl⟩
  · cases h
    exact ⟨['+'], .plus, rfl⟩
  · cases h
    exact ⟨[], .sign .none, rfl⟩

end Number

/-- A sign and digits are taken apart as such. -/
theorem span_signedDigits {sign text : List Char} {negative : Bool} {ds : List Nat}
    (hsign : ExponentSignText sign negative) (htext : DigitText text ds) :
    spanSign (sign ++ text) = (negative, text) ∧ spanDigits text = (ds, []) := by
  have hspan := spanSign_exponentSignText hsign htext []
  have hdigits := spanDigits_digitText htext noDigit_nil
  rw [List.append_nil] at hspan hdigits
  exact ⟨hspan, hdigits⟩

/-- What is taken apart into a sign and digits consists of them. -/
theorem signedDigits_of_span {cs rest : List Char} {negative : Bool} {ds : List Nat}
    (hsign : spanSign cs = (negative, rest)) (hdigits : spanDigits rest = (ds, [])) (hne : ds ≠ []) :
    ∃ sign text, ExponentSignText sign negative ∧ DigitText text ds ∧ cs = sign ++ text := by
  obtain ⟨sign, hsigned, rfl⟩ := spanSign_spec hsign
  obtain ⟨htext, hlt, -⟩ := spanDigits_spec hdigits
  rw [List.append_nil] at htext
  exact ⟨sign, rest, hsigned, ⟨hne, hlt, htext⟩, rfl⟩

/-! ## Whole numbers -/

theorem wholeNumber?_eq_some_iff {text : List Char} {i : Int} :
    wholeNumber? text = some i ↔ IntegerText text i := by
  constructor
  · intro h
    rcases hsign : spanSign text with ⟨negative, cs⟩
    rcases hdigits : spanDigits cs with ⟨ds, rest⟩
    rw [wholeNumber?, hsign] at h
    dsimp only at h
    rw [hdigits] at h
    rcases ds with _ | ⟨d, ds⟩
    · cases h
    rcases rest with _ | ⟨c, rest⟩
    · obtain ⟨sign, text, hsigned, htext, rfl⟩ :=
        signedDigits_of_span hsign hdigits (List.cons_ne_nil d ds)
      rw [← Option.some.inj h, ofDigits_eq_digitsValue]
      exact .parts hsigned htext
    · cases h
  · rintro ⟨hsign, htext⟩
    obtain ⟨hspan, hdigits⟩ := span_signedDigits hsign htext
    obtain ⟨d, ds, rfl⟩ := List.exists_cons_of_ne_nil htext.1
    rw [wholeNumber?, hspan]
    dsimp only
    rw [hdigits, ← ofDigits_eq_digitsValue]

/-! ## Floats -/

theorem exponent?_spec {text : List Char} {e : Int} (h : exponent? text = some e) :
    ∃ exponent, ExponentText text exponent ∧ ∀ negative whole fraction,
      (Numeral.mk negative whole fraction exponent).decimal.exponent = e := by
  cases text with
  | nil =>
    cases h
    exact ⟨none, .none, fun _ _ _ => rfl⟩
  | cons c cs =>
    rw [exponent?] at h
    split at h
    · next hmark =>
      rcases hsign : spanSign cs with ⟨negative, cs'⟩
      rcases hdigits : spanDigits cs' with ⟨ds, rest⟩
      rw [hsign] at h
      dsimp only at h
      rw [hdigits] at h
      rcases ds with _ | ⟨d, ds⟩
      · cases h
      rcases rest with _ | ⟨c', rest⟩
      · obtain ⟨sign, text, hsigned, htext, rfl⟩ :=
          signedDigits_of_span hsign hdigits (List.cons_ne_nil d ds)
        exact ⟨some (negative, d :: ds), .digits (by simpa using hmark) hsigned htext,
          fun _ _ _ => Option.some.inj h⟩
      · cases h
    · cases h

/-- The digits that are taken up to the exponent. -/
theorem pointedText_of_span {cs middle rest : List Char} {whole fraction : List Nat}
    (hwhole : spanDigits cs = (whole, middle)) (hfraction : spanFraction middle = (fraction, rest))
    (hne : ¬ (whole = [] ∧ fraction = [])) :
    ∃ text, PointedText text whole fraction ∧ cs = text ++ rest := by
  obtain ⟨rfl, hlt, -⟩ := spanDigits_spec hwhole
  unfold spanFraction at hfraction
  split at hfraction
  · obtain ⟨rfl, hlt', -⟩ := spanDigits_spec hfraction
    refine ⟨_, .point (by simpa using hne) (List.forall_mem_append.2 ⟨hlt, hlt'⟩), ?_⟩
    rw [List.append_assoc, List.cons_append]
  · cases hfraction
    exact ⟨_, .whole ⟨fun hnil => hne ⟨hnil, rfl⟩, hlt, rfl⟩, rfl⟩

/-- Digits with a point begin with a digit or the point. -/
theorem exists_first_of_pointedText {text : List Char} {whole fraction : List Nat}
    (h : PointedText text whole fraction) :
    ∃ c tail, text = c :: tail ∧ (isDigit c = true ∨ c = '.') := by
  cases h with
  | whole h =>
    obtain ⟨c, tail, rfl, hc⟩ := exists_digit_first h
    exact ⟨c, tail, rfl, .inl hc⟩
  | point hne hlt =>
    rcases whole with _ | ⟨d, ds⟩
    · exact ⟨_, _, rfl, .inr rfl⟩
    · exact ⟨_, _, rfl, .inl (isDigit_digitChar d (hlt d (by simp))).1⟩

theorem spanSign_pointedText {sign text rest : List Char} {negative : Bool}
    {whole fraction : List Nat} (hsign : ExponentSignText sign negative)
    (htext : PointedText text whole fraction) :
    spanSign (sign ++ (text ++ rest)) = (negative, text ++ rest) := by
  obtain ⟨c, tail, rfl, hc⟩ := exists_first_of_pointedText htext
  rcases hsign with (_ | _) | _
  · rcases hc with hc | rfl
    · exact spanSign_of_digit hc (tail ++ rest)
    · rfl
  · rfl
  · rfl

/-- The digits are taken up to the exponent. -/
theorem span_of_pointedText {text rest : List Char} {whole fraction : List Nat}
    (h : PointedText text whole fraction) (hrest : NoDigit rest)
    (hpoint : ∀ c ∈ rest.head?, c ≠ '.') :
    ∃ middle, spanDigits (text ++ rest) = (whole, middle) ∧
      spanFraction middle = (fraction, rest) := by
  cases h with
  | whole h => exact ⟨rest, spanDigits_digitText h hrest, spanFraction_fractionText .none hrest hpoint⟩
  | point hne hlt =>
    rw [List.forall_mem_append] at hlt
    rw [List.append_assoc, List.cons_append]
    exact ⟨_, spanDigits_append hlt.1 (noDigit_cons (by decide) _), spanDigits_append hlt.2 hrest⟩

/-- A float is taken apart into the parts that it was put together from. -/
theorem FloatText.spans {text : List Char} {t : Numeral} (h : FloatText text t) :
    ∃ cs middle rest, spanSign text = (t.negative, cs) ∧ spanDigits cs = (t.whole, middle) ∧
      spanFraction middle = (t.fraction, rest) ∧ ExponentText rest t.exponent := by
  obtain ⟨hsign, htext, hexponent⟩ := h
  obtain ⟨middle, hwhole, hfraction⟩ := span_of_pointedText htext (noDigit_exponentText hexponent)
    (no_point_exponentText hexponent)
  exact ⟨_, middle, _, spanSign_pointedText hsign htext, hwhole, hfraction, hexponent⟩

theorem ofText?_eq_some_iff {text : List Char} {d : Decimal} :
    ofText? text = some d ↔ ∃ t, FloatText text t ∧ t.decimal = d := by
  constructor
  · intro h
    rcases hsign : spanSign text with ⟨negative, cs⟩
    rcases hwhole : spanDigits cs with ⟨whole, middle⟩
    rcases hfraction : spanFraction middle with ⟨fraction, rest⟩
    simp only [ofText?, hsign, hwhole, hfraction] at h
    split at h
    · cases h
    · next hne =>
      obtain ⟨e, he, rfl⟩ := Option.map_eq_some_iff.1 h
      obtain ⟨exponent, hexponent, hvalue⟩ := exponent?_spec he
      obtain ⟨sign, hsigned, rfl⟩ := spanSign_spec hsign
      obtain ⟨text, htext, rfl⟩ := pointedText_of_span hwhole hfraction hne
      refine ⟨_, .parts hsigned htext hexponent, ?_⟩
      rw [← hvalue negative whole fraction]
      rfl
  · rintro ⟨t, htext, rfl⟩
    obtain ⟨cs, middle, rest, hsign, hwhole, hfraction, hexponent⟩ := htext.spans
    have hne : ¬ (t.whole = [] ∧ t.fraction = []) := by
      obtain ⟨-, hpointed, -⟩ := htext
      cases hpointed with
      | whole h => exact fun hnil => h.1 hnil.1
      | point hne _ => simpa using hne
    simp only [ofText?, hsign, hwhole, hfraction, if_neg hne, exponent?_exponentText hexponent]
    rfl

/-! ## Texts of one numeral only -/

theorem spans_of_exponentText {text : List Char} {exponent : Option (Bool × List Nat)}
    (h : ExponentText text exponent) :
    text = [] ∧ exponent = none ∨
      ∃ c cs negative rest ds, text = c :: cs ∧ spanSign cs = (negative, rest) ∧
        spanDigits rest = (ds, []) ∧ exponent = some (negative, ds) := by
  cases h with
  | none => exact .inl ⟨rfl, rfl⟩
  | digits _ hsign htext =>
    obtain ⟨hspan, hdigits⟩ := span_signedDigits hsign htext
    exact .inr ⟨_, _, _, _, _, rfl, hspan, hdigits, rfl⟩

theorem exponentText_unique {text : List Char} {a b : Option (Bool × List Nat)}
    (ha : ExponentText text a) (hb : ExponentText text b) : a = b := by
  rcases spans_of_exponentText ha with ⟨rfl, rfl⟩ | ⟨c, cs, negative, rest, ds, rfl, hspan, hdigits, rfl⟩
  · rcases spans_of_exponentText hb with ⟨-, rfl⟩ | ⟨_, _, _, _, _, hcons, -⟩
    · rfl
    · cases hcons
  · rcases spans_of_exponentText hb with ⟨hnil, -⟩ | ⟨_, _, _, _, _, hcons, hspan', hdigits', rfl⟩
    · cases hnil
    · cases hcons
      cases hspan.symm.trans hspan'
      cases hdigits.symm.trans hdigits'
      rfl

/-- A text is that of one numeral at most. -/
theorem FloatText.unique {text : List Char} {t t' : Numeral} (h : FloatText text t)
    (h' : FloatText text t') : t = t' := by
  obtain ⟨negative, whole, fraction, exponent⟩ := t
  obtain ⟨negative', whole', fraction', exponent'⟩ := t'
  obtain ⟨cs, middle, rest, hsign, hwhole, hfraction, hexponent⟩ := h.spans
  obtain ⟨cs', middle', rest', hsign', hwhole', hfraction', hexponent'⟩ := h'.spans
  cases hsign.symm.trans hsign'
  cases hwhole.symm.trans hwhole'
  cases hfraction.symm.trans hfraction'
  cases exponentText_unique hexponent hexponent'
  rfl

/-! ## Characters -/

theorem mem_numberChars_of_floatText {text : List Char} {t : Numeral} (h : FloatText text t) :
    ∀ c ∈ text, c ∈ numberChars := by
  obtain ⟨hsign, htext, hexponent⟩ := h
  rw [List.forall_mem_append, List.forall_mem_append]
  refine ⟨mem_numberChars_of_exponentSignText hsign, ?_, mem_numberChars_of_exponentText hexponent⟩
  cases htext with
  | whole h => exact mem_numberChars_of_digitText h
  | point hne hlt =>
    have hdigit : ∀ d < 10, Nat.digitChar d ∈ numberChars := by decide
    simp only [List.forall_mem_append, List.forall_mem_cons, List.forall_mem_map] at hlt ⊢
    exact ⟨fun d hd => hdigit d (hlt.1 d hd), by decide, fun d hd => hdigit d (hlt.2 d hd)⟩

end RecordFilter
