import Mathlib
import RecordFilter.Proofs.Json.WholeNumeral
import RecordFilter.Proofs.Number.Digits
import RecordFilter.Proofs.Number.Shortest

/-!
# The text of a float is a number

Both layouts write numbers of the JSON grammar.  The digits of the shortest decimal stand around a
point (`Layout.places`) or in front of an exponent, padded with zeros that change nothing: what is
written has the value of the decimal, and so is rounded to the float that it was written for.

`exists_numeral_display` and `exists_numeral_json` say this of the two layouts, each with what its
readers ask besides: a whole number is written for people with no point; in a document no text is
without a point or an exponent, and all the digits fit sixty-four bits.
-/

namespace RecordFilter.Number.Layout

open Json Decimal

/-! ## Digits around a point -/

/-- The digits before and after a point that stands after the first `position` of them. -/
def places (pointZero : Bool) (ds : List Nat) (position : Int) : List Nat × List Nat :=
  if position ≤ 0 then ([0], List.replicate (-position).toNat 0 ++ ds)
  else if ds.length ≤ position then
    (ds ++ List.replicate (position - ds.length).toNat 0, if pointZero then [0] else [])
  else (ds.take position.toNat, ds.drop position.toNat)

/-- A point and the digits after it, if there are any. -/
def pointText (fraction : List Nat) : List Char :=
  if fraction = [] then [] else '.' :: fraction.map Nat.digitChar

theorem fractionText_pointText {fraction : List Nat} (h : ∀ d ∈ fraction, d < 10) :
    FractionText (pointText fraction) fraction := by
  unfold pointText
  split
  · next hnil =>
    rw [hnil]
    exact .none
  · next hne => exact .digits ⟨hne, h, rfl⟩

/-- Digits of a positive number as it is written, the first of them not a zero. -/
structure Leading (ds : List Nat) : Prop where
  ne_nil : ds ≠ []
  lt_ten : ∀ d ∈ ds, d < 10
  head_ne_zero : ds.head? ≠ some 0

section Places

variable {ds : List Nat} (h : Leading ds) (pointZero : Bool) (position : Int)
include h

theorem positional_map :
    positional pointZero (ds.map Nat.digitChar) position =
      (places pointZero ds position).1.map Nat.digitChar ++
        pointText (places pointZero ds position).2 := by
  have hzeros (n : Nat) : List.replicate n '0' = (List.replicate n 0).map Nat.digitChar := by
    rw [List.map_replicate]
    rfl
  unfold positional places
  rw [List.length_map]
  split
  · have hne : List.replicate (-position).toNat 0 ++ ds ≠ [] := List.append_ne_nil_of_right_ne_nil _ h.ne_nil
    dsimp only
    rw [pointText, if_neg hne, hzeros, List.map_append]
    rfl
  split
  · rw [hzeros, List.map_append]
    cases pointZero <;> rfl
  · next hpos hlen =>
    have hne : ds.drop position.toNat ≠ [] := by
      rw [ne_eq, List.drop_eq_nil_iff]
      omega
    dsimp only
    rw [pointText, if_neg hne, List.map_take, List.map_drop]

theorem wholeText_places :
    WholeText ((places pointZero ds position).1.map Nat.digitChar) (places pointZero ds position).1 := by
  unfold places
  split
  · exact ⟨⟨List.cons_ne_nil _ _, by simp, rfl⟩, fun _ => rfl⟩
  obtain ⟨d, tail, rfl⟩ := List.exists_cons_of_ne_nil h.ne_nil
  have hd : d ≠ 0 := fun hzero => h.head_ne_zero (by rw [hzero]; rfl)
  split
  · refine ⟨⟨List.cons_ne_nil _ _, ?_, rfl⟩, ?_⟩
    · intro e he
      rcases List.mem_append.1 he with he | he
      · exact h.lt_ten e he
      · rw [List.eq_of_mem_replicate he]
        decide
    · intro hhead
      exact absurd (Option.some.inj hhead) hd
  · next hpos _ =>
    obtain ⟨n, hn⟩ : ∃ n, position.toNat = n + 1 := ⟨position.toNat - 1, by omega⟩
    dsimp only
    rw [hn, List.take_succ_cons]
    refine ⟨⟨List.cons_ne_nil _ _, ?_, rfl⟩, ?_⟩
    · intro e he
      apply h.lt_ten e
      rcases List.mem_cons.1 he with rfl | he
      · exact List.mem_cons_self
      · exact List.mem_cons_of_mem _ (List.mem_of_mem_take he)
    · intro hhead
      exact absurd (Option.some.inj hhead) hd

theorem lt_ten_places : ∀ d ∈ (places pointZero ds position).2, d < 10 := by
  intro d hd
  unfold places at hd
  split at hd
  · rcases List.mem_append.1 hd with hd | hd
    · rw [List.eq_of_mem_replicate hd]
      decide
    · exact h.lt_ten d hd
  split at hd
  · cases pointZero
    · cases hd
    · rw [List.mem_singleton.1 hd]
      decide
  · exact h.lt_ten d (List.mem_of_mem_drop hd)

theorem numeralText_positional :
    NumeralText (positional pointZero (ds.map Nat.digitChar) position)
      ⟨false, (places pointZero ds position).1, (places pointZero ds position).2, none⟩ := by
  have hparts := NumeralText.parts .none (wholeText_places h pointZero position)
    (fractionText_pointText (lt_ten_places h pointZero position)) .none
  rw [List.nil_append, List.append_nil, ← positional_map h] at hparts
  exact hparts

omit h in
/-- The zeros around the digits: those in front count for nothing, and those behind as many powers of
ten as the point is moved. -/
theorem exists_ofDigits_places :
    ∃ n : Nat,
      ofDigits ((places pointZero ds position).1 ++ (places pointZero ds position).2) =
        ofDigits ds * tenTo n ∧
      n - ((places pointZero ds position).2.length : Int) = position - ds.length ∧
      (n = 0 ∨ (ds.length + n : Int) ≤ position + 1) := by
  unfold places
  split
  · refine ⟨0, ?_, ?_, .inl rfl⟩
    · have hzero : ofDigits [0] = 0 := rfl
      rw [ofDigits_append, ofDigits_append, ofDigits_replicate_zero, hzero]
      simp [tenTo]
    · dsimp only
      rw [List.length_append, List.length_replicate]
      push_cast
      omega
  split
  · next hpos hlen =>
    have hvalue (n : Nat) (more : List Nat) (hmore : ofDigits more = 0) :
        ofDigits (ds ++ List.replicate n 0 ++ more) = ofDigits ds * tenTo (n + more.length) := by
      rw [ofDigits_append, ofDigits_append, ofDigits_replicate_zero, hmore, List.length_replicate]
      simp only [tenTo_eq, pow_add]
      ring
    refine ⟨_, hvalue _ _ (by cases pointZero <;> rfl), ?_, ?_⟩
    · push_cast
      omega
    · right
      have hmore : (if pointZero then [0] else [] : List Nat).length ≤ 1 := by
        cases pointZero <;> decide
      push_cast
      omega
  · next hpos hlen =>
    refine ⟨0, ?_, ?_, .inl rfl⟩
    · rw [List.take_append_drop]
      simp [tenTo]
    · dsimp only
      rw [List.length_drop]
      omega

omit h in
theorem places_snd_ne_nil (hne : ds ≠ []) : (places true ds position).2 ≠ [] := by
  unfold places
  split
  · exact List.append_ne_nil_of_right_ne_nil _ hne
  split
  · exact List.cons_ne_nil _ _
  · dsimp only
    rw [ne_eq, List.drop_eq_nil_iff]
    omega

end Places

/-! ## Digits with an exponent -/

theorem leading_decimalText {n : Nat} (hn : 0 < n) :
    ∃ ds, Leading ds ∧ ds.map Nat.digitChar = decimalText n ∧ ofDigits ds = n := by
  obtain ⟨ds, htext, hvalue, hne, hlt, hzero⟩ := WholeNumeral.exists_digits n
  refine ⟨ds, ⟨hne, hlt, ?_⟩, htext, hvalue⟩
  intro hhead
  obtain ⟨tail, rfl⟩ := List.head?_eq_some_iff.1 hhead
  have hn0 := (hzero tail rfl).2
  omega

theorem digitText_decimalText (n : Nat) : ∃ ds, DigitText (decimalText n) ds ∧ ofDigits ds = n := by
  obtain ⟨ds, htext, hvalue, hne, hlt, -⟩ := WholeNumeral.exists_digits n
  exact ⟨ds, ⟨hne, hlt, htext.symm⟩, hvalue⟩

theorem numeralText_scientific {d : Nat} {ds : List Nat} (h : Leading (d :: ds)) (exponent : Int) :
    ∃ es, NumeralText (scientific ((d :: ds).map Nat.digitChar) exponent)
        ⟨false, [d], ds, some (decide (exponent < 0), es)⟩ ∧
      Numeral.exponentValue ⟨false, [d], ds, some (decide (exponent < 0), es)⟩ = exponent := by
  obtain ⟨es, htext, hvalue⟩ := digitText_decimalText exponent.natAbs
  refine ⟨es, ?_, ?_⟩
  rotate_left
  · by_cases hneg : exponent < 0
    · rw [decide_eq_true hneg]
      show -(ofDigits es : Int) = exponent
      omega
    · rw [decide_eq_false hneg]
      show (ofDigits es : Int) = exponent
      omega
  have hlt := List.forall_mem_cons.1 h.lt_ten
  have hwhole : WholeText [Nat.digitChar d] [d] := by
    refine ⟨⟨List.cons_ne_nil _ _, by simpa using hlt.1, rfl⟩, ?_⟩
    intro hhead
    exact absurd hhead h.head_ne_zero
  have hsign : ExponentSignText [if exponent < 0 then '-' else '+'] (decide (exponent < 0)) := by
    by_cases hneg : exponent < 0
    · rw [if_pos hneg, decide_eq_true hneg]
      exact .sign .minus
    · rw [if_neg hneg, decide_eq_false hneg]
      exact .plus
  have hparts := NumeralText.parts .none hwhole (fractionText_pointText hlt.2)
    (.digits (e := 'e') (by decide) hsign htext)
  have hscientific : scientific ((d :: ds).map Nat.digitChar) exponent =
      [] ++ ([Nat.digitChar d] ++ (pointText ds ++
        ('e' :: [if exponent < 0 then '-' else '+'] ++ decimalText exponent.natAbs))) := by
    rw [scientific, pointText]
    cases ds <;> simp
  rw [hscientific]
  exact hparts

end RecordFilter.Number.Layout

namespace RecordFilter.Json.Numeral

open Number Binary64 Decimal

/-- All the digits of a token as one whole number. -/
def significand (t : Numeral) : Nat :=
  ofDigits (t.whole ++ t.fraction)

/-- The power of ten that goes with all the digits of a token. -/
def scale (t : Numeral) : Int :=
  t.exponentValue - t.fraction.length

end RecordFilter.Json.Numeral

namespace RecordFilter.Number.Layout

open Json Decimal Binary64

/-! ## The two layouts -/

theorem magnitudeText_zero (layout : Layout) :
    NumeralText (layout.magnitudeText 0) ⟨false, [0], if layout.pointZero then [0] else [], none⟩ := by
  have hzero : DigitText ['0'] [0] := ⟨List.cons_ne_nil _ _, by decide, rfl⟩
  have hparts := fun {text : List Char} {fraction : List Nat} (h : FractionText text fraction) =>
    NumeralText.parts .none ⟨hzero, fun _ => rfl⟩ h .none
  unfold magnitudeText
  rw [if_pos rfl]
  cases layout.pointZero with
  | false => exact hparts .none
  | true => exact hparts (.digits hzero)

section Decimals

variable {d : ShortDecimal} (hd : 0 < d.digits)
include hd

/-- A decimal written with no exponent, the digits before the point being a whole number if it is
one. -/
theorem exists_numeral_positional :
    ∃ whole fraction,
      NumeralText (positional false (decimalText d.digits)
        ((decimalText d.digits).length + d.exponent)) ⟨false, whole, fraction, none⟩ ∧
      nearestScaled (ofDigits (whole ++ fraction)) (-fraction.length) =
        nearestScaled d.digits d.exponent ∧
      (0 ≤ d.exponent → fraction = []) := by
  obtain ⟨ds, hds, htext, hvalue⟩ := leading_decimalText hd
  rw [← htext, List.length_map]
  obtain ⟨n, hplaces, hscale, -⟩ := @exists_ofDigits_places ds false (ds.length + d.exponent)
  refine ⟨_, _, numeralText_positional hds false _, ?_, ?_⟩
  · rw [hplaces, nearestScaled_mul_tenTo, hvalue]
    congr 1
    omega
  · intro hnonneg
    have hlength := List.length_pos_iff.2 hds.ne_nil
    unfold places
    rw [if_neg (by omega), if_pos (by omega)]
    rfl

/-- A decimal written with a point, the first digit standing within sixteen places of it. -/
theorem exists_numeral_point
    (hplain : (decimalText d.digits).length + d.exponent ≤ 16) (hlarge : d.digits ≤ tenTo 17) :
    ∃ t, NumeralText (positional true (decimalText d.digits)
        ((decimalText d.digits).length + d.exponent)) t ∧
      t.negative = false ∧ t.isWhole = false ∧
      nearestScaled t.significand t.scale = nearestScaled d.digits d.exponent ∧
      t.significand < tenTo 18 ∧ t.scale < 0 := by
  obtain ⟨ds, hds, htext, hvalue⟩ := leading_decimalText hd
  rw [← htext, List.length_map] at hplain ⊢
  obtain ⟨n, hplaces, hscale, hlength⟩ := @exists_ofDigits_places ds true (ds.length + d.exponent)
  have hfraction := places_snd_ne_nil (ds.length + d.exponent) hds.ne_nil
  refine ⟨_, numeralText_positional hds true _, rfl, ?_, ?_, ?_, ?_⟩
  · simp [Numeral.isWhole, hfraction]
  · rw [Numeral.significand, hplaces, nearestScaled_mul_tenTo, hvalue, Numeral.scale,
      Numeral.exponentValue]
    congr 1
    dsimp only
    omega
  · rw [Numeral.significand, hplaces]
    rcases hlength with rfl | hlength
    · have hten : tenTo 17 < tenTo 18 := by decide
      rw [hvalue, show tenTo 0 = 1 from rfl]
      omega
    · calc ofDigits ds * tenTo n < tenTo ds.length * tenTo n :=
            Nat.mul_lt_mul_of_pos_right (ofDigits_lt hds.lt_ten) (tenTo_pos n)
        _ = tenTo (ds.length + n) := (Nat.pow_add 10 _ _).symm
        _ ≤ tenTo 18 := tenTo_mono (by omega)
  · have hpos := List.length_pos_iff.2 hfraction
    rw [Numeral.scale, Numeral.exponentValue]
    dsimp only
    omega

/-- A decimal written with an exponent. -/
theorem exists_numeral_scientific :
    ∃ t, NumeralText (scientific (decimalText d.digits)
        ((decimalText d.digits).length + d.exponent - 1)) t ∧
      t.negative = false ∧ t.isWhole = false ∧ t.significand = d.digits ∧ t.scale = d.exponent := by
  obtain ⟨ds, hds, htext, hvalue⟩ := leading_decimalText hd
  rw [← htext, List.length_map]
  obtain ⟨first, tail, rfl⟩ := List.exists_cons_of_ne_nil hds.ne_nil
  obtain ⟨es, hscientific, hes⟩ :=
    numeralText_scientific hds ((first :: tail).length + d.exponent - 1)
  refine ⟨_, hscientific, rfl, by simp [Numeral.isWhole], hvalue, ?_⟩
  rw [Numeral.scale, hes, List.length_cons]
  push_cast
  omega

end Decimals

/-- Plain text is a number with no exponent, and with no point if the float is a whole number. -/
theorem exists_numeral_display (k : Nat) :
    ∃ whole fraction, NumeralText (display.magnitudeText k) ⟨false, whole, fraction, none⟩ ∧
      nearestScaled (ofDigits (whole ++ fraction)) (-fraction.length) = k ∧
      ∀ v, units k = v * one → fraction = [] := by
  rcases Nat.eq_zero_or_pos k with rfl | hk
  · exact ⟨[0], [], magnitudeText_zero display, by decide +kernel, fun _ _ => rfl⟩
  · obtain ⟨whole, fraction, htext, hvalue, hwhole⟩ :=
      exists_numeral_positional (ShortDecimal.digits_ofMagnitude_pos .up hk)
    rw [ShortDecimal.nearestScaled_ofMagnitude .up hk] at hvalue
    refine ⟨whole, fraction, ?_, hvalue, ?_⟩
    · unfold magnitudeText
      rw [if_neg (by omega)]
      exact htext
    · intro v h
      exact hwhole (ShortDecimal.exponent_ofMagnitude_nonneg hk h .up)

/-- The text in a document is a number with a point or an exponent.  All its digits fit sixty-four
bits, and they are no more than seventeen, or a power of ten, if no power of ten divides them. -/
theorem exists_numeral_json (k : Nat) :
    ∃ t, NumeralText (json.magnitudeText k) t ∧ t.negative = false ∧ t.isWhole = false ∧
      nearestScaled t.significand t.scale = k ∧ t.significand < tenTo 18 ∧
      (0 ≤ t.scale → t.significand ≤ tenTo 17) := by
  rcases Nat.eq_zero_or_pos k with rfl | hk
  · exact ⟨_, magnitudeText_zero json, rfl, rfl, by decide +kernel, by decide +kernel,
      by decide +kernel⟩
  · have hdigits := ShortDecimal.digits_ofMagnitude_pos .even hk
    have hround := ShortDecimal.nearestScaled_ofMagnitude .even hk
    have hlarge := ShortDecimal.digits_ofMagnitude_le .even hk
    have hten : tenTo 17 < tenTo 18 := by decide
    unfold magnitudeText
    rw [if_neg (by omega)]
    have hplain : json.plain = some (-5, 15) := rfl
    have htie : json.tie = .even := rfl
    rw [hplain, htie]
    generalize ShortDecimal.ofMagnitude .even k = d at hdigits hround hlarge ⊢
    dsimp only
    split
    · next hbounds =>
      obtain ⟨t, htext, hnegative, hpoint, hvalue, hfits, hscale⟩ :=
        exists_numeral_point hdigits (by omega) hlarge
      exact ⟨t, htext, hnegative, hpoint, hvalue.trans hround, hfits, fun hnonneg => by omega⟩
    · obtain ⟨t, htext, hnegative, hpoint, hsignificand, hscale⟩ :=
        exists_numeral_scientific hdigits
      refine ⟨t, htext, hnegative, hpoint, ?_, ?_, ?_⟩
      · rw [hsignificand, hscale, hround]
      · omega
      · intro _
        omega

/-- A minus sign in front of the text of a magnitude gives the text of a negative float. -/
theorem numeralText_text {layout : Layout} {x : Binary64} (hx : x.isFinite) {t : Numeral}
    (h : NumeralText (layout.magnitudeText x.magnitude.toNat) t) (hnegative : t.negative = false) :
    NumeralText (layout.text x) { t with negative := x.negative } := by
  have hnan : ¬ x.isNaN := by
    intro hnan
    rw [isFinite_eq_false_of_isNaN hnan] at hx
    cases hx
  unfold text
  rw [if_neg hnan, if_pos hx]
  dsimp only
  generalize layout.magnitudeText x.magnitude.toNat = unsigned at h ⊢
  cases h with
  | parts hsign hwhole hfraction hexponent =>
    cases hsign with
    | minus => cases hnegative
    | none =>
      cases x.negative with
      | false => exact .parts .none hwhole hfraction hexponent
      | true => exact .parts .minus hwhole hfraction hexponent

end RecordFilter.Number.Layout
