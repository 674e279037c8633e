import Mathlib
import RecordFilter.Proofs.Json.Document
import RecordFilter.Proofs.Json.FloatReading
import RecordFilter.Proofs.Json.UncheckedStrings
import RecordFilter.Proofs.LiteralText

/-!
# Floats written and read again

The text of a float in a document names that float, as the one nearest to it.  The reader need not
arrive there: a finite float comes back as a finite float with the same sign, but up to four steps
away (`Literal.ofJson_json_float`).  It comes back itself if its digits and its power of ten are
floats (`Binary64.IsWrittenExactly`).  The largest whole number below `2 ^ 53` does not, since the
zero after its point makes its digits too many: `ofJson_largestOdd`.
-/

namespace RecordFilter.Json

open Number Binary64 Decimal Reader Text

/-! ## Reading what a magnitude is written as -/

namespace Numeral

theorem value?_of_not_isWhole {t : Numeral} (h : t.isWhole = false) :
    t.value? = t.magnitude?.map fun k => .float (.ofMagnitude t.negative k) := by
  rw [value?, isInteger, h]
  rfl

/-- The text of the largest double is read back. -/
theorem readNumber_largest :
    readNumber (bytesOf (Layout.json.magnitudeText (infinite - 1))) =
      .ok (.float (.ofMagnitude false (infinite - 1)), []) := by
  decide +kernel

/-- The text of a finite float is not too large.  For the largest one that has to be tried: there a
number that is nearest to it can be too large for the reader. -/
theorem magnitude?_isSome_json {k : Nat} (hk : k < infinite) {t : Numeral}
    (htext : NumeralText (Layout.json.magnitudeText k) t) (hpoint : t.isWhole = false)
    (hvalue : nearestScaled t.significand t.scale = k) (hfits : t.significand < UInt64.size)
    (hdigits : 0 ≤ t.scale → t.significand ≤ tenTo 17) : t.magnitude?.isSome := by
  rcases Nat.lt_or_ge (k + 1) infinite with hless | hlargest
  · rw [magnitude?_eq, scaled_eq_of_lt hfits]
    dsimp only
    split
    · next hscale =>
      obtain ⟨e, he⟩ := Int.eq_ofNat_of_zero_le hscale
      rw [← hvalue, he] at hless
      rw [he, Int.toNat_natCast]
      exact grow_isSome (hdigits hscale) hless
    · rfl
  · obtain rfl : k = infinite - 1 := by omega
    have hread := read_returns htext [] delimited_nil
    have hnumber := readNumber_largest
    rw [List.append_nil] at hread
    rw [readNumber, bind_of_ok hread, value?_of_not_isWhole hpoint] at hnumber
    cases hmagnitude : t.magnitude? with
    | some j => rfl
    | none =>
      rw [hmagnitude] at hnumber
      cases hnumber

/-- What the text of a finite magnitude is read as. -/
theorem exists_magnitude?_json {k : Nat} (hk : k < infinite) :
    ∃ t j, NumeralText (Layout.json.magnitudeText k) t ∧ t.negative = false ∧ t.isWhole = false ∧
      t.magnitude? = some j ∧ Near 4 j k ∧ (t.IsExact → j = k) := by
  obtain ⟨t, htext, hnegative, hpoint, hvalue, hdigits, hscale⟩ := Layout.exists_numeral_json k
  have hfits : t.significand < UInt64.size := by
    have hten : tenTo 18 ≤ UInt64.size := by decide
    omega
  obtain ⟨j, hj⟩ := Option.isSome_iff_exists.1
    (magnitude?_isSome_json hk htext hpoint hvalue hfits hscale)
  refine ⟨t, j, htext, hnegative, hpoint, hj, ?_, ?_⟩
  · rw [← hvalue]
    exact near_magnitude? hfits hj
  · intro hexact
    rw [magnitude?_of_isExact hexact, hvalue] at hj
    exact (Option.some.inj hj).symm

end Numeral

/-! ## Reading what a float is written as -/

theorem readLiteral_returns_number (depth : Nat) {piece : List UInt8}
    {outcome : Except Fault NumberValue} (hlead : Leads .number piece)
    (h : Returns readNumber piece outcome) :
    Returns (readLiteral depth) piece (outcome.map Literal.ofNumber) := by
  intro rest hrest
  obtain ⟨array, object, heq⟩ := Tree.read_eq_readWith depth
  have htree : Tree.read depth (piece ++ rest) =
      (outcome.map Tree.number).map fun tree => (tree, rest) := by
    rw [heq, Tree.readWith, bind_of_ok (hlead.lead_append rest)]
    exact h.map Tree.number rest hrest
  cases outcome with
  | ok v => exact bind_of_ok htree
  | error fault => exact bind_of_error htree

end RecordFilter.Json

namespace RecordFilter

open Number Binary64 Json Reader Text

/-- Whether the digits that a float is written with, and their power of ten, are floats themselves. -/
def Number.Binary64.IsWrittenExactly (x : Binary64) : Prop :=
  ∃ t, NumeralText (Layout.json.text x) t ∧ t.IsExact

theorem numeralText_unique {text : List Char} {t t' : Numeral} (h : NumeralText text t)
    (h' : NumeralText text t') : t = t' := by
  have hread := Numeral.read_returns h [] delimited_nil
  rw [Numeral.read_returns h' [] delimited_nil] at hread
  cases hread
  rfl

/-- A finite float is read as a finite one with the same sign, and near it. -/
theorem exists_readNumber_text {x : Binary64} (hx : x.isFinite) :
    ∃ w : Binary64, Returns readNumber (bytesOf (Layout.json.text x)) (.ok (.float w)) ∧
      w.isFinite ∧ w.negative = x.negative ∧ Near 4 w.magnitude.toNat x.magnitude.toNat ∧
      (x.IsWrittenExactly → w = x) := by
  have hmagnitude : x.magnitude.toNat < infinite := of_decide_eq_true hx
  obtain ⟨t, j, htext, hnegative, hpoint, hj, hnear, hexact⟩ :=
    Numeral.exists_magnitude?_json hmagnitude
  have hsigned := Layout.numeralText_text hx htext hnegative
  have hfinite := Numeral.magnitude?_lt_infinite hj
  refine ⟨ofMagnitude x.negative j, ?_, isFinite_ofMagnitude.2 hfinite, rfl, ?_, ?_⟩
  · have hvalue : Numeral.value? { t with negative := x.negative } =
        t.magnitude?.map fun k => .float (ofMagnitude x.negative k) :=
      Numeral.value?_of_not_isWhole hpoint
    rw [hj] at hvalue
    exact readNumber_returns hsigned hvalue
  · rw [toNat_magnitude_ofMagnitude, Nat.min_eq_left hfinite.le]
    exact hnear
  · intro h
    obtain ⟨t', htext', hexact'⟩ := h
    obtain rfl := numeralText_unique hsigned htext'
    rw [hexact hexact', ofMagnitude_of_isFinite hx]

/-- A finite float that is written in a document and read again, as a literal of its own or in a
condition, comes back as a finite float with the same sign and near it.  It comes back itself if its
digits and their power of ten are floats. -/
theorem Literal.ofJson_json_float {x : Binary64} (hx : x.isFinite) :
    ∃ w : Binary64, Literal.ofJson (bytesOf (Literal.float x).json) = .ok (.float w) ∧
      (∀ connector field op,
        RuleSet.ofJson (RuleSet.toJson ⟨connector, [⟨field, op, some (.float x)⟩]⟩) =
          .ok ⟨connector, [⟨field, op, some (.float w)⟩]⟩) ∧
      w.isFinite ∧ w.negative = x.negative ∧ Near 4 w.magnitude.toNat x.magnitude.toNat ∧
      (x.IsWrittenExactly → w = x) := by
  obtain ⟨w, hread, hfinite, hsign, hnear, hexact⟩ := exists_readNumber_text hx
  have hlead := leads_of_returns_readNumber hread
  have hjson : (Literal.float x).json = Layout.json.text x := by
    rw [Literal.json, if_pos hx]
  refine ⟨w, ?_, ?_, hfinite, hsign, hnear, hexact⟩
  · rw [Literal.ofJson, hjson]
    exact (readLiteral_returns_number maxDepth hlead hread).complete
  · intro connector field op
    have hvalue := readValue_returns_number 124 hlead hread
    rw [← hjson] at hvalue
    rw [RuleSet.ofJson_eq_ofBytes, RuleSet.toJson, utf8_ofList]
    exact ofBytes_oneCondition connector field op hvalue

/-- One tenth, as a float. -/
def tenth : Binary64 :=
  ⟨false, 0x3FB999999999999A⟩

theorem Literal.ofJson_json_tenth :
    tenth.isFinite ∧ Literal.ofJson (bytesOf (Literal.float tenth).json) = .ok (.float tenth) := by
  have hfinite : tenth.isFinite := by decide
  have hwritten : tenth.IsWrittenExactly := by
    have htext : Layout.json.text tenth = ['0', '.', '1'] := by decide +kernel
    have hzero : WholeText ['0'] [0] :=
      ⟨⟨List.cons_ne_nil _ _, by decide, rfl⟩, fun _ => rfl⟩
    have hone : DigitText ['1'] [1] := ⟨List.cons_ne_nil _ _, by decide, rfl⟩
    refine ⟨⟨false, [0], [1], none⟩, ?_, by decide⟩
    rw [htext]
    exact .parts .none hzero (.digits hone) .none
  obtain ⟨w, hread, -, -, -, -, hexact⟩ := Literal.ofJson_json_float hfinite
  rw [hexact hwritten] at hread
  exact ⟨hfinite, hread⟩

/-- The largest odd whole number that is a float. -/
def largestOdd : Binary64 :=
  .ofInt (2 ^ 53 - 1)

/-- The largest odd whole number comes back one step away. -/
theorem Literal.ofJson_json_largestOdd :
    largestOdd.isFinite ∧
    (Literal.float largestOdd).json = "9007199254740991.0".toList ∧
    Literal.ofJson (bytesOf (Literal.float largestOdd).json) =
      .ok (.float (.ofInt (2 ^ 53 - 2))) ∧
    Literal.ofJson (bytesOf (Literal.float largestOdd).json) ≠ .ok (.float largestOdd) ∧
    RuleSet.ofJson (RuleSet.toJson ⟨some .and, [⟨"N", .equal, some (.float largestOdd)⟩]⟩) =
      .ok ⟨some .and, [⟨"N", .equal, some (.float (.ofInt (2 ^ 53 - 2)))⟩]⟩ := by
  decide +kernel

end RecordFilter
