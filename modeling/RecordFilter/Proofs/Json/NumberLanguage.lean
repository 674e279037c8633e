import Mathlib
import RecordFilter.Proofs.Json.Accepts
import RecordFilter.Proofs.Json.Number

/-!
# The numbers that are read

The reader of numbers takes exactly the numerals of the grammar.  Nothing closes a number, so
a text is read as a numeral only if what follows cannot carry it on.  Each part asks this of
the parts behind it: the digits before the point must not be followed by a digit, those after
it by neither a digit nor a point.
-/

namespace RecordFilter.Json

open Reader Text

namespace Numeral

/-! ## Digits -/

theorem digit_byte : ∀ d < 10,
    (Nat.digitChar d).toNat < 0x80 ∧ isDigit (Nat.digitChar d).toUInt8 ∧
      digitValue (Nat.digitChar d).toUInt8 = d := by
  decide

theorem digitChar_of_isDigit : ∀ b : UInt8, isDigit b →
    b.toNat < 0x80 ∧ digitValue b < 10 ∧ asciiChar b = Nat.digitChar (digitValue b) := by
  decide +kernel

theorem bytesOf_digits {ds : List Nat} (h : ∀ d ∈ ds, d < 10) :
    bytesOf (ds.map Nat.digitChar) = ds.map fun d => (Nat.digitChar d).toUInt8 := by
  induction ds with
  | nil => rfl
  | cons d ds ih =>
    rw [List.forall_mem_cons] at h
    rw [List.map_cons, bytesOf_cons_ascii (digit_byte d h.1).1, ih h.2]
    rfl

theorem accepts_digits : Accepts digits DigitText := by
  intro cs ds rest hok
  obtain ⟨used, hbytes, rfl, hne, hused⟩ := digits_append_of_ok hok
  have hdigit := fun b hb => digitChar_of_isDigit b (hused b hb)
  obtain ⟨after, rfl, hrest⟩ := bytesOf_eq_append hbytes fun b hb => (hdigit b hb).1
  refine ⟨_, after, rfl, ⟨by simpa using hne, fun d hd => ?_, ?_⟩, hrest⟩
  · obtain ⟨b, hb, rfl⟩ := List.mem_map.1 hd
    exact (hdigit b hb).2.1
  · rw [List.map_map]
    exact List.map_congr_left fun b hb => (hdigit b hb).2.2

theorem digits_append {text : List Char} {ds : List Nat} (h : DigitText text ds)
    {rest : List UInt8} (hrest : ∀ b ∈ rest.head?, isDigit b = false) :
    digits (bytesOf text ++ rest) = .ok (ds, rest) := by
  obtain ⟨hne, hlt, rfl⟩ := h
  have hall : ∀ b ∈ ds.map fun d => (Nat.digitChar d).toUInt8, isDigit b := by
    intro b hb
    obtain ⟨d, hd, rfl⟩ := List.mem_map.1 hb
    exact (digit_byte d (hlt d hd)).2.1
  have hvalues : (ds.map fun d => (Nat.digitChar d).toUInt8).map digitValue = ds := by
    rw [List.map_map]
    conv => rhs; rw [← List.map_id ds]
    exact List.map_congr_left fun d hd => (digit_byte d (hlt d hd)).2.2
  rw [bytesOf_digits hlt, digits_append_bytes hrest (by simpa using hne) hall, hvalues]

/-- Digits begin with a digit. -/
theorem exists_digit_cons {text : List Char} {ds : List Nat} (h : DigitText text ds) :
    ∃ b tail, bytesOf text = b :: tail ∧ isDigit b := by
  obtain ⟨hne, hlt, rfl⟩ := h
  obtain ⟨d, ds, rfl⟩ := List.exists_cons_of_ne_nil hne
  rw [bytesOf_digits hlt]
  exact ⟨_, _, rfl, (digit_byte d (hlt d List.mem_cons_self)).2.1⟩

/-! ## Optional bytes -/

theorem toNat_lt_of_isNumberByte : ∀ b : UInt8, isNumberByte b → b.toNat < 0x80 := by
  decide +kernel

/-- What is taken if it comes next is one character, or nothing. -/
theorem accepts_optional {cs : List Char} {bytes rest : List UInt8} {found : Option UInt8}
    (hbytes : bytes.all isNumberByte) (hok : optional bytes (bytesOf cs) = .ok (found, rest)) :
    (found = none ∧ rest = bytesOf cs) ∨
      ∃ b ∈ bytes, found = some b ∧ ∃ after, cs = asciiChar b :: after ∧ rest = bytesOf after := by
  obtain ⟨hnone, hrest, -⟩ | ⟨b, hb, hfound, hinput⟩ := optional_eq_ok_iff.1 hok
  · exact .inl ⟨hnone, hrest⟩
  · have hascii := toNat_lt_of_isNumberByte b (List.all_eq_true.1 hbytes b hb)
    exact .inr ⟨b, hb, hfound, bytesOf_eq_cons hinput hascii⟩

/-! ## The parts of a number -/

theorem accepts_readWhole : Accepts readWhole WholeText := by
  intro cs ds rest hok
  obtain ⟨ds', middle, hdigits, hok⟩ := bind_eq_ok_iff.1 hok
  obtain ⟨text, after, rfl, htext, rfl⟩ := accepts_digits cs ds' middle hdigits
  split at hok
  · cases hok
  · next hcanonical =>
    cases hok
    refine ⟨text, after, rfl, ⟨htext, fun hzero => ?_⟩, rfl⟩
    rcases ds with _ | ⟨d, _ | ⟨e, ds⟩⟩
    · cases hzero
    · cases hzero
      rfl
    · cases hzero
      exact absurd rfl (hcanonical e ds)

theorem readWhole_append {text : List Char} {ds : List Nat} (h : WholeText text ds)
    {rest : List UInt8} (hrest : ∀ b ∈ rest.head?, isDigit b = false) :
    readWhole (bytesOf text ++ rest) = .ok (ds, rest) := by
  obtain ⟨htext, hcanonical⟩ := h
  rw [readWhole, bind_of_ok (digits_append htext hrest)]
  split
  · next e ds => cases hcanonical rfl
  · rfl

theorem accepts_readFraction : Accepts readFraction FractionText := by
  intro cs ds rest hok
  obtain ⟨found, middle, hpoint, hok⟩ := bind_eq_ok_iff.1 hok
  obtain ⟨rfl, rfl⟩ | ⟨b, hb, rfl, after, rfl, rfl⟩ := accepts_optional (by decide) hpoint
  · cases hok
    exact ⟨[], cs, rfl, .none, rfl⟩
  · obtain rfl := List.mem_singleton.1 hb
    obtain ⟨text, after, rfl, htext, hrest⟩ := accepts_digits after ds rest hok
    exact ⟨'.' :: text, after, rfl, .digits htext, hrest⟩

theorem readFraction_append {text : List Char} {ds : List Nat} (h : FractionText text ds)
    {rest : List UInt8} (hrest : ∀ b ∈ rest.head?, isDigit b = false ∧ b ≠ '.'.toUInt8) :
    readFraction (bytesOf text ++ rest) = .ok (ds, rest) := by
  cases h with
  | none =>
    have hpoint : optional ['.'.toUInt8] rest = .ok (none, rest) :=
      optional_eq_ok_iff.2 (.inl ⟨rfl, rfl, fun b hb => by simpa using (hrest b hb).2⟩)
    exact bind_of_ok hpoint
  | digits htext =>
    rw [bytesOf_cons_ascii (by decide), List.cons_append, readFraction,
      bind_of_ok (optional_eq_ok_iff.2 (.inr ⟨_, List.mem_singleton_self _, rfl, rfl⟩))]
    exact digits_append htext fun b hb => (hrest b hb).1

theorem accepts_readExponent : Accepts readExponent ExponentText := by
  intro cs exponent rest hok
  obtain ⟨found, middle, hfound, hok⟩ := bind_eq_ok_iff.1 hok
  obtain ⟨rfl, rfl⟩ | ⟨e, he, rfl, after, rfl, rfl⟩ := accepts_optional (by decide) hfound
  · cases hok
    exact ⟨[], cs, rfl, .none, rfl⟩
  obtain ⟨sign, middle, hsign, hok⟩ := bind_eq_ok_iff.1 hok
  obtain ⟨ds, last, hdigits, hpure⟩ := bind_eq_ok_iff.1 hok
  cases hpure
  have hemark : asciiChar e ∈ ['e', 'E'] := by
    simp only [List.mem_cons, List.not_mem_nil, or_false] at he
    rcases he with rfl | rfl <;> decide
  obtain ⟨rfl, rfl⟩ | ⟨b, hb, rfl, after, rfl, rfl⟩ := accepts_optional (by decide) hsign
  · obtain ⟨text, after, rfl, htext, hrest⟩ := accepts_digits after ds _ hdigits
    exact ⟨asciiChar e :: [] ++ text, after, rfl, .digits hemark (.sign .none) htext, hrest⟩
  · obtain ⟨text, after, rfl, htext, hrest⟩ := accepts_digits after ds _ hdigits
    have hmark : ExponentSignText [asciiChar b] (some b = some '-'.toUInt8) := by
      simp only [List.mem_cons, List.not_mem_nil, or_false] at hb
      rcases hb with rfl | rfl
      · exact .plus
      · exact .sign .minus
    exact ⟨asciiChar e :: [asciiChar b] ++ text, after, rfl, .digits hemark hmark htext, hrest⟩

/-- No sign is taken where a digit comes first. -/
theorem optional_of_digit {bytes tail : List UInt8} {b : UInt8} (hb : isDigit b)
    (hbytes : bytes.all fun c => !isDigit c) :
    optional bytes (b :: tail) = .ok (none, b :: tail) := by
  refine optional_eq_ok_iff.2 (.inl ⟨rfl, rfl, ?_⟩)
  rintro _ ⟨⟩ hmem
  have hnone := List.all_eq_true.1 hbytes b hmem
  rw [hb] at hnone
  cases hnone

theorem optional_sign_append {sign : List Char} {negative : Bool} (h : SignText sign negative)
    {b : UInt8} (hb : isDigit b) (tail : List UInt8) :
    ∃ found, optional ['-'.toUInt8] (bytesOf sign ++ b :: tail) = .ok (found, b :: tail) ∧
      found.isSome = negative := by
  cases h with
  | none => exact ⟨none, optional_of_digit hb (by decide), rfl⟩
  | minus => exact ⟨some '-'.toUInt8, rfl, rfl⟩

theorem optional_exponentSign_append {sign : List Char} {negative : Bool}
    (h : ExponentSignText sign negative) {b : UInt8} (hb : isDigit b) (tail : List UInt8) :
    ∃ found, optional ['+'.toUInt8, '-'.toUInt8] (bytesOf sign ++ b :: tail) =
        .ok (found, b :: tail) ∧
      decide (found = some '-'.toUInt8) = negative := by
  rcases h with (_ | _) | _
  · exact ⟨none, optional_of_digit hb (by decide), rfl⟩
  · exact ⟨some '-'.toUInt8, rfl, rfl⟩
  · exact ⟨some '+'.toUInt8, rfl, rfl⟩

theorem ascii_of_exponentMark {e : Char} (h : e ∈ ['e', 'E']) :
    e.toNat < 0x80 ∧ e.toUInt8 ∈ ['e'.toUInt8, 'E'.toUInt8] := by
  simp only [List.mem_cons, List.not_mem_nil, or_false] at h
  rcases h with rfl | rfl <;> decide

theorem readExponent_append {text : List Char} {exponent : Option (Bool × List Nat)}
    (h : ExponentText text exponent) {rest : List UInt8} (hrest : Delimited rest) :
    readExponent (bytesOf text ++ rest) = .ok (exponent, rest) := by
  cases h with
  | none => exact readExponent_of_delimited hrest
  | @digits e sign text negative ds he hsign htext =>
    obtain ⟨hascii, hmark⟩ := ascii_of_exponentMark he
    have hdigits := digits_append htext (isDigit_of_delimited hrest)
    obtain ⟨b, tail, hbytes, hb⟩ := exists_digit_cons htext
    obtain ⟨found, hfound, rfl⟩ := optional_exponentSign_append hsign hb (tail ++ rest)
    rw [List.cons_append, bytesOf_cons_ascii hascii, bytesOf_append, List.cons_append,
      List.append_assoc, readExponent,
      bind_of_ok (optional_eq_ok_iff.2 (.inr ⟨_, hmark, rfl, rfl⟩))]
    rw [hbytes, List.cons_append] at hdigits ⊢
    exact (bind_of_ok hfound).trans (bind_of_ok hdigits)

/-! ## Numbers -/

theorem head_exponentText {text : List Char} {exponent : Option (Bool × List Nat)}
    (h : ExponentText text exponent) {rest : List UInt8} (hrest : Delimited rest) :
    ∀ b ∈ (bytesOf text ++ rest).head?, isDigit b = false ∧ b ≠ '.'.toUInt8 := by
  cases h with
  | none =>
    intro b hb
    refine ⟨isDigit_of_delimited hrest b hb, ?_⟩
    rintro rfl
    exact absurd (hrest _ hb) (by decide)
  | digits he _ _ =>
    rw [List.cons_append, bytesOf_cons_ascii (ascii_of_exponentMark he).1]
    rintro b ⟨⟩
    simp only [List.mem_cons, List.not_mem_nil, or_false] at he
    rcases he with rfl | rfl <;> decide

theorem head_fractionText {text : List Char} {ds : List Nat} (h : FractionText text ds)
    {rest : List UInt8} (hrest : ∀ b ∈ rest.head?, isDigit b = false) :
    ∀ b ∈ (bytesOf text ++ rest).head?, isDigit b = false := by
  cases h with
  | none => exact hrest
  | digits _ =>
    rw [bytesOf_cons_ascii (by decide)]
    rintro b ⟨⟩
    decide

theorem accepts_read : Accepts read NumeralText := by
  intro cs t rest hok
  obtain ⟨sign, middle, hsign, hok⟩ := bind_eq_ok_iff.1 hok
  obtain ⟨whole, _, hwhole, hok⟩ := bind_eq_ok_iff.1 hok
  obtain ⟨fraction, _, hfraction, hok⟩ := bind_eq_ok_iff.1 hok
  obtain ⟨exponent, _, hexponent, hpure⟩ := bind_eq_ok_iff.1 hok
  cases hpure
  have hmark : ∃ text after, cs = text ++ after ∧ SignText text sign.isSome ∧
      middle = bytesOf after := by
    obtain ⟨rfl, rfl⟩ | ⟨b, hb, rfl, after, rfl, rfl⟩ := accepts_optional (by decide) hsign
    · exact ⟨[], cs, rfl, .none, rfl⟩
    · obtain rfl := List.mem_singleton.1 hb
      exact ⟨['-'], after, rfl, .minus, rfl⟩
  obtain ⟨signText, after, rfl, hsignText, rfl⟩ := hmark
  obtain ⟨wholeText, after, rfl, hwholeText, rfl⟩ := accepts_readWhole _ _ _ hwhole
  obtain ⟨fractionText, after, rfl, hfractionText, rfl⟩ := accepts_readFraction _ _ _ hfraction
  obtain ⟨exponentText, after, rfl, hexponentText, hrest⟩ := accepts_readExponent _ _ _ hexponent
  refine ⟨_, after, ?_, .parts hsignText hwholeText hfractionText hexponentText, hrest⟩
  simp only [List.append_assoc]

theorem read_returns {text : List Char} {t : Numeral} (h : NumeralText text t) :
    Returns read (bytesOf text) (.ok t) := by
  intro rest hrest
  obtain ⟨hsign, hwhole, hfraction, hexponent⟩ := h
  have hafterFraction := head_exponentText hexponent hrest
  have hafterWhole := head_fractionText hfraction fun b hb => (hafterFraction b hb).1
  have hreadWhole := readWhole_append hwhole hafterWhole
  obtain ⟨b, tail, hbytes, hb⟩ := exists_digit_cons hwhole.1
  simp only [bytesOf_append, List.append_assoc]
  rw [hbytes, List.cons_append] at hreadWhole ⊢
  obtain ⟨found, hfound, rfl⟩ := optional_sign_append hsign hb _
  rw [read, bind_of_ok hfound, bind_of_ok hreadWhole,
    bind_of_ok (readFraction_append hfraction hafterFraction),
    bind_of_ok (readExponent_append hexponent hrest)]
  rfl

end Numeral

theorem accepts_readNumber :
    Accepts readNumber fun text v => ∃ t, NumeralText text t ∧ t.value? = some v := by
  intro cs v rest hok
  obtain ⟨t, _, hread, hok⟩ := bind_eq_ok_iff.1 hok
  obtain ⟨text, after, rfl, htext, rfl⟩ := Numeral.accepts_read _ _ _ hread
  cases hvalue : t.value? with
  | none =>
    rw [hvalue] at hok
    cases hok
  | some v' =>
    rw [hvalue] at hok
    cases hok
    exact ⟨text, after, rfl, ⟨t, htext, hvalue⟩, rfl⟩

theorem readNumber_returns {text : List Char} {t : Numeral} {v : NumberValue}
    (h : NumeralText text t) (hvalue : t.value? = some v) :
    Returns readNumber (bytesOf text) (.ok v) := by
  intro rest hrest
  rw [readNumber, bind_of_ok (Numeral.read_returns h rest hrest), hvalue]
  rfl

end RecordFilter.Json
