import Mathlib
import RecordFilter.Proofs.Json.Pieces
import RecordFilter.Json.Encode

/-!
# Numbers that were written are read back

A number has no closing byte; it ends where the text does or where a byte follows that cannot
carry it on.  `StopsAt` says of a reader that adding such a byte, and more, changes nothing.

`ReadsBack` is what is asked of the text of a float.  The text has a point or an exponent,
while a whole number is made of digits and a sign only (`read_append_of_isWhole`), so a float
is read back as a float.
-/

namespace RecordFilter.Json.Reader

/-! ## Readers that stop by themselves -/

variable {α β : Type}

/-- Readers that go no further when a delimited text is added at the end. -/
def StopsAt (r : Reader α) : Prop :=
  ∀ input a middle rest, Delimited rest → r input = .ok (a, middle) →
    r (input ++ rest) = .ok (a, middle ++ rest)

theorem StopsAt.bind {r : Reader α} {f : α → Reader β} (hr : StopsAt r) (hf : ∀ a, StopsAt (f a)) :
    StopsAt (r >>= f) := by
  intro input b after rest hrest hok
  obtain ⟨a, middle, ha, hb⟩ := bind_eq_ok_iff.1 hok
  rw [bind_of_ok (hr input a middle rest hrest ha)]
  exact hf a middle b after rest hrest hb

theorem stopsAt_pure (a : α) : StopsAt (pure a : Reader α) := by
  intro input b middle rest _ hok
  cases hok
  rfl

theorem stopsAt_throw (fault : Fault) : StopsAt (throw fault : Reader α) := by
  intro input b middle rest _ hok
  cases hok

end RecordFilter.Json.Reader

namespace RecordFilter.Json.Numeral

open Reader Text

/-! ## What follows a number -/

theorem isDigit_of_delimited {rest : List UInt8} (h : Delimited rest) :
    ∀ b ∈ rest.head?, isDigit b = false := by
  intro b hb
  have hnumber := h b hb
  rw [isNumberByte, Bool.or_eq_false_iff] at hnumber
  exact hnumber.1

section Digits

variable {rest : List UInt8} (hrest : ∀ b ∈ rest.head?, isDigit b = false)
include hrest

theorem takeWhile_isDigit_append (input : List UInt8) :
    (input ++ rest).takeWhile isDigit = input.takeWhile isDigit := by
  rw [List.takeWhile_append]
  split
  · next hall =>
    have hinput : input.takeWhile isDigit = input :=
      (List.takeWhile_prefix isDigit).eq_of_length hall
    have hnone : rest.takeWhile isDigit = [] := by
      cases rest with
      | nil => rfl
      | cons b rest =>
        have hb := hrest b rfl
        rw [List.takeWhile_cons_of_neg (by simp [hb])]
    rw [hinput, hnone, List.append_nil]
  · rfl

theorem dropWhile_isDigit_append (input : List UInt8) :
    (input ++ rest).dropWhile isDigit = input.dropWhile isDigit ++ rest := by
  have hinput := List.takeWhile_append_dropWhile (p := isDigit) (l := input)
  have hboth := List.takeWhile_append_dropWhile (p := isDigit) (l := input ++ rest)
  rw [takeWhile_isDigit_append hrest] at hboth
  conv at hboth => rhs; rw [← hinput, List.append_assoc]
  exact List.append_cancel_left hboth

/-- Digits are read up to a byte that is none. -/
theorem digits_append_bytes {piece : List UInt8} (hne : piece ≠ []) (hall : ∀ b ∈ piece, isDigit b) :
    digits (piece ++ rest) = .ok (piece.map digitValue, rest) := by
  have htake : (piece ++ rest).takeWhile isDigit = piece := by
    rw [takeWhile_isDigit_append hrest, List.takeWhile_eq_self_iff.2 hall]
  have hdrop : (piece ++ rest).dropWhile isDigit = rest := by
    rw [dropWhile_isDigit_append hrest, List.dropWhile_eq_nil_iff.2 hall, List.nil_append]
  obtain ⟨b, piece, rfl⟩ := List.exists_cons_of_ne_nil hne
  rw [List.cons_append] at htake hdrop ⊢
  rw [digits, if_pos (hall b List.mem_cons_self), htake, hdrop]

end Digits

theorem stopsAt_digits : StopsAt digits := by
  intro input ds middle rest hrest hok
  cases input with
  | nil => cases hok
  | cons b input =>
    rw [digits] at hok
    split at hok
    · next hb =>
      cases hok
      have hdigit := isDigit_of_delimited hrest
      rw [List.cons_append, digits, if_pos hb, ← List.cons_append, takeWhile_isDigit_append hdigit,
        dropWhile_isDigit_append hdigit]
    · cases hok

theorem stopsAt_optional {bytes : List UInt8} (hbytes : bytes.all isNumberByte) :
    StopsAt (optional bytes) := by
  intro input found middle rest hrest hok
  cases input with
  | nil =>
    cases hok
    cases rest with
    | nil => rfl
    | cons b rest =>
      have hb : b ∉ bytes := by
        intro hmem
        have htrue := List.all_eq_true.1 hbytes b hmem
        rw [hrest b rfl] at htrue
        cases htrue
      show optional bytes (b :: rest) = _
      rw [optional, if_neg hb]
      rfl
  | cons b input =>
    rw [List.cons_append, optional]
    rw [optional] at hok
    split at hok
    · next hb =>
      cases hok
      rw [if_pos hb]
    · next hb =>
      cases hok
      rw [if_neg hb]
      rfl

theorem optional_of_delimited {bytes rest : List UInt8} (hbytes : bytes.all isNumberByte)
    (hrest : Delimited rest) : optional bytes rest = .ok (none, rest) :=
  stopsAt_optional hbytes [] none [] rest hrest rfl

theorem readExponent_of_delimited {rest : List UInt8} (hrest : Delimited rest) :
    readExponent rest = .ok (none, rest) :=
  bind_of_ok (optional_of_delimited (by decide) hrest)

theorem stopsAt_readWhole : StopsAt readWhole := by
  refine stopsAt_digits.bind fun ds => ?_
  split
  · exact stopsAt_throw _
  · exact stopsAt_pure _

theorem stopsAt_readFraction : StopsAt readFraction := by
  refine (stopsAt_optional (by decide)).bind fun point => ?_
  split
  · exact stopsAt_pure _
  · exact stopsAt_digits

theorem stopsAt_readExponent : StopsAt readExponent := by
  refine (stopsAt_optional (by decide)).bind fun e => ?_
  split
  · exact stopsAt_pure _
  · exact (stopsAt_optional (by decide)).bind fun sign =>
      stopsAt_digits.bind fun ds => stopsAt_pure _

theorem stopsAt_read : StopsAt read :=
  (stopsAt_optional (by decide)).bind fun _ => stopsAt_readWhole.bind fun _ =>
    stopsAt_readFraction.bind fun _ => stopsAt_readExponent.bind fun _ => stopsAt_pure _

theorem stopsAt_readNumber : StopsAt readNumber := by
  refine stopsAt_read.bind fun t => ?_
  split
  · exact stopsAt_pure _
  · exact stopsAt_throw _

/-! ## Tokens with neither fraction nor exponent -/

theorem digits_append_of_ok {input rest : List UInt8} {ds : List Nat}
    (h : digits input = .ok (ds, rest)) :
    ∃ used, input = used ++ rest ∧ ds = used.map digitValue ∧ used ≠ [] ∧
      ∀ b ∈ used, isDigit b := by
  cases input with
  | nil => cases h
  | cons b input =>
    rw [digits] at h
    split at h
    · next hb =>
      cases h
      refine ⟨(b :: input).takeWhile isDigit, List.takeWhile_append_dropWhile.symm, rfl, ?_, ?_⟩
      · rw [List.takeWhile_cons_of_pos hb]
        exact List.cons_ne_nil _ _
      · intro c hc
        exact List.mem_takeWhile_imp hc
    · cases h

theorem optional_eq_ok_iff {bytes input rest : List UInt8} {found : Option UInt8} :
    optional bytes input = .ok (found, rest) ↔
      (found = none ∧ rest = input ∧ ∀ b ∈ input.head?, b ∉ bytes) ∨
      ∃ b ∈ bytes, found = some b ∧ input = b :: rest := by
  cases input with
  | nil => simp [optional, eq_comm]
  | cons c tail =>
    by_cases hc : c ∈ bytes
    · simp only [optional, hc, if_true, Except.ok.injEq, Prod.mk.injEq, List.head?_cons]
      grind
    · simp only [optional, hc, if_false, Except.ok.injEq, Prod.mk.injEq, List.head?_cons]
      grind

theorem optional_eq_none {bytes input rest : List UInt8}
    (h : optional bytes input = .ok (none, rest)) : rest = input := by
  obtain ⟨-, hrest, -⟩ | ⟨b, -, ⟨⟩, -⟩ := optional_eq_ok_iff.1 h
  exact hrest

theorem optional_append_of_ok {bytes input rest : List UInt8} {found : Option UInt8}
    (h : optional bytes input = .ok (found, rest)) :
    ∃ used, input = used ++ rest ∧ ∀ b ∈ used, b ∈ bytes := by
  obtain ⟨-, rfl, -⟩ | ⟨b, hb, -, rfl⟩ := optional_eq_ok_iff.1 h
  · exact ⟨[], rfl, by simp⟩
  · exact ⟨[b], rfl, by simpa using hb⟩

theorem readFraction_eq_nil {input rest : List UInt8} (h : readFraction input = .ok ([], rest)) :
    rest = input := by
  obtain ⟨point, middle, hpoint, hdigits⟩ := bind_eq_ok_iff.1 h
  cases point with
  | none =>
    cases hdigits
    exact optional_eq_none hpoint
  | some b =>
    obtain ⟨used, -, hds, hne, -⟩ := digits_append_of_ok hdigits
    exact absurd (List.map_eq_nil_iff.1 hds.symm) hne

theorem readExponent_eq_none {input rest : List UInt8} (h : readExponent input = .ok (none, rest)) :
    rest = input := by
  obtain ⟨e, middle, he, hdigits⟩ := bind_eq_ok_iff.1 h
  cases e with
  | none =>
    cases hdigits
    exact optional_eq_none he
  | some b =>
    obtain ⟨sign, _, -, hdigits⟩ := bind_eq_ok_iff.1 hdigits
    obtain ⟨ds, _, -, hpure⟩ := bind_eq_ok_iff.1 hdigits
    cases hpure

theorem readWhole_append_of_ok {input rest : List UInt8} {ds : List Nat}
    (h : readWhole input = .ok (ds, rest)) :
    ∃ used, input = used ++ rest ∧ ∀ b ∈ used, isDigit b := by
  obtain ⟨ds', middle, hdigits, hds⟩ := bind_eq_ok_iff.1 h
  obtain ⟨used, hinput, -, -, hused⟩ := digits_append_of_ok hdigits
  split at hds
  · cases hds
  · cases hds
    exact ⟨used, hinput, hused⟩

/-- A token that is read as whole is made of digits and a sign only. -/
theorem read_append_of_isWhole {input rest : List UInt8} {t : Numeral}
    (h : read input = .ok (t, rest)) (hwhole : t.isWhole) :
    ∃ used, input = used ++ rest ∧ ∀ b ∈ used, b = '-'.toUInt8 ∨ isDigit b := by
  obtain ⟨sign, afterSign, hsign, h⟩ := bind_eq_ok_iff.1 h
  obtain ⟨whole, afterWhole, hds, h⟩ := bind_eq_ok_iff.1 h
  obtain ⟨fraction, afterFraction, hfraction, h⟩ := bind_eq_ok_iff.1 h
  obtain ⟨exponent, afterExponent, hexponent, h⟩ := bind_eq_ok_iff.1 h
  cases h
  simp only [isWhole, Bool.and_eq_true, List.isEmpty_iff, Option.isNone_iff_eq_none] at hwhole
  obtain ⟨rfl, rfl⟩ := hwhole
  have hrest : rest = afterWhole :=
    (readExponent_eq_none hexponent).trans (readFraction_eq_nil hfraction)
  obtain ⟨signUsed, hinput, hsignUsed⟩ := optional_append_of_ok hsign
  obtain ⟨wholeUsed, hafter, hwholeUsed⟩ := readWhole_append_of_ok hds
  refine ⟨signUsed ++ wholeUsed, ?_, ?_⟩
  · rw [hinput, hafter, hrest, List.append_assoc]
  · intro b hb
    rcases List.mem_append.1 hb with hb | hb
    · exact .inl (List.mem_singleton.1 (hsignUsed b hb))
    · exact .inr (hwholeUsed b hb)

end RecordFilter.Json.Numeral

namespace RecordFilter.Json

open Number Reader Text

/-! ## Floats -/

/-- The double that a number denotes. -/
def NumberValue.toFloat : NumberValue → Binary64
  | .integer n => .ofInt n
  | .float x => x

/-- Whether the text of a double is read back as that double. -/
def ReadsBack (x : Binary64) : Prop :=
  ∃ v, readNumber (bytesOf (Layout.json.text x)) = .ok (v, []) ∧ v.toFloat = x

theorem mem_positional (ds : List Char) (position : Int) :
    '.' ∈ Layout.positional true ds position := by
  unfold Layout.positional
  split
  · simp
  split
  · simp
  · simp

theorem mem_scientific (ds : List Char) (exponent : Int) : 'e' ∈ Layout.scientific ds exponent := by
  unfold Layout.scientific
  simp

theorem mem_magnitudeText {layout : Layout} (h : layout.pointZero) (k : Nat) :
    '.' ∈ layout.magnitudeText k ∨ 'e' ∈ layout.magnitudeText k := by
  unfold Layout.magnitudeText
  by_cases hk : k = 0
  · rw [if_pos hk, if_pos h]
    exact .inl (by decide)
  · rw [if_neg hk, h]
    cases layout.plain with
    | none => exact .inl (mem_positional _ _)
    | some bounds =>
      dsimp only
      split
      · exact .inl (mem_positional _ _)
      · exact .inr (mem_scientific _ _)

theorem mem_text {x : Binary64} (h : x.isFinite) :
    '.' ∈ Layout.json.text x ∨ 'e' ∈ Layout.json.text x := by
  have hnan : ¬ x.isNaN := by
    intro hnan
    rw [Binary64.isFinite_eq_false_of_isNaN hnan] at h
    cases h
  rw [Layout.text, if_neg hnan, if_pos h]
  split
  · simpa using @mem_magnitudeText .json rfl x.magnitude.toNat
  · exact mem_magnitudeText rfl x.magnitude.toNat

theorem mem_bytesOf {c : Char} {cs : List Char} (hc : c ∈ cs) {b : UInt8}
    (hb : b ∈ String.utf8EncodeChar c) : b ∈ bytesOf cs :=
  List.mem_flatMap.2 ⟨c, hc, hb⟩

/-- The text of a double has a point or an exponent, so that no whole number is read from
it. -/
theorem readNumber_text_eq_float {x : Binary64} (h : x.isFinite) {v : NumberValue}
    (hread : readNumber (bytesOf (Layout.json.text x)) = .ok (v, [])) : v = .float v.toFloat := by
  obtain ⟨t, rest, ht, hv⟩ := bind_eq_ok_iff.1 hread
  cases hvalue : t.value? with
  | none =>
    rw [hvalue] at hv
    cases hv
  | some v' =>
    rw [hvalue] at hv
    cases hv
    by_cases hinteger : t.isInteger
    · have hwhole : t.isWhole := by
        simp only [Numeral.isInteger, Bool.and_eq_true] at hinteger
        exact hinteger.1.1.1
      obtain ⟨used, hused, hbytes⟩ := Numeral.read_append_of_isWhole ht hwhole
      rw [List.append_nil] at hused
      rcases mem_text h with hmem | hmem
      · have hpoint := hbytes '.'.toUInt8 (hused ▸ mem_bytesOf hmem (by decide))
        exact absurd hpoint (by decide)
      · have hexp := hbytes 'e'.toUInt8 (hused ▸ mem_bytesOf hmem (by decide))
        exact absurd hexp (by decide)
    · rw [Numeral.value?, if_neg hinteger, Option.map_eq_some_iff] at hvalue
      obtain ⟨k, -, rfl⟩ := hvalue
      rfl

theorem ReadsBack.returns {x : Binary64} (h : ReadsBack x) (hx : x.isFinite) :
    Returns readNumber (bytesOf (Layout.json.text x)) (.ok (.float x)) := by
  intro rest hrest
  obtain ⟨v, hread, hv⟩ := h
  have hfloat := readNumber_text_eq_float hx hread
  rw [hv] at hfloat
  rw [Numeral.stopsAt_readNumber _ v [] rest hrest hread, hfloat]
  rfl

/-! ## First bytes -/

/-- A number begins with a digit or a minus sign. -/
theorem read_head {input rest : List UInt8} {t : Numeral}
    (h : Numeral.read input = .ok (t, rest)) :
    ∃ b tail, input = b :: tail ∧ (b = '-'.toUInt8 ∨ Numeral.isDigit b) := by
  obtain ⟨sign, middle, hsign, ht⟩ := bind_eq_ok_iff.1 h
  obtain ⟨whole, after, hwhole, -⟩ := bind_eq_ok_iff.1 ht
  obtain ⟨ds, after, hdigits, -⟩ := bind_eq_ok_iff.1 hwhole
  obtain ⟨used, hmiddle, -, hne, hused⟩ := Numeral.digits_append_of_ok hdigits
  obtain ⟨signUsed, hinput, hsignUsed⟩ := Numeral.optional_append_of_ok hsign
  cases signUsed with
  | nil =>
    obtain ⟨b, tail, rfl⟩ := List.exists_cons_of_ne_nil hne
    refine ⟨b, tail ++ after, ?_, .inr (hused b List.mem_cons_self)⟩
    rw [hinput, hmiddle]
    rfl
  | cons b signUsed =>
    refine ⟨b, signUsed ++ middle, hinput, .inl ?_⟩
    exact List.mem_singleton.1 (hsignUsed b List.mem_cons_self)

theorem isSpace_and_ofByte_of_number : ∀ b : UInt8, b = '-'.toUInt8 ∨ Numeral.isDigit b →
    isSpace b = false ∧ Lead.ofByte b = .number := by
  decide +kernel

theorem leads_of_read {piece rest : List UInt8} {t : Numeral}
    (h : Numeral.read piece = .ok (t, rest)) : Leads .number piece := by
  obtain ⟨b, tail, hpiece, hb⟩ := read_head h
  obtain ⟨hspace, hkind⟩ := isSpace_and_ofByte_of_number b hb
  exact ⟨b, tail, hpiece, hspace, hkind⟩

theorem leads_of_returns_readNumber {piece : List UInt8} {v : NumberValue}
    (h : Returns readNumber piece (.ok v)) : Leads .number piece := by
  have hread := h [] delimited_nil
  rw [List.append_nil] at hread
  obtain ⟨t, _, ht, -⟩ := bind_eq_ok_iff.1 hread
  exact leads_of_read ht

/-! ## Bytes that a number takes -/

theorem takes_digits : Takes 1 Numeral.digits := by
  intro input ds rest hok
  obtain ⟨used, hinput, -, hne, -⟩ := Numeral.digits_append_of_ok hok
  have hpos := List.length_pos_of_ne_nil hne
  rw [hinput, List.length_append]
  omega

theorem takes_optional (bytes : List UInt8) : Takes 0 (Numeral.optional bytes) := by
  intro input found rest hok
  obtain ⟨used, hinput, -⟩ := Numeral.optional_append_of_ok hok
  rw [hinput, List.length_append]
  omega

theorem takes_readNumber : Takes 1 readNumber := by
  have hdigits := takes_digits.mono (Nat.zero_le 1)
  refine Takes.bind_left ?_ fun t => ?_
  · refine (takes_optional _).bind_right fun sign => Takes.bind_left ?_ fun whole =>
      Takes.bind_left ?_ fun fraction => Takes.bind_left ?_ fun exponent => takes_pure _
    · refine takes_digits.bind_left fun ds => ?_
      split
      · exact takes_throw 0 _
      · exact takes_pure _
    · refine (takes_optional _).bind_left fun point => ?_
      split
      · exact takes_pure _
      · exact hdigits
    · refine (takes_optional _).bind_left fun e => ?_
      split
      · exact takes_pure _
      · exact (takes_optional _).bind_left fun sign => hdigits.bind_left fun ds => takes_pure _
  · split
    · exact takes_pure _
    · exact takes_throw 0 _

end RecordFilter.Json
