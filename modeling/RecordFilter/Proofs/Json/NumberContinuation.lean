import Mathlib
import RecordFilter.Proofs.IntegerOperand
import RecordFilter.Proofs.Json.Continuation
import RecordFilter.Proofs.Json.Magnitude
import RecordFilter.Proofs.Json.Number

/-!
# Numbers at the end of a text

A number has no closing byte, so a reader that comes to the end of the text inside a number
cannot tell that it is cut.  `Settles` says how much can be told: the reader asks for more,
or it takes all there is, or more text makes no difference.

The value of the part of a number is not part of its value.  It can even be too large where
the number is not, because a fraction or an exponent is missing that makes it smaller.  But
this takes a token of more than three hundred bytes (`lt_length_of_tooLargeWhereCut`).  The
only exponents that make a number larger are positive ones, and they grow with each digit.
-/

namespace RecordFilter.Json.Reader

variable {α β : Type}

/-! ## Readers that settle -/

/-- A reader that asks for more, takes all there is, or is not changed by what is added. -/
def Settles (r : Reader α) : Prop :=
  ∀ kept dropped, r kept = .error .endOfText ∨ (∃ a, r kept = .ok (a, [])) ∨
    r (kept ++ dropped) = (r kept).map fun out => (out.1, out.2 ++ dropped)

theorem settles_pure (a : α) : Settles (pure a : Reader α) :=
  fun _ _ => .inr (.inr rfl)

/-- Two readers one after the other, if the second one asks for more or is content where it
finds nothing. -/
theorem Settles.bind {r : Reader α} {f : α → Reader β} (hr : Settles r) (hf : ∀ a, Settles (f a))
    (hnil : ∀ a, f a [] = .error .endOfText ∨ ∃ b, f a [] = .ok (b, [])) :
    Settles (r >>= f) := by
  intro kept dropped
  rcases hr kept dropped with h | ⟨a, h⟩ | hwhole
  · exact .inl (bind_of_error h)
  · rw [bind_of_ok h]
    exact (hnil a).imp_right .inl
  · cases h : r kept with
    | error fault =>
      rw [h] at hwhole
      rw [bind_of_error h, bind_of_error hwhole]
      exact .inr (.inr rfl)
    | ok out =>
      obtain ⟨a, left⟩ := out
      rw [h] at hwhole
      rw [bind_of_ok h, bind_of_ok hwhole]
      exact hf a left dropped

/-- A reader that has left something goes no further in a longer text. -/
theorem Settles.append_of_ne_nil {r : Reader α} (hr : Settles r) {kept left : List UInt8} {a : α}
    (h : r kept = .ok (a, left)) (hne : left ≠ []) (dropped : List UInt8) :
    r (kept ++ dropped) = .ok (a, left ++ dropped) := by
  rcases hr kept dropped with hstarved | ⟨b, hall⟩ | hwhole
  · rw [h] at hstarved
    cases hstarved
  · rw [h] at hall
    cases hall
    exact absurd rfl hne
  · rw [hwhole, h]
    rfl

end RecordFilter.Json.Reader

namespace RecordFilter.Json.Numeral

open Number Reader

/-! ## The parts of a token -/

theorem settles_optional (bytes : List UInt8) : Settles (optional bytes) := by
  intro kept dropped
  cases kept with
  | nil => exact .inr (.inl ⟨none, rfl⟩)
  | cons b tail =>
    refine .inr (.inr ?_)
    rw [List.cons_append, optional, optional]
    split <;> rfl

/-- Digits that end where a text does go on with the digits behind it. -/
theorem digits_append_dropped {kept : List UInt8} {ds : List Nat}
    (h : digits kept = .ok (ds, [])) (dropped : List UInt8) :
    digits (kept ++ dropped) =
      .ok (ds ++ (dropped.takeWhile isDigit).map digitValue, dropped.dropWhile isDigit) := by
  obtain ⟨used, hkept, rfl, hne, hused⟩ := digits_append_of_ok h
  rw [List.append_nil] at hkept
  subst hkept
  obtain ⟨b, tail, rfl⟩ := List.exists_cons_of_ne_nil hne
  have hb : isDigit b := hused b List.mem_cons_self
  rw [List.cons_append, digits, if_pos hb, ← List.cons_append,
    List.takeWhile_append_of_pos hused, List.dropWhile_append_of_pos hused, List.map_append]

/-- Digits end before a byte that is none. -/
theorem isDigit_of_digits {input rest : List UInt8} {ds : List Nat}
    (h : digits input = .ok (ds, rest)) : ∀ b ∈ rest.head?, isDigit b = false := by
  cases input with
  | nil => cases h
  | cons c tail =>
    rw [digits] at h
    split at h
    · cases h
      intro b hb
      have hhead := List.head?_dropWhile_not isDigit (c :: tail)
      rw [hb] at hhead
      exact hhead
    · cases h

theorem settles_digits : Settles digits := by
  intro kept dropped
  cases h : digits kept with
  | error fault =>
    cases kept with
    | nil => exact .inl h.symm
    | cons b tail =>
      rw [digits] at h
      split at h
      · cases h
      · next hb =>
        cases h
        refine .inr (.inr ?_)
        rw [List.cons_append, digits, if_neg hb]
        rfl
  | ok out =>
    obtain ⟨ds, left⟩ := out
    cases left with
    | nil => exact .inr (.inl ⟨ds, rfl⟩)
    | cons c left =>
      have hstop : ∀ b ∈ (c :: left ++ dropped).head?, isDigit b = false := by
        intro b hb
        exact isDigit_of_digits h b hb
      obtain ⟨used, rfl, rfl, hne, hused⟩ := digits_append_of_ok h
      refine .inr (.inr ?_)
      rw [List.append_assoc, digits_append_bytes hstop hne hused]
      rfl

/-- A zero in front of other digits is a fault whatever stands behind them. -/
theorem settles_readWhole : Settles readWhole := by
  intro kept dropped
  rcases settles_digits kept dropped with h | ⟨ds, h⟩ | hwhole
  · exact .inl (bind_of_error h)
  · have hlonger := digits_append_dropped h dropped
    rw [readWhole, bind_of_ok h, bind_of_ok hlonger]
    split
    · exact .inr (.inr rfl)
    · exact .inr (.inl ⟨ds, rfl⟩)
  · cases h : digits kept with
    | error fault =>
      rw [h] at hwhole
      rw [readWhole, bind_of_error h, bind_of_error hwhole]
      exact .inr (.inr rfl)
    | ok out =>
      obtain ⟨ds, left⟩ := out
      rw [h] at hwhole
      rw [readWhole, bind_of_ok h, bind_of_ok hwhole]
      split <;> exact .inr (.inr rfl)

theorem settles_readFraction : Settles readFraction := by
  refine (settles_optional _).bind (fun point => ?_) fun point => ?_
  · split
    · exact settles_pure _
    · exact settles_digits
  · cases point with
    | none => exact .inr ⟨[], rfl⟩
    | some b => exact .inl rfl

theorem settles_readExponent : Settles readExponent := by
  refine (settles_optional _).bind (fun e => ?_) fun e => ?_
  · split
    · exact settles_pure _
    · refine (settles_optional _).bind (fun sign => ?_) fun sign => .inl rfl
      exact settles_digits.bind (fun ds => settles_pure _) fun ds => .inr ⟨_, rfl⟩
  · cases e with
    | none => exact .inr ⟨none, rfl⟩
    | some b => exact .inl rfl

theorem settles_read : Settles read := by
  refine (settles_optional _).bind (fun sign => ?_) fun sign => .inl rfl
  refine settles_readWhole.bind (fun whole => ?_) fun whole => .inr ⟨_, rfl⟩
  refine settles_readFraction.bind (fun fraction => ?_) fun fraction => .inr ⟨_, rfl⟩
  exact settles_readExponent.bind (fun exponent => settles_pure _) fun exponent => .inr ⟨_, rfl⟩

/-! ## The bytes of a token -/

/-- A reader that takes number bytes only. -/
def TakesNumberBytes {α : Type} (r : Reader α) : Prop :=
  ∀ input a rest, r input = .ok (a, rest) →
    ∃ used, input = used ++ rest ∧ ∀ b ∈ used, isNumberByte b

theorem takesNumberBytes_pure {α : Type} (a : α) : TakesNumberBytes (pure a : Reader α) := by
  intro input b rest hok
  cases hok
  exact ⟨[], rfl, List.forall_mem_nil _⟩

theorem TakesNumberBytes.bind {α β : Type} {r : Reader α} {f : α → Reader β}
    (hr : TakesNumberBytes r) (hf : ∀ a, TakesNumberBytes (f a)) :
    TakesNumberBytes (r >>= f) := by
  intro input b rest hok
  obtain ⟨a, middle, ha, hb⟩ := bind_eq_ok_iff.1 hok
  obtain ⟨used, rfl, hused⟩ := hr input a middle ha
  obtain ⟨used', rfl, hused'⟩ := hf a middle b rest hb
  exact ⟨used ++ used', (List.append_assoc _ _ _).symm,
    fun c hc => (List.mem_append.1 hc).elim (hused c) (hused' c)⟩

theorem takesNumberBytes_optional {bytes : List UInt8} (hbytes : bytes.all isNumberByte) :
    TakesNumberBytes (optional bytes) := by
  intro input found rest hok
  obtain ⟨used, hinput, hused⟩ := optional_append_of_ok hok
  exact ⟨used, hinput, fun b hb => List.all_eq_true.1 hbytes b (hused b hb)⟩

theorem takesNumberBytes_digits : TakesNumberBytes digits := by
  intro input ds rest hok
  obtain ⟨used, hinput, -, -, hused⟩ := digits_append_of_ok hok
  exact ⟨used, hinput, fun b hb => by rw [isNumberByte, hused b hb, Bool.true_or]⟩

theorem takesNumberBytes_readFraction : TakesNumberBytes readFraction := by
  refine (takesNumberBytes_optional (by decide)).bind fun point => ?_
  split
  · exact takesNumberBytes_pure _
  · exact takesNumberBytes_digits

theorem takesNumberBytes_readExponent : TakesNumberBytes readExponent := by
  refine (takesNumberBytes_optional (by decide)).bind fun e => ?_
  split
  · exact takesNumberBytes_pure _
  · refine (takesNumberBytes_optional (by decide)).bind fun sign => ?_
    exact takesNumberBytes_digits.bind fun ds => takesNumberBytes_pure _

theorem digitValue_lt_ten : ∀ b : UInt8, isDigit b → digitValue b < 10 := by
  decide +kernel

theorem readWhole_eq_ok {input rest : List UInt8} {ds : List Nat}
    (h : readWhole input = .ok (ds, rest)) : digits input = .ok (ds, rest) := by
  obtain ⟨ds', middle, hdigits, hds⟩ := bind_eq_ok_iff.1 h
  split at hds
  · cases hds
  · cases hds
    exact hdigits

/-- The bytes that a token is made of.  Its digits before the point are some of them. -/
theorem read_append_of_ok {input rest : List UInt8} {t : Numeral}
    (h : read input = .ok (t, rest)) :
    ∃ used, input = used ++ rest ∧ used ≠ [] ∧ (∀ b ∈ used, isNumberByte b) ∧
      t.whole.length ≤ used.length ∧ ∀ d ∈ t.whole, d < 10 := by
  obtain ⟨sign, afterSign, hsign, h⟩ := bind_eq_ok_iff.1 h
  obtain ⟨whole, afterWhole, hds, h⟩ := bind_eq_ok_iff.1 h
  obtain ⟨signUsed, rfl, hsignUsed⟩ := takesNumberBytes_optional (by decide) _ _ _ hsign
  have hdigits := readWhole_eq_ok hds
  obtain ⟨digitBytes, rfl, rfl, hne, hall⟩ := digits_append_of_ok hdigits
  have hremaining : TakesNumberBytes (do
      let fraction ← readFraction
      let exponent ← readExponent
      pure (⟨sign.isSome, digitBytes.map digitValue, fraction, exponent⟩ : Numeral)) :=
    takesNumberBytes_readFraction.bind fun _ =>
      takesNumberBytes_readExponent.bind fun _ => takesNumberBytes_pure _
  obtain ⟨used, rfl, hused⟩ := hremaining _ _ _ h
  obtain ⟨fraction, afterFraction, -, h⟩ := bind_eq_ok_iff.1 h
  obtain ⟨exponent, afterExponent, -, hpure⟩ := bind_eq_ok_iff.1 h
  cases hpure
  refine ⟨signUsed ++ (digitBytes ++ used), by simp, by simp [hne], ?_, ?_, ?_⟩
  · intro b hb
    rcases List.mem_append.1 hb with hb | hb
    · exact hsignUsed b hb
    rcases List.mem_append.1 hb with hb | hb
    · rw [isNumberByte, hall b hb, Bool.true_or]
    · exact hused b hb
  · show (digitBytes.map digitValue).length ≤ _
    rw [List.length_map, List.length_append, List.length_append]
    omega
  · intro d hd
    obtain ⟨b, hb, rfl⟩ := List.mem_map.1 hd
    exact digitValue_lt_ten b (hall b hb)

end RecordFilter.Json.Numeral

namespace RecordFilter.Json

open Number Reader

/-! ## Numbers on the front of a text -/

section ReadNumber

variable {input rest : List UInt8} {t : Numeral} {v : NumberValue}

theorem readNumber_of_some (hread : Numeral.read input = .ok (t, rest))
    (hvalue : t.value? = some v) : readNumber input = .ok (v, rest) := by
  rw [readNumber, bind_of_ok hread, hvalue]
  rfl

theorem readNumber_of_none (hread : Numeral.read input = .ok (t, rest))
    (hvalue : t.value? = none) : readNumber input = .error .malformed := by
  rw [readNumber, bind_of_ok hread, hvalue]
  rfl

theorem exists_read_of_readNumber (h : readNumber input = .ok (v, rest)) :
    ∃ t, Numeral.read input = .ok (t, rest) ∧ t.value? = some v := by
  obtain ⟨t, middle, hread, hok⟩ := bind_eq_ok_iff.1 h
  cases hvalue : t.value? with
  | none =>
    rw [hvalue] at hok
    cases hok
  | some w =>
    rw [hvalue] at hok
    cases hok
    exact ⟨t, hread, hvalue⟩

end ReadNumber

theorem run_between_of_isNumberByte {used : List UInt8} (h : ∀ b ∈ used, isNumberByte b) :
    Place.between.run used = .between :=
  Place.run_between fun b hb => ne_quote_of_isNumberByte b (h b hb)

/-- A number on the front of a text is the number in the whole text, unless the front ends in
it. -/
theorem continues_readNumber :
    Continues .between (fun _ => .between) (fun _ => True) readNumber := by
  intro kept dropped
  rcases Numeral.settles_read kept dropped with hread | ⟨t, hread⟩ | hwhole
  · exact .starved (bind_of_error hread)
  · obtain ⟨used, hkept, hne, hused, -, -⟩ := Numeral.read_append_of_ok hread
    rw [List.append_nil] at hkept
    subst hkept
    have hcut : EndsInNumber .between kept kept := ⟨hne, hused, [], rfl, rfl⟩
    cases hvalue : t.value? with
    | some v => exact .early hcut (readNumber_of_some hread hvalue) trivial
    | none =>
      have hfault := readNumber_of_none hread hvalue
      exact .broken hcut hfault fun v rest hok => ⟨hfault, v, rest, hok⟩
  · cases hread : Numeral.read kept with
    | error fault =>
      rw [hread] at hwhole
      exact .failed (bind_of_error hread) (bind_of_error hwhole)
    | ok out =>
      obtain ⟨t, left⟩ := out
      rw [hread] at hwhole
      obtain ⟨used, hkept, -, hused, -, -⟩ := Numeral.read_append_of_ok hread
      cases hvalue : t.value? with
      | some v =>
        exact .settled hkept (run_between_of_isNumberByte hused) (readNumber_of_some hread hvalue)
          (readNumber_of_some hwhole hvalue)
      | none => exact .failed (readNumber_of_none hread hvalue) (readNumber_of_none hwhole hvalue)

/-! ## Numbers that are too large where they are cut -/

namespace Numeral

/-- An exponent at the end of a text goes on with the digits behind it. -/
theorem readExponent_append_dropped {kept : List UInt8} {negative : Bool} {ds : List Nat}
    (h : readExponent kept = .ok (some (negative, ds), [])) (dropped : List UInt8) :
    ∃ more rest, readExponent (kept ++ dropped) = .ok (some (negative, ds ++ more), rest) := by
  obtain ⟨e, afterMark, hmark, h⟩ := bind_eq_ok_iff.1 h
  cases e with
  | none => cases h
  | some mark =>
    obtain ⟨sign, afterSign, hsign, h⟩ := bind_eq_ok_iff.1 h
    obtain ⟨ds', afterDigits, hdigits, hpure⟩ := bind_eq_ok_iff.1 h
    cases hpure
    have hsignNe : afterSign ≠ [] := by
      rintro rfl
      cases hdigits
    have hmarkNe : afterMark ≠ [] := by
      rintro rfl
      cases hsign
      exact hsignNe rfl
    have hmarkWhole := (settles_optional _).append_of_ne_nil hmark hmarkNe dropped
    have hsignWhole := (settles_optional _).append_of_ne_nil hsign hsignNe dropped
    refine ⟨(dropped.takeWhile isDigit).map digitValue, dropped.dropWhile isDigit, ?_⟩
    rw [readExponent, bind_of_ok hmarkWhole]
    exact (bind_of_ok hsignWhole).trans (bind_of_ok (digits_append_dropped hdigits dropped))

/-- A token that is cut in its exponent has the digits of the whole token. -/
theorem exponent_of_read_append {token rest dropped : List UInt8} {t t' : Numeral}
    {negative : Bool} {ds : List Nat} (h : read token = .ok (t, []))
    (hexponent : t.exponent = some (negative, ds))
    (hwhole : read (token ++ dropped) = .ok (t', rest)) :
    t'.whole = t.whole ∧ t'.fraction = t.fraction ∧
      ∃ more, t'.exponent = some (negative, ds ++ more) := by
  obtain ⟨sign, afterSign, hsign, h⟩ := bind_eq_ok_iff.1 h
  obtain ⟨whole, afterWhole, hds, h⟩ := bind_eq_ok_iff.1 h
  obtain ⟨fraction, afterFraction, hfraction, h⟩ := bind_eq_ok_iff.1 h
  obtain ⟨exponent, afterExponent, hread, hpure⟩ := bind_eq_ok_iff.1 h
  cases hpure
  obtain rfl : exponent = some (negative, ds) := hexponent
  -- an exponent was read, so none of the readers before it had come to the end of the token
  have hfractionNe : afterFraction ≠ [] := by
    rintro rfl
    cases hread
  have hwholeNe : afterWhole ≠ [] := by
    rintro rfl
    cases hfraction
    exact hfractionNe rfl
  have hsignNe : afterSign ≠ [] := by
    rintro rfl
    cases hds
  obtain ⟨more, last, hmore⟩ := readExponent_append_dropped hread dropped
  rw [read, bind_of_ok ((settles_optional _).append_of_ne_nil hsign hsignNe dropped),
    bind_of_ok (settles_readWhole.append_of_ne_nil hds hwholeNe dropped),
    bind_of_ok (settles_readFraction.append_of_ne_nil hfraction hfractionNe dropped),
    bind_of_ok hmore] at hwhole
  cases hwhole
  exact ⟨rfl, rfl, more, rfl⟩

theorem ofDigits_le_append (ds more : List Nat) : ofDigits ds ≤ ofDigits (ds ++ more) := by
  rw [ofDigits, ofDigits, List.foldl_append]
  exact le_appended _ more

theorem magnitude?_eq_none {t : Numeral} (h : t.value? = none) : t.magnitude? = none := by
  rw [value?] at h
  split at h
  · cases h
  · exact Option.map_eq_none_iff.1 h

/-- Only a token without an exponent has a value for another reason than its magnitude. -/
theorem magnitude?_isSome_of_value? {t : Numeral} {v : NumberValue} (h : t.value? = some v)
    (hexponent : t.exponent.isSome) : t.magnitude?.isSome := by
  have hinteger : t.isInteger = false := by
    rw [isInteger, isWhole, Option.isNone_eq_false_iff.2 hexponent, Bool.and_false,
      Bool.false_and, Bool.false_and, Bool.false_and]
  rw [value?, hinteger] at h
  obtain ⟨k, hk, -⟩ := Option.map_eq_some_iff.1 h
  rw [hk]
  rfl

/-- Where a short token is cut, what is there of it has a value if the token has.  An
exponent that makes a number larger is not cut off with another effect, because it only
grows. -/
theorem magnitude?_isSome_of_read_append {token rest dropped : List UInt8} {t t' : Numeral}
    {v : NumberValue} (hlength : token.length ≤ 300) (hread : read token = .ok (t, []))
    (hwhole : read (token ++ dropped) = .ok (t', rest)) (hvalue : t'.value? = some v) :
    t.magnitude?.isSome := by
  obtain ⟨used, htoken, -, -, hle, hdigits⟩ := read_append_of_ok hread
  rw [List.append_nil] at htoken
  subst htoken
  cases hexponent : t.exponent with
  | none =>
    have hsign : t.exponentValue ≤ 0 := by
      rw [exponentValue, hexponent]
    exact magnitude?_isSome_of_length_le hdigits (hle.trans hlength) hsign
  | some e =>
    obtain ⟨negative, ds⟩ := e
    cases negative with
    | true =>
      have hsign : t.exponentValue ≤ 0 := by
        rw [exponentValue, hexponent]
        exact Int.neg_nonpos_of_nonneg (Int.natCast_nonneg _)
      exact magnitude?_isSome_of_length_le hdigits (hle.trans hlength) hsign
    | false =>
      obtain ⟨hwholeDigits, hfraction, more, hmore⟩ :=
        exponent_of_read_append hread hexponent hwhole
      have hgrows : t.exponentValue ≤ t'.exponentValue := by
        rw [exponentValue, exponentValue, hexponent, hmore]
        exact Int.ofNat_le.2 (ofDigits_le_append ds more)
      exact magnitude?_isSome_of_exponentValue_le hwholeDigits hfraction hgrows
        (magnitude?_isSome_of_value? hvalue (by rw [hmore]; rfl))

end Numeral

/-- It takes a long token to be too large where it is cut and not as a whole. -/
theorem lt_length_of_tooLargeWhereCut {token dropped : List UInt8}
    (h : TooLargeWhereCut token dropped) : 300 < token.length := by
  obtain ⟨hcut, v, rest, hwhole⟩ := h
  obtain ⟨t', hread', hvalue'⟩ := exists_read_of_readNumber hwhole
  have hnone : ∀ t left, Numeral.read token = .ok (t, left) → t.value? = none := by
    intro t left hread
    by_contra hvalue
    obtain ⟨w, hw⟩ := Option.ne_none_iff_exists'.1 hvalue
    rw [readNumber_of_some hread hw] at hcut
    cases hcut
  by_contra hshort
  rcases Numeral.settles_read token dropped with hread | ⟨t, hread⟩ | hsame
  · rw [readNumber, bind_of_error hread] at hcut
    cases hcut
  · have hsome := Numeral.magnitude?_isSome_of_read_append (Nat.not_lt.1 hshort) hread hread' hvalue'
    rw [Numeral.magnitude?_eq_none (hnone t [] hread)] at hsome
    cases hsome
  · rw [hread'] at hsame
    cases hread : Numeral.read token with
    | error fault =>
      rw [hread] at hsame
      cases hsame
    | ok out =>
      obtain ⟨t, left⟩ := out
      rw [hread] at hsame
      cases hsame
      rw [hnone t left hread] at hvalue'
      cases hvalue'

end RecordFilter.Json
