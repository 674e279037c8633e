import Mathlib
import RecordFilter.Proofs.Json.Accepts
import RecordFilter.Proofs.Json.StringToken

/-!
# The strings that are read

The reader of strings takes exactly the strings of the grammar.  It works on bytes, so a
character outside ASCII is taken in several steps; the proofs take it in one
(`iterate_plain`).  The induction is on the characters of the text, and the bytes that were
collected grow by those of the character that each piece spells.
-/

namespace RecordFilter.Json

open Reader Text

namespace StringToken

/-! ## Hexadecimal digits -/

theorem hexDigit_decimal : ∀ n < 10, HexDigit (Char.ofNat (48 + n)) n := by
  decide

theorem hexDigit_lower : ∀ i < 6, HexDigit (Char.ofNat (97 + i)) (10 + i) := by
  decide

theorem hexDigit_upper : ∀ i < 6, HexDigit (Char.ofNat (65 + i)) (10 + i) := by
  decide

theorem hexValue?_digitChar : ∀ n < 16,
    hexValue? (Nat.digitChar n).toUInt8 = some n ∧ (Nat.digitChar n).toNat < 0x80 := by
  decide

theorem hexValue?_toUpper_digitChar : ∀ n < 16,
    hexValue? (Nat.digitChar n).toUpper.toUInt8 = some n ∧ (Nat.digitChar n).toUpper.toNat < 0x80 := by
  decide

theorem hexValue?_of_hexDigit {c : Char} {n : Nat} (h : HexDigit c n) :
    hexValue? c.toUInt8 = some n ∧ c.toNat < 0x80 := by
  obtain ⟨hn, hc⟩ := h
  simp only [List.mem_cons, List.not_mem_nil, or_false] at hc
  rcases hc with rfl | rfl
  · exact hexValue?_digitChar n hn
  · exact hexValue?_toUpper_digitChar n hn

theorem hexDigit_asciiChar {b : UInt8} {n : Nat} (h : hexValue? b = some n) :
    HexDigit (asciiChar b) n ∧ b.toNat < 0x80 := by
  have hzero : '0'.toNat = 48 := rfl
  have hnine : '9'.toNat = 57 := rfl
  have hlower : 'a'.toNat = 97 ∧ 'f'.toNat = 102 := ⟨rfl, rfl⟩
  have hupper : 'A'.toNat = 65 ∧ 'F'.toNat = 70 := ⟨rfl, rfl⟩
  simp only [hexValue?] at h
  split at h
  · cases h
    have hdigit := hexDigit_decimal (b.toNat - 48) (by omega)
    rw [Nat.add_sub_cancel' (by omega)] at hdigit
    exact ⟨hdigit, by omega⟩
  split at h
  · cases h
    have hdigit := hexDigit_lower (b.toNat - 97) (by omega)
    rw [Nat.add_sub_cancel' (by omega), Nat.add_comm] at hdigit
    exact ⟨hdigit, by omega⟩
  split at h
  · cases h
    have hdigit := hexDigit_upper (b.toNat - 65) (by omega)
    rw [Nat.add_sub_cancel' (by omega), Nat.add_comm] at hdigit
    exact ⟨hdigit, by omega⟩
  · cases h

theorem lt_of_hexText {text : List Char} {n : Nat} (h : HexText text n) : n < 0x10000 := by
  obtain ⟨⟨hi, -⟩, ⟨hj, -⟩, ⟨hk, -⟩, ⟨hl, -⟩⟩ := h
  omega

theorem hexNumber_append {text : List Char} {n : Nat} (h : HexText text n) (rest : List UInt8) :
    hexNumber (bytesOf text ++ rest) = .ok (n, rest) := by
  obtain ⟨ha, hb, hc, hd⟩ := h
  obtain ⟨hi, hia⟩ := hexValue?_of_hexDigit ha
  obtain ⟨hj, hja⟩ := hexValue?_of_hexDigit hb
  obtain ⟨hk, hka⟩ := hexValue?_of_hexDigit hc
  obtain ⟨hl, hla⟩ := hexValue?_of_hexDigit hd
  rw [bytesOf_cons_ascii hia, bytesOf_cons_ascii hja, bytesOf_cons_ascii hka,
    bytesOf_cons_ascii hla]
  simp [hexNumber, hexNumber?, hi, hj, hk, hl]

theorem accepts_hexNumber : Accepts hexNumber HexText := by
  intro cs n rest hok
  unfold hexNumber at hok
  split at hok
  · next a b c d tail hbytes =>
    split at hok
    · next hnumber =>
      cases hok
      simp only [hexNumber?, Option.bind_eq_bind, Option.bind_eq_some_iff] at hnumber
      obtain ⟨i, hi, j, hj, k, hk, l, hl, ⟨⟩⟩ := hnumber
      obtain ⟨ha, haa⟩ := hexDigit_asciiChar hi
      obtain ⟨hb, hba⟩ := hexDigit_asciiChar hj
      obtain ⟨hc, hca⟩ := hexDigit_asciiChar hk
      obtain ⟨hd, hda⟩ := hexDigit_asciiChar hl
      have hused : ∀ byte ∈ [a, b, c, d], byte.toNat < 0x80 := by
        simp [haa, hba, hca, hda]
      obtain ⟨after, rfl, hrest⟩ := bytesOf_eq_append hbytes hused
      exact ⟨_, after, rfl, .four ha hb hc hd, hrest⟩
    · cases hok
  · cases hok

/-! ## Escapes -/

theorem toNat_ofNat_of_not_surrogate {n : Nat} (hn : n < 0x10000) (hleading : isLeading n = false)
    (htrailing : isTrailing n = false) : (Char.ofNat n).toNat = n := by
  rw [Char.toNat_ofNat, if_pos]
  simp only [isLeading, isTrailing, Bool.and_eq_false_iff, decide_eq_false_iff_not] at hleading htrailing
  unfold Nat.isValidChar
  omega

theorem isLeading_iff {n : Nat} : isLeading n ↔ ∃ high < 0x400, n = 0xD800 + high := by
  simp only [isLeading, Bool.and_eq_true, decide_eq_true_eq]
  constructor
  · intro h
    exact ⟨n - 0xD800, by omega, by omega⟩
  · rintro ⟨high, hhigh, rfl⟩
    omega

theorem isTrailing_iff {n : Nat} : isTrailing n ↔ ∃ low < 0x400, n = 0xDC00 + low := by
  simp only [isTrailing, Bool.and_eq_true, decide_eq_true_eq]
  constructor
  · intro h
    exact ⟨n - 0xDC00, by omega, by omega⟩
  · rintro ⟨low, hlow, rfl⟩
    omega

theorem toNat_ofSurrogates {high low : Nat} (hhigh : high < 0x400) (hlow : low < 0x400) :
    (ofSurrogates (0xD800 + high) (0xDC00 + low)).toNat = 0x10000 + (high * 0x400 + low) := by
  rw [ofSurrogates, Char.toNat_ofNat, if_pos]
  · omega
  · unfold Nat.isValidChar
    omega

theorem accepts_backslash :
    Accepts (word ['\\'.toUInt8, 'u'.toUInt8]) fun text _ => text = ['\\', 'u'] :=
  accepts_word ['\\', 'u'] (by simp)

theorem accepts_numberedEscape :
    Accepts numberedEscape fun text c => EscapeText ('u' :: text) c := by
  intro cs c rest hok
  obtain ⟨n, middle, hnumber, hok⟩ := bind_eq_ok_iff.1 hok
  obtain ⟨leading, after, rfl, hleading, rfl⟩ := accepts_hexNumber cs n middle hnumber
  split at hok
  · cases hok
  next htrailing =>
  split at hok
  · next hlead =>
    obtain ⟨high, hhigh, hn⟩ := isLeading_iff.1 hlead
    obtain ⟨middle, hword, hok⟩ := unit_bind_eq_ok_iff.1 hok
    obtain ⟨m, last, hnumber, hok⟩ := bind_eq_ok_iff.1 hok
    obtain ⟨_, after, rfl, rfl, rfl⟩ := accepts_backslash after () middle hword
    obtain ⟨trailing, after, rfl, htrail, rfl⟩ := accepts_hexNumber after m last hnumber
    split at hok
    · next hsecond =>
      obtain ⟨low, hlow, hm⟩ := isTrailing_iff.1 hsecond
      simp only [pure_apply, Except.ok.injEq, Prod.mk.injEq] at hok
      obtain ⟨rfl, rfl⟩ := hok
      refine ⟨leading ++ '\\' :: 'u' :: trailing, after, by simp, ?_, rfl⟩
      rw [hn] at hleading
      rw [hm] at htrail
      refine .pair hhigh hlow hleading htrail ?_
      rw [hn, hm, toNat_ofSurrogates hhigh hlow]
    · cases hok
  · next hlead =>
    cases hok
    refine ⟨leading, after, rfl, .number ?_, rfl⟩
    rw [toNat_ofNat_of_not_surrogate (lt_of_hexText hleading) (by simpa using hlead)
      (by simpa using htrailing)]
    exact hleading

theorem not_surrogate (c : Char) : isLeading c.toNat = false ∧ isTrailing c.toNat = false := by
  have hvalid : c.toNat < 0xD800 ∨ 0xDFFF < c.toNat ∧ c.toNat < 0x110000 := c.valid
  simp only [isLeading, isTrailing, Bool.and_eq_false_iff, decide_eq_false_iff_not]
  omega

theorem numberedEscape_number {digits : List Char} {c : Char} (h : HexText digits c.toNat)
    (rest : List UInt8) : numberedEscape (bytesOf digits ++ rest) = .ok (c, rest) := by
  obtain ⟨hleading, htrailing⟩ := not_surrogate c
  rw [numberedEscape, bind_of_ok (hexNumber_append h rest), htrailing, hleading]
  simp

theorem numberedEscape_pair {leading trailing : List Char} {c : Char} {high low : Nat}
    (hhigh : high < 0x400) (hlow : low < 0x400) (hleading : HexText leading (0xD800 + high))
    (htrailing : HexText trailing (0xDC00 + low))
    (hc : c.toNat = 0x10000 + (high * 0x400 + low)) (rest : List UInt8) :
    numberedEscape (bytesOf (leading ++ '\\' :: 'u' :: trailing) ++ rest) = .ok (c, rest) := by
  have hpair : ofSurrogates (0xD800 + high) (0xDC00 + low) = c := by
    apply Char.toNat_inj.1
    rw [toNat_ofSurrogates hhigh hlow, hc]
  have hfirst : isTrailing (0xD800 + high) = false := by
    simp only [isTrailing, Bool.and_eq_false_iff, decide_eq_false_iff_not]
    omega
  have hbytes : bytesOf (leading ++ '\\' :: 'u' :: trailing) ++ rest =
      bytesOf leading ++ (['\\'.toUInt8, 'u'.toUInt8] ++ (bytesOf trailing ++ rest)) := by
    rw [bytesOf_append, List.append_assoc]
    rfl
  rw [hbytes, numberedEscape, bind_of_ok (hexNumber_append hleading _), hfirst,
    isLeading_iff.2 ⟨high, hhigh, rfl⟩]
  simp only [Bool.false_eq_true, if_false, if_true]
  rw [bind_of_ok (word_append _ _), bind_of_ok (hexNumber_append htrailing rest),
    if_pos (isTrailing_iff.2 ⟨low, hlow, rfl⟩), hpair]
  rfl

theorem shortEscape_ascii {letter c : Char} (h : ShortEscape letter c) :
    letter.toNat < 0x80 ∧ letter.toUInt8 ≠ 'u'.toUInt8 := by
  simp only [ShortEscape, List.mem_cons, List.not_mem_nil, or_false, Prod.mk.injEq] at h
  rcases h with ⟨rfl, -⟩ | ⟨rfl, -⟩ | ⟨rfl, -⟩ | ⟨rfl, -⟩ | ⟨rfl, -⟩ | ⟨rfl, -⟩ | ⟨rfl, -⟩ |
    ⟨rfl, -⟩ <;> decide

theorem escape_append {text : List Char} {c : Char} (h : EscapeText text c) (rest : List UInt8) :
    escape (bytesOf text ++ rest) = .ok (c, rest) := by
  cases h with
  | letter hletter =>
    rw [bytesOf_cons_ascii (shortEscape_ascii hletter).1]
    exact escape_letter hletter rest
  | number hdigits =>
    rw [bytesOf_cons_ascii (by decide), List.cons_append, escape, bind_of_ok (next_cons _ _),
      if_pos rfl]
    exact numberedEscape_number hdigits rest
  | pair hhigh hlow hleading htrailing hc =>
    rw [List.cons_append, bytesOf_cons_ascii (by decide), List.cons_append, escape,
      bind_of_ok (next_cons _ _), if_pos rfl]
    exact numberedEscape_pair hhigh hlow hleading htrailing hc rest

theorem accepts_escape : Accepts escape EscapeText := by
  intro cs c rest hok
  obtain ⟨b, middle, hnext, hok⟩ := bind_eq_ok_iff.1 hok
  have hbytes := next_eq_ok_iff.1 hnext
  split at hok
  · next hb =>
    subst hb
    obtain ⟨after, rfl, rfl⟩ := exists_cons_of_bytesOf (by decide) hbytes
    obtain ⟨text, after, rfl, htext, hrest⟩ := accepts_numberedEscape after c rest hok
    exact ⟨'u' :: text, after, rfl, htext, hrest⟩
  generalize hfind : letterEscapes.find? (fun entry => entry.1.toUInt8 = b) = found at hok
  cases found with
  | none => cases hok
  | some found =>
    cases hok
    have hletter : ShortEscape found.1 found.2 := List.mem_of_find?_eq_some hfind
    have hb : found.1.toUInt8 = b := by simpa using List.find?_some hfind
    subst hb
    obtain ⟨after, rfl, hrest⟩ := exists_cons_of_bytesOf (shortEscape_ascii hletter).1 hbytes
    exact ⟨[found.1], after, rfl, .letter hletter, hrest⟩

/-! ## Strings -/

/-- The text of a string, with the bytes of its characters behind those before. -/
theorem iterate_stringText [StringCheck] {text chars : List Char} (h : StringText text chars)
    (done rest : List UInt8) :
    iterate step done (bytesOf text ++ rest) = iterate step ((bytesOf chars).reverse ++ done) rest := by
  induction h generalizing done with
  | nil => rfl
  | plain hquote hslash hcontrol _ ih =>
    rw [bytesOf_cons, List.append_assoc, iterate_plain fun b hb =>
      plain_of_mem_utf8EncodeChar hquote hslash hcontrol hb, ih, bytesOf_cons, List.reverse_append,
      List.append_assoc]
  | escape hescape _ ih =>
    rw [List.cons_append, bytesOf_cons_ascii (by decide), bytesOf_append, List.cons_append,
      List.append_assoc, iterate_escape (escape_append hescape _), ih, bytesOf_cons,
      List.reverse_append, List.append_assoc]

theorem step_quote [StringCheck] (done rest : List UInt8) :
    step done ('"'.toUInt8 :: rest) =
      (StringCheck.text done.reverse).map fun s => (.inr s, rest) := by
  rw [step, bind_of_ok (next_cons _ rest), if_pos rfl]
  cases StringCheck.text done.reverse <;> rfl

/-- A string whose bytes are checked ends if they are UTF-8. -/
theorem step_quote_strict (done rest : List UInt8) :
    step done ('"'.toUInt8 :: rest) =
      match ofUtf8? done.reverse with
      | some s => .ok (.inr s, rest)
      | none => .error .malformed := by
  rw [step_quote, StringCheck.strict_text]
  cases ofUtf8? done.reverse <;> rfl

theorem step_backslash [StringCheck] (done rest : List UInt8) :
    step done ('\\'.toUInt8 :: rest) =
      (escape >>= fun c => pure (.inl ((String.utf8EncodeChar c).reverse ++ done))) rest := by
  rw [step, bind_of_ok (next_cons _ rest), if_neg (by decide), if_pos rfl]

theorem step_control [StringCheck] {b : UInt8} (hb : b < 0x20) (done rest : List UInt8) :
    step done (b :: rest) = .error .malformed := by
  have hquote : b ≠ '"'.toUInt8 := by
    rintro rfl
    revert hb
    decide
  have hslash : b ≠ '\\'.toUInt8 := by
    rintro rfl
    revert hb
    decide
  rw [step, bind_of_ok (next_cons b rest), if_neg hquote, if_neg hslash, if_pos hb, throw_apply]

theorem read_append {text : List Char} {s : String} (h : StringText text s.toList)
    (rest : List UInt8) : read (bytesOf text ++ '"'.toUInt8 :: rest) = .ok (s, rest) := by
  rw [read, iterate_stringText h, List.append_nil, iterate_of_shrinks step_shrinks, step_quote_strict,
    List.reverse_reverse, ← utf8_eq_bytesOf, ofUtf8?_utf8]

/-- The closing quote ends a string with the bytes that were collected. -/
theorem utf8_of_iterate_quote {done input rest : List UInt8} {s : String}
    (hok : iterate step done ('"'.toUInt8 :: input) = .ok (s, rest)) :
    utf8 s = done.reverse ∧ rest = input := by
  rw [iterate_of_shrinks step_shrinks, step_quote_strict] at hok
  cases hutf8 : ofUtf8? done.reverse with
  | none =>
    rw [hutf8] at hok
    cases hok
  | some s' =>
    rw [hutf8] at hok
    cases hok
    exact ⟨utf8_of_ofUtf8? hutf8, rfl⟩

/-- A string goes on behind a backslash with the character that is escaped. -/
theorem exists_escape_of_iterate {done input rest : List UInt8} {s : String}
    (hok : iterate step done ('\\'.toUInt8 :: input) = .ok (s, rest)) :
    ∃ c middle, escape input = .ok (c, middle) ∧
      iterate step ((String.utf8EncodeChar c).reverse ++ done) middle = .ok (s, rest) := by
  cases hread : escape input with
  | error fault =>
    rw [iterate_of_shrinks step_shrinks, step_backslash, bind_of_error hread] at hok
    cases hok
  | ok out =>
    rw [iterate_escape hread] at hok
    exact ⟨out.1, out.2, rfl, hok⟩

/-- A reader inside a string stands before the closing quote, or before what stands for one
more character. -/
theorem cases_of_iterate {cs : List Char} {done rest : List UInt8} {s : String}
    (hok : iterate step done (bytesOf cs) = .ok (s, rest)) :
    (∃ after, cs = '"' :: after ∧ utf8 s = done.reverse ∧ rest = bytesOf after) ∨
      ∃ piece c after, cs = piece ++ after ∧ piece ≠ [] ∧
        (∀ text chars, StringText text chars → StringText (piece ++ text) (c :: chars)) ∧
        iterate step ((String.utf8EncodeChar c).reverse ++ done) (bytesOf after) = .ok (s, rest) := by
  cases cs with
  | nil =>
    rw [iterate_of_shrinks step_shrinks] at hok
    cases hok
  | cons c cs =>
    by_cases hquote : c = '"'
    · subst hquote
      rw [bytesOf_cons_ascii (by decide)] at hok
      obtain ⟨hs, hrest⟩ := utf8_of_iterate_quote hok
      exact .inl ⟨cs, rfl, hs, hrest⟩
    by_cases hslash : c = '\\'
    · subst hslash
      rw [bytesOf_cons_ascii (by decide)] at hok
      obtain ⟨c, middle, hread, hok⟩ := exists_escape_of_iterate hok
      obtain ⟨escape, after, rfl, hescape, rfl⟩ := accepts_escape cs c middle hread
      exact .inr ⟨'\\' :: escape, c, after, rfl, List.cons_ne_nil _ _,
        fun _ _ htext => .escape hescape htext, hok⟩
    by_cases hcontrol : c.toNat < 0x20
    · have hb : c.toUInt8 < 0x20 := by
        rw [UInt8.lt_iff_toNat_lt, toNat_toUInt8 (by omega)]
        exact hcontrol
      rw [bytesOf_cons_ascii (by omega), iterate_of_shrinks step_shrinks, step_control hb] at hok
      cases hok
    · have hplain : ∀ b ∈ String.utf8EncodeChar c, Plain b := fun b hb =>
        plain_of_mem_utf8EncodeChar hquote hslash (Nat.not_lt.1 hcontrol) hb
      rw [bytesOf_cons, iterate_plain hplain] at hok
      exact .inr ⟨[c], c, cs, rfl, List.cons_ne_nil _ _,
        fun _ _ htext => .plain hquote hslash (Nat.not_lt.1 hcontrol) htext, hok⟩

/-- What the reader collects up to the closing quote are the bytes of the characters that the
text spells. -/
theorem exists_stringText_of_iterate {cs : List Char} {done rest : List UInt8} {s : String}
    (hok : iterate step done (bytesOf cs) = .ok (s, rest)) :
    ∃ text chars after, cs = text ++ '"' :: after ∧ StringText text chars ∧
      rest = bytesOf after ∧ utf8 s = done.reverse ++ bytesOf chars := by
  induction hn : cs.length using Nat.strong_induction_on generalizing cs done with
  | _ n ih =>
    obtain ⟨after, rfl, hs, hrest⟩ | ⟨piece, c, after, rfl, hpiece, hextend, hok⟩ :=
      cases_of_iterate hok
    · exact ⟨[], [], after, rfl, .nil, hrest, by rw [hs, bytesOf_nil, List.append_nil]⟩
    · have hlength : after.length < n := by
        have hpos := List.length_pos_of_ne_nil hpiece
        rw [← hn, List.length_append]
        omega
      obtain ⟨text, chars, last, rfl, htext, hrest, hs⟩ := ih _ hlength hok rfl
      refine ⟨piece ++ text, c :: chars, last, by rw [List.append_assoc], hextend _ _ htext,
        hrest, ?_⟩
      rw [hs, bytesOf_cons, List.reverse_append, List.reverse_reverse, List.append_assoc]

end StringToken

/-- The characters of a text are determined by its bytes. -/
theorem toList_eq_of_utf8 {s : String} {chars : List Char} (h : utf8 s = bytesOf chars) :
    s.toList = chars := by
  rw [← utf8_ofList] at h
  have hs : some s = some (String.ofList chars) := by
    rw [← ofUtf8?_utf8 s, h, ofUtf8?_utf8]
  rw [Option.some.inj hs, String.toList_ofList]

theorem accepts_quotedText : Accepts quotedText (Spaced QuotedText) := by
  intro cs s rest hok
  obtain ⟨middle, hsymbol, hread⟩ := unit_bind_eq_ok_iff.1 hok
  obtain ⟨_, after, rfl, ⟨spaces, _, rfl, hspaces, rfl⟩, rfl⟩ :=
    accepts_symbol (c := '"') (by decide) cs () middle hsymbol
  obtain ⟨text, chars, after, rfl, htext, hrest, hs⟩ :=
    StringToken.exists_stringText_of_iterate hread
  rw [List.reverse_nil, List.nil_append] at hs
  rw [← toList_eq_of_utf8 hs] at htext
  exact ⟨spaces ++ ('"' :: text ++ ['"']), after, by simp, ⟨spaces, _, rfl, hspaces, .quoted htext⟩,
    hrest⟩

theorem quotedText_returns {text : List Char} {s : String} (h : QuotedText text s) :
    Returns quotedText (bytesOf text) (.ok s) := by
  obtain ⟨htext⟩ := h
  refine Returns.of_ok fun rest => ?_
  rw [List.cons_append, bytesOf_cons_ascii (by decide), bytesOf_append, List.cons_append,
    List.append_assoc, quotedText, bind_of_ok (symbol_cons (by decide))]
  exact StringToken.read_append htext rest

theorem QuotedText.quoted_bytesOf {text : List Char} {s : String} (h : QuotedText text s) :
    Quoted (bytesOf text) := by
  obtain ⟨htext⟩ := h
  exact ⟨_, bytesOf_cons_ascii (by decide) _⟩

/-- Characters that need no escape spell themselves. -/
theorem QuotedText.of_plain {s : String}
    (h : ∀ c ∈ s.toList, c ≠ '"' ∧ c ≠ '\\' ∧ 0x20 ≤ c.toNat) :
    QuotedText ('"' :: s.toList ++ ['"']) s := by
  refine .quoted ?_
  generalize s.toList = cs at h
  induction cs with
  | nil => exact .nil
  | cons c cs ih =>
    rw [List.forall_mem_cons] at h
    obtain ⟨⟨hquote, hslash, hcontrol⟩, hrest⟩ := h
    exact .plain hquote hslash hcontrol (ih hrest)

/-! ## Strings that were written -/

namespace StringToken

theorem hexText_control {n : Nat} (h : n < 0x20) :
    HexText ['0', '0', Nat.digitChar (n / 16), Nat.digitChar (n % 16)] n := by
  have hzero : HexDigit '0' 0 := by decide
  have hhigh : HexDigit (Nat.digitChar (n / 16)) (n / 16) := ⟨by omega, List.mem_cons_self⟩
  have hlow : HexDigit (Nat.digitChar (n % 16)) (n % 16) := ⟨by omega, List.mem_cons_self⟩
  have hfour := HexText.four hzero hzero hhigh hlow
  have hvalue : ((0 * 16 + 0) * 16 + n / 16) * 16 + n % 16 = n := by omega
  rw [hvalue] at hfour
  exact hfour

/-- An escaped character spells the character.  The cases are the branches of `escaped`. -/
theorem stringText_escaped_append (c : Char) {text chars : List Char} (htext : StringText text chars) :
    StringText (escaped c ++ text) (c :: chars) := by
  unfold escaped
  split
  · next h => rcases h with rfl | rfl <;> exact .escape (.letter (by decide)) htext
  split
  · next h => exact .escape (.letter (by rw [h]; decide)) htext
  split
  · next h => exact .escape (.letter (by rw [h]; decide)) htext
  split
  · next h => exact .escape (.letter (by rw [h]; decide)) htext
  split
  · next h => exact .escape (.letter (by rw [h]; decide)) htext
  split
  · next h => exact .escape (.letter (by rw [h]; decide)) htext
  split
  · next h => exact .escape (.number (hexText_control h)) htext
  · next hspecial _ _ _ _ _ hcontrol =>
    rw [not_or] at hspecial
    exact .plain hspecial.1 hspecial.2 (Nat.not_lt.1 hcontrol) htext

theorem stringText_flatMap_escaped (cs : List Char) : StringText (cs.flatMap escaped) cs := by
  induction cs with
  | nil => exact .nil
  | cons c cs ih => exact stringText_escaped_append c ih

/-- What is written for a string is the string between quotes. -/
theorem quotedText_write (s : String) : QuotedText (write s) s :=
  .quoted (stringText_flatMap_escaped s.toList)

/-- A string that was written is read back, whatever its characters. -/
theorem quotedText_returns_write (s : String) : Returns quotedText (bytesOf (write s)) (.ok s) :=
  quotedText_returns (quotedText_write s)

theorem quoted_write (s : String) : Quoted (bytesOf (write s)) :=
  (quotedText_write s).quoted_bytesOf

end StringToken

end RecordFilter.Json
