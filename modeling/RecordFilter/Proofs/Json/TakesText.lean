import Mathlib
import RecordFilter.Proofs.Json.NumberContinuation
import RecordFilter.Proofs.Json.TreeLanguage

/-!
# Bytes that can be read are text

Readers take bytes one by one and do not ask first whether these are UTF-8.  They need not:
a value can be read only from bytes that are.

Outside strings this is so because the bytes that readers look for are ASCII.  Inside a string
any byte from `0x20` on is taken, and what is looked at when the string ends is not its text
but its value, in which escapes have been replaced.  `Spells` relates the two.  An escape
stands for the bytes of one character, and no character begins inside another one, so the
value is UTF-8 exactly if the text is (`Spells.isText_append_iff`).

`TakesText` says that whatever a reader takes is text.  There is one law for each way of
putting readers together.
-/

namespace RecordFilter.Text

/-! ## Bytes of texts -/

/-- Bytes that are those of some characters. -/
def IsText (bytes : List UInt8) : Prop :=
  ∃ cs, bytes = bytesOf cs

variable {x y : List UInt8} {c : Char}

theorem isText_iff_ofUtf8? {bytes : List UInt8} :
    IsText bytes ↔ ∃ text, ofUtf8? bytes = some text := by
  simp only [ofUtf8?_eq_some_iff, utf8_eq_bytesOf]
  constructor
  · rintro ⟨cs, rfl⟩
    exact ⟨String.ofList cs, by rw [String.toList_ofList]⟩
  · rintro ⟨text, rfl⟩
    exact ⟨text.toList, rfl⟩

theorem isText_nil : IsText [] := ⟨[], rfl⟩

theorem isText_utf8EncodeChar (c : Char) : IsText (String.utf8EncodeChar c) :=
  ⟨[c], (List.append_nil _).symm⟩

theorem isText_toUInt8 (hc : c.toNat < 0x80) : IsText [c.toUInt8] :=
  utf8EncodeChar_ascii hc ▸ isText_utf8EncodeChar c

theorem IsText.append (hx : IsText x) (hy : IsText y) : IsText (x ++ y) := by
  obtain ⟨cs, rfl⟩ := hx
  obtain ⟨ds, rfl⟩ := hy
  exact ⟨cs ++ ds, (bytesOf_append cs ds).symm⟩

theorem isText_of_ascii {bytes : List UInt8} (h : ∀ b ∈ bytes, b.toNat < 0x80) :
    IsText bytes := by
  induction bytes with
  | nil => exact isText_nil
  | cons b bytes ih =>
    rw [List.forall_mem_cons] at h
    obtain ⟨cs, rfl⟩ := ih h.2
    have hb : (asciiChar b).toNat = b.toNat := by
      rw [asciiChar, Char.toNat_ofNat, if_pos (.inl (by omega))]
    refine ⟨asciiChar b :: cs, ?_⟩
    rw [bytesOf_cons, utf8EncodeChar_of_lt (by omega), hb, UInt8.ofNat_toNat]
    rfl

/-- Behind the bytes of characters, the bytes of a text go on with those of characters. -/
theorem IsText.append_iff (hx : IsText x) : IsText (x ++ y) ↔ IsText y := by
  refine ⟨fun h => ?_, hx.append⟩
  obtain ⟨cs, rfl⟩ := hx
  obtain ⟨ds, hds⟩ := h
  have hbytes : cs.utf8Encode ++ y.toByteArray = ds.utf8Encode := by
    rw [List.utf8Encode, List.utf8Encode, ← List.toByteArray_append]
    exact congrArg List.toByteArray hds
  obtain ⟨es, rfl⟩ := List.isPrefix_of_utf8Encode_append_eq_utf8Encode _ hbytes
  rw [bytesOf_append, List.append_cancel_left_eq] at hds
  exact ⟨es, hds⟩

/-- A byte that a character begins with is not a later byte of another one. -/
theorem length_eq_zero_of_utf8EncodeChar {d : Char} {b : UInt8} {tail more : List UInt8}
    (hc : String.utf8EncodeChar c = b :: more) (hd : String.utf8EncodeChar d = x ++ b :: tail) :
    x.length = 0 := by
  have hfirst : b.IsUTF8FirstByte := by
    have h := UInt8.isUTF8FirstByte_getElem_zero_utf8EncodeChar (c := c)
    simpa only [hc, List.getElem_cons_zero] using h
  have hlt : x.length < (String.utf8EncodeChar d).length := by
    rw [hd, List.length_append, List.length_cons]
    omega
  have hat : (String.utf8EncodeChar d)[x.length] = b := by
    simp only [hd, List.getElem_append_right (Nat.le_refl _), Nat.sub_self, List.getElem_cons_zero]
  rw [← hat] at hfirst
  exact UInt8.isUTF8FirstByte_getElem_utf8EncodeChar.1 hfirst

/-- In front of the bytes of a character, the bytes of a text are those of characters.  The
induction is on the characters of the text, which `x` takes whole until it ends. -/
theorem IsText.of_append_utf8EncodeChar (h : IsText (x ++ (String.utf8EncodeChar c ++ y))) :
    IsText x := by
  obtain ⟨cs, hcs⟩ := h
  induction cs generalizing x with
  | nil =>
    rw [bytesOf_nil, List.append_eq_nil_iff] at hcs
    exact ⟨[], hcs.1⟩
  | cons d ds ih =>
    rw [bytesOf_cons] at hcs
    obtain ⟨left, hd, hleft⟩ | ⟨after, rfl, hafter⟩ := List.append_eq_append_iff.1 hcs
    · cases left with
      | nil =>
        rw [List.append_nil] at hd
        exact hd ▸ isText_utf8EncodeChar d
      | cons b tail =>
        obtain ⟨b', more, hc⟩ :=
          List.exists_cons_of_ne_nil (String.utf8EncodeChar_ne_nil (c := c))
        rw [hc, List.cons_append, List.cons_append, List.cons.injEq] at hleft
        obtain ⟨rfl, -⟩ := hleft
        rw [List.length_eq_zero_iff.1 (length_eq_zero_of_utf8EncodeChar hc hd)]
        exact isText_nil
    · exact (isText_utf8EncodeChar d).append (ih hafter.symm)

/-- A text can be cut in front of a character and behind it. -/
theorem isText_append_utf8EncodeChar_iff :
    IsText (x ++ (String.utf8EncodeChar c ++ y)) ↔ IsText x ∧ IsText y := by
  have hc := isText_utf8EncodeChar c
  constructor
  · intro h
    have hx := h.of_append_utf8EncodeChar
    exact ⟨hx, hc.append_iff.1 (hx.append_iff.1 h)⟩
  · rintro ⟨hx, hy⟩
    exact hx.append (hc.append hy)

theorem isText_append_ascii_iff (hc : c.toNat < 0x80) :
    IsText (x ++ c.toUInt8 :: y) ↔ IsText x ∧ IsText y := by
  rw [← isText_append_utf8EncodeChar_iff (c := c), utf8EncodeChar_ascii hc, List.singleton_append]

end RecordFilter.Text

namespace RecordFilter.Json.Reader

open Text

variable {α β σ : Type}

/-! ## Readers that take text -/

/-- Whatever a reader takes is text. -/
def TakesText (r : Reader α) : Prop :=
  ∀ input a rest, r input = .ok (a, rest) → ∃ used, IsText used ∧ input = used ++ rest

theorem takesText_pure (a : α) : TakesText (pure a : Reader α) := by
  intro input b rest hok
  cases hok
  exact ⟨[], isText_nil, rfl⟩

theorem takesText_throw (fault : Fault) : TakesText (throw fault : Reader α) := by
  intro input a rest hok
  cases hok

theorem TakesText.bind {r : Reader α} {f : α → Reader β} (hr : TakesText r)
    (hf : ∀ a, TakesText (f a)) : TakesText (r >>= f) := by
  intro input b rest hok
  obtain ⟨a, middle, ha, hb⟩ := bind_eq_ok_iff.1 hok
  obtain ⟨used, htext, rfl⟩ := hr input a middle ha
  obtain ⟨used', htext', rfl⟩ := hf a middle b rest hb
  exact ⟨used ++ used', htext.append htext', (List.append_assoc _ _ _).symm⟩

theorem TakesText.map {r : Reader α} (hr : TakesText r) (g : α → β) : TakesText (g <$> r) := by
  rw [map_eq_bind]
  exact hr.bind fun a => takesText_pure (g a)

theorem takesText_iterate {step : σ → Reader (σ ⊕ β)} (hstep : ∀ state, TakesText (step state))
    (state : σ) : TakesText (iterate step state) := by
  intro input
  refine iterateWithin_induction (P := fun _ => TakesText) (fun _ => takesText_throw _) ?_ input
    state input
  intro state after hagain hresult
  refine (hstep state).bind fun out => ?_
  cases out with
  | inl state => exact hagain state
  | inr result => exact hresult result ▸ takesText_pure result

theorem takesText_word (text : List Char) (h : ∀ c ∈ text, c.toNat < 0x80) :
    TakesText (word (text.map Char.toUInt8)) := by
  induction text with
  | nil => exact takesText_pure ()
  | cons c text ih =>
    rw [List.forall_mem_cons] at h
    intro input _ rest hok
    obtain ⟨b, middle, hnext, hword⟩ := bind_eq_ok_iff.1 hok
    split at hword
    · next hb =>
      obtain ⟨used, htext, rfl⟩ := ih h.2 middle () rest hword
      refine ⟨[c.toUInt8] ++ used, (isText_toUInt8 h.1).append htext, ?_⟩
      rw [next_eq_ok_iff.1 hnext, hb]
      rfl
    · cases hword

/-! ## White space and punctuation -/

theorem isText_of_isSpace {bytes : List UInt8} (h : ∀ b ∈ bytes, isSpace b) : IsText bytes :=
  isText_of_ascii fun b hb => (asciiChar_mem_of_isSpace (h b hb)).1

/-- Passing over white space takes text. -/
theorem exists_isText_of_dropWhile {input rest : List UInt8}
    (h : input.dropWhile isSpace = rest) : ∃ used, IsText used ∧ input = used ++ rest := by
  refine ⟨input.takeWhile isSpace, isText_of_isSpace fun b hb => List.mem_takeWhile_imp hb, ?_⟩
  rw [← h, List.takeWhile_append_dropWhile]

theorem takesText_symbol {c : Char} (hc : c.toNat < 0x80) : TakesText (symbol c.toUInt8) := by
  intro input _ rest hok
  obtain ⟨used, htext, rfl⟩ := exists_isText_of_dropWhile (symbol_eq_ok_iff.1 hok)
  exact ⟨used ++ [c.toUInt8], htext.append (isText_toUInt8 hc), by simp⟩

/-- Asking whether there is another item takes at most a comma and white space. -/
theorem Separates.takesText {closing : UInt8} {begins : UInt8 → Prop}
    {another : Bool → Reader Bool} (h : Separates closing begins another) (first : Bool) :
    TakesText (another first) := by
  intro input found rest hok
  cases found with
  | false =>
    obtain ⟨tail, hdrop, rfl⟩ := (h.none_iff first input rest).1 hok
    exact exists_isText_of_dropWhile hdrop
  | true =>
    cases first with
    | true =>
      obtain ⟨b, tail, hdrop, -, rfl⟩ := (h.first_iff input rest).1 hok
      exact exists_isText_of_dropWhile hdrop
    | false =>
      obtain ⟨after, b, tail, hcomma, hdrop, -, rfl⟩ := (h.next_iff input rest).1 hok
      obtain ⟨used, htext, rfl⟩ := exists_isText_of_dropWhile hcomma
      obtain ⟨used', htext', rfl⟩ := exists_isText_of_dropWhile hdrop
      have hcommaText : IsText [','.toUInt8] := isText_toUInt8 (by decide)
      exact ⟨used ++ ([','.toUInt8] ++ used'), htext.append (hcommaText.append htext'), by simp⟩

end RecordFilter.Json.Reader

namespace RecordFilter.Json.StringToken

open Reader Text

/-! ## Strings -/

theorem toNat_lt_of_hexValue? : ∀ b : UInt8, (hexValue? b).isSome → b.toNat < 0x80 := by
  decide +kernel

theorem takesText_hexNumber : TakesText hexNumber := by
  intro input n rest hok
  unfold hexNumber at hok
  split at hok
  · next a b c d tail =>
    split at hok
    · next hnumber =>
      cases hok
      simp only [hexNumber?, Option.bind_eq_bind, Option.bind_eq_some_iff] at hnumber
      obtain ⟨_, ha, _, hb, _, hc, _, hd, -⟩ := hnumber
      refine ⟨[a, b, c, d], isText_of_ascii fun e he => toNat_lt_of_hexValue? e ?_, rfl⟩
      simp only [List.mem_cons, List.not_mem_nil, or_false] at he
      rcases he with rfl | rfl | rfl | rfl
      · exact Option.isSome_of_eq_some ha
      · exact Option.isSome_of_eq_some hb
      · exact Option.isSome_of_eq_some hc
      · exact Option.isSome_of_eq_some hd
    · cases hok
  · cases hok

theorem takesText_numberedEscape : TakesText numberedEscape := by
  refine takesText_hexNumber.bind fun n => ?_
  split
  · exact takesText_throw _
  split
  · refine (takesText_word ['\\', 'u'] (by simp)).bind fun _ => takesText_hexNumber.bind fun m => ?_
    split
    · exact takesText_pure _
    · exact takesText_throw _
  · exact takesText_pure _

theorem takesText_escape : TakesText escape := by
  intro input c rest hok
  obtain ⟨b, middle, hnext, hescape⟩ := bind_eq_ok_iff.1 hok
  rw [next_eq_ok_iff.1 hnext]
  split at hescape
  · next hb =>
    subst hb
    obtain ⟨used, htext, rfl⟩ := takesText_numberedEscape middle c rest hescape
    have hletter : IsText ['u'.toUInt8] := isText_toUInt8 (by decide)
    exact ⟨['u'.toUInt8] ++ used, hletter.append htext, rfl⟩
  generalize hfind : letterEscapes.find? (fun entry => entry.1.toUInt8 = b) = found at hescape
  cases found with
  | none => cases hescape
  | some found =>
    cases hescape
    have hletter : ShortEscape found.1 found.2 := List.mem_of_find?_eq_some hfind
    have hb : found.1.toUInt8 = b := by simpa using List.find?_some hfind
    exact ⟨[b], hb ▸ isText_toUInt8 (shortEscape_ascii hletter).1, rfl⟩

/-- What the text of a string spells, byte by byte, as long as nobody asks whether the bytes
are UTF-8. -/
inductive Spells : List UInt8 → List UInt8 → Prop
  | nil : Spells [] []
  | plain (b : UInt8) {used content : List UInt8} :
      Spells used content → Spells (b :: used) (b :: content)
  | escape (c : Char) {letters used content : List UInt8} :
      IsText letters → Spells used content →
      Spells (String.utf8EncodeChar '\\' ++ (letters ++ used)) (String.utf8EncodeChar c ++ content)

/-- The text of a string is UTF-8 exactly if what it spells is.  The induction is on the text;
`x` collects the plain bytes, which may be part of a character, and an escape shows that they
are not. -/
theorem Spells.isText_append_iff {used content : List UInt8} (h : Spells used content)
    (x : List UInt8) : IsText (x ++ used) ↔ IsText (x ++ content) := by
  induction h generalizing x with
  | nil => rfl
  | plain b _ ih =>
    have hstep := ih (x ++ [b])
    rwa [← List.append_cons, ← List.append_cons] at hstep
  | escape c hletters _ ih =>
    rw [isText_append_utf8EncodeChar_iff, isText_append_utf8EncodeChar_iff,
      hletters.append_iff]
    exact and_congr_right fun _ => ih []

/-- What one step takes. -/
theorem step_cases [StringCheck] {done input rest : List UInt8} {out : List UInt8 ⊕ String}
    (hok : step done input = .ok (out, rest)) :
    (∃ s, input = '"'.toUInt8 :: rest ∧ StringCheck.text done.reverse = .ok s ∧ out = .inr s) ∨
      (∃ c after, input = '\\'.toUInt8 :: after ∧ escape after = .ok (c, rest) ∧
        out = .inl ((String.utf8EncodeChar c).reverse ++ done)) ∨
      ∃ b, input = b :: rest ∧ out = .inl (b :: done) := by
  obtain ⟨b, middle, hnext, htake⟩ := bind_eq_ok_iff.1 hok
  rw [next_eq_ok_iff.1 hnext]
  split at htake
  · next hquote =>
    subst hquote
    cases hcheck : StringCheck.text done.reverse with
    | error fault =>
      rw [hcheck] at htake
      cases htake
    | ok s =>
      rw [hcheck] at htake
      cases htake
      exact .inl ⟨s, rfl, rfl, rfl⟩
  split at htake
  · next hslash =>
    subst hslash
    obtain ⟨c, after, hescape, hpure⟩ := bind_eq_ok_iff.1 htake
    cases hpure
    exact .inr (.inl ⟨c, middle, rfl, hescape, rfl⟩)
  split at htake
  · cases htake
  · cases htake
    exact .inr (.inr ⟨b, rfl, rfl⟩)

/-- What is collected up to the closing quote is what the text spells. -/
theorem exists_spells_of_run {done input rest : List UInt8} {s : String}
    (hrun : Run step done input s rest) :
    ∃ used content, input = used ++ '"'.toUInt8 :: rest ∧ Spells used content ∧
      utf8 s = done.reverse ++ content := by
  induction hrun with
  | result hresult =>
    obtain ⟨s, rfl, hcheck, hout⟩ | ⟨_, _, _, _, ⟨⟩⟩ | ⟨_, _, ⟨⟩⟩ := step_cases hresult
    cases hout
    have hutf8 := StringCheck.strict_text_eq_ok_iff.1 hcheck
    exact ⟨[], [], rfl, .nil, by rw [utf8_of_ofUtf8? hutf8, List.append_nil]⟩
  | again hagain _ ih =>
    obtain ⟨used, content, rfl, hspells, hs⟩ := ih
    obtain ⟨_, _, _, ⟨⟩⟩ | ⟨c, after, rfl, hescape, hout⟩ | ⟨b, rfl, hout⟩ := step_cases hagain
    · cases hout
      obtain ⟨letters, hletters, rfl⟩ := takesText_escape _ _ _ hescape
      refine ⟨_, _, ?_, .escape c hletters hspells, ?_⟩
      · rw [utf8EncodeChar_ascii (by decide)]
        simp
      rw [hs, List.reverse_append, List.reverse_reverse, List.append_assoc]
    · cases hout
      refine ⟨b :: used, b :: content, rfl, .plain b hspells, ?_⟩
      rw [hs, List.reverse_cons, List.append_assoc, List.singleton_append]

theorem takesText_read : TakesText read := by
  intro input s rest hok
  obtain ⟨used, content, rfl, hspells, hs⟩ :=
    exists_spells_of_run ((iterate_eq_ok_iff step_shrinks).1 hok)
  have hcontent : IsText content := ⟨s.toList, hs.symm.trans (utf8_eq_bytesOf s)⟩
  have hused : IsText used := (hspells.isText_append_iff []).2 hcontent
  have hquote : IsText ['"'.toUInt8] := isText_toUInt8 (by decide)
  exact ⟨used ++ ['"'.toUInt8], hused.append hquote, by simp⟩

end RecordFilter.Json.StringToken

namespace RecordFilter.Json

open Reader Text

/-! ## Numbers -/

theorem takesText_readNumber : TakesText readNumber := by
  intro input v rest hok
  obtain ⟨t, hread, -⟩ := exists_read_of_readNumber hok
  obtain ⟨used, hinput, -, hused, -⟩ := Numeral.read_append_of_ok hread
  exact ⟨used, isText_of_ascii fun b hb => Numeral.toNat_lt_of_isNumberByte b (hused b hb), hinput⟩

end RecordFilter.Json
