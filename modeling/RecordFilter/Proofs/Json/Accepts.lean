import Mathlib
import RecordFilter.Proofs.Json.Grammar
import RecordFilter.Proofs.Json.Loop
import RecordFilter.Proofs.Json.Pieces

/-!
# The texts that readers accept

Readers take bytes, and the grammar of JSON speaks of characters.  What a reader takes from
the bytes of characters are the bytes of the first few of them, and these make up a text of
the language that the reader is for: this is `Accepts`.

The bytes that readers look for are ASCII, where a byte is a character (`bytesOf_eq_append`).
-/

namespace RecordFilter.Text

/-! ## ASCII -/

theorem utf8EncodeChar_ascii {c : Char} (h : c.toNat < 0x80) :
    String.utf8EncodeChar c = [c.toUInt8] := by
  rw [utf8EncodeChar_of_lt h]
  rfl

theorem toNat_toUInt8 {c : Char} (h : c.toNat < 0x80) : c.toUInt8.toNat = c.toNat := by
  show (UInt8.ofNat c.toNat).toNat = c.toNat
  rw [UInt8.toNat_ofNat']
  omega

/-- The character of an ASCII byte. -/
def asciiChar (b : UInt8) : Char :=
  Char.ofNat b.toNat

theorem asciiChar_toUInt8 {c : Char} (h : c.toNat < 0x80) : asciiChar c.toUInt8 = c := by
  rw [asciiChar, toNat_toUInt8 h, Char.ofNat_toNat]

theorem bytesOf_cons_ascii {c : Char} (h : c.toNat < 0x80) (cs : List Char) :
    bytesOf (c :: cs) = c.toUInt8 :: bytesOf cs := by
  rw [bytesOf_cons, utf8EncodeChar_ascii h]
  rfl

theorem bytesOf_eq_nil_iff {cs : List Char} : bytesOf cs = [] ↔ cs = [] := by
  cases cs with
  | nil => simp
  | cons c cs => simp [String.utf8EncodeChar_ne_nil]

/-- An ASCII byte at the front is the first character. -/
theorem bytesOf_eq_cons {cs : List Char} {b : UInt8} {rest : List UInt8}
    (h : bytesOf cs = b :: rest) (hb : b.toNat < 0x80) :
    ∃ after, cs = asciiChar b :: after ∧ rest = bytesOf after := by
  cases cs with
  | nil => cases h
  | cons c cs =>
    rcases Nat.lt_or_ge c.toNat 0x80 with hascii | hwide
    · rw [bytesOf_cons_ascii hascii, List.cons.injEq] at h
      obtain ⟨rfl, rfl⟩ := h
      exact ⟨cs, by rw [asciiChar_toUInt8 hascii], rfl⟩
    · obtain ⟨b', tail, hc⟩ :=
        List.exists_cons_of_ne_nil (String.utf8EncodeChar_ne_nil (c := c))
      rw [bytesOf_cons, hc, List.cons_append, List.cons.injEq] at h
      have hge := le_of_mem_utf8EncodeChar hwide (hc ▸ List.mem_cons_self)
      rw [h.1] at hge
      omega

/-- ASCII bytes at the front are the first characters. -/
theorem bytesOf_eq_append {cs : List Char} {used rest : List UInt8}
    (h : bytesOf cs = used ++ rest) (hused : ∀ b ∈ used, b.toNat < 0x80) :
    ∃ after, cs = used.map asciiChar ++ after ∧ rest = bytesOf after := by
  induction used generalizing cs with
  | nil => exact ⟨cs, rfl, h.symm⟩
  | cons b used ih =>
    rw [List.forall_mem_cons] at hused
    obtain ⟨middle, rfl, hmiddle⟩ := bytesOf_eq_cons h hused.1
    obtain ⟨after, rfl, hrest⟩ := ih hmiddle.symm hused.2
    exact ⟨after, rfl, hrest⟩

/-- A given ASCII character at the front. -/
theorem exists_cons_of_bytesOf {c : Char} (hc : c.toNat < 0x80) {cs : List Char}
    {rest : List UInt8} (h : bytesOf cs = c.toUInt8 :: rest) :
    ∃ after, cs = c :: after ∧ rest = bytesOf after := by
  have hb := toNat_toUInt8 hc
  obtain ⟨after, hcs, hrest⟩ := bytesOf_eq_cons h (by omega)
  exact ⟨after, asciiChar_toUInt8 hc ▸ hcs, hrest⟩

end RecordFilter.Text

namespace RecordFilter.Json

open Reader Text

variable {α β : Type}

/-! ## Languages of readers -/

/-- Whatever a reader takes, it takes the bytes of a text of a language. -/
def Accepts (r : Reader α) (P : List Char → α → Prop) : Prop :=
  ∀ cs a rest, r (bytesOf cs) = .ok (a, rest) →
    ∃ text after, cs = text ++ after ∧ P text a ∧ rest = bytesOf after

theorem accepts_pure (a : α) : Accepts (pure a) fun text b => text = [] ∧ b = a := by
  intro cs b rest hok
  cases hok
  exact ⟨[], cs, rfl, ⟨rfl, rfl⟩, rfl⟩

theorem accepts_throw (fault : Fault) (P : List Char → α → Prop) : Accepts (throw fault) P := by
  intro cs a rest hok
  cases hok

theorem Accepts.bind {r : Reader α} {f : α → Reader β} {P : List Char → α → Prop}
    {Q : α → List Char → β → Prop} (hr : Accepts r P) (hf : ∀ a, Accepts (f a) (Q a)) :
    Accepts (r >>= f) fun text b => ∃ a left right, text = left ++ right ∧ P left a ∧ Q a right b := by
  intro cs b rest hok
  obtain ⟨a, middle, ha, hb⟩ := bind_eq_ok_iff.1 hok
  obtain ⟨left, after, rfl, hleft, rfl⟩ := hr cs a middle ha
  obtain ⟨right, after, rfl, hright, rfl⟩ := hf a after b rest hb
  exact ⟨left ++ right, after, (List.append_assoc _ _ _).symm, ⟨a, left, right, rfl, hleft, hright⟩,
    rfl⟩

theorem Accepts.mono {r : Reader α} {P Q : List Char → α → Prop} (h : Accepts r P)
    (hPQ : ∀ text a, P text a → Q text a) : Accepts r Q := by
  intro cs a rest hok
  obtain ⟨text, after, hcs, htext, hrest⟩ := h cs a rest hok
  exact ⟨text, after, hcs, hPQ text a htext, hrest⟩

theorem Accepts.map {r : Reader α} {P : List Char → α → Prop} (h : Accepts r P) (g : α → β) :
    Accepts (g <$> r) fun text b => ∃ a, P text a ∧ b = g a := by
  rw [map_eq_bind]
  refine (h.bind fun a => accepts_pure (g a)).mono ?_
  rintro _ _ ⟨a, left, _, rfl, hleft, rfl, rfl⟩
  rw [List.append_nil]
  exact ⟨a, hleft, rfl⟩

theorem accepts_word (text : List Char) (h : ∀ c ∈ text, c.toNat < 0x80) :
    Accepts (word (text.map Char.toUInt8)) fun text' _ => text' = text := by
  intro cs _ rest hok
  induction text generalizing cs with
  | nil =>
    cases hok
    exact ⟨[], cs, rfl, rfl, rfl⟩
  | cons c text ih =>
    rw [List.forall_mem_cons] at h
    obtain ⟨b, middle, hnext, hok⟩ := bind_eq_ok_iff.1 hok
    split at hok
    · next hb =>
      subst hb
      cases hbytes : bytesOf cs with
      | nil =>
        rw [hbytes] at hnext
        cases hnext
      | cons b tail =>
        rw [hbytes] at hnext
        cases hnext
        obtain ⟨after, rfl, rfl⟩ := exists_cons_of_bytesOf h.1 hbytes
        obtain ⟨text', after, rfl, hword, hrest⟩ := ih h.2 after hok
        exact ⟨c :: text', after, rfl, by rw [hword], hrest⟩
    · cases hok

/-! ## White space -/

theorem spaces_nil : Spaces [] := fun _ h => absurd h List.not_mem_nil

theorem Spaces.append {spaces spaces' : List Char} (h : Spaces spaces) (h' : Spaces spaces') :
    Spaces (spaces ++ spaces') := by
  intro c hc
  rcases List.mem_append.1 hc with hc | hc
  · exact h c hc
  · exact h' c hc

theorem isNumberByte_of_isSpace : ∀ b : UInt8, isSpace b → isNumberByte b = false := by
  decide +kernel

theorem isSpace_toUInt8 {c : Char} (h : c ∈ [' ', '\t', '\n', '\r']) :
    c.toNat < 0x80 ∧ isSpace c.toUInt8 := by
  simp only [List.mem_cons, List.not_mem_nil, or_false] at h
  rcases h with rfl | rfl | rfl | rfl <;> decide

theorem asciiChar_mem_of_isSpace {b : UInt8} (h : isSpace b) :
    b.toNat < 0x80 ∧ asciiChar b ∈ [' ', '\t', '\n', '\r'] := by
  simp only [isSpace, Bool.or_eq_true, decide_eq_true_eq] at h
  rcases h with ((rfl | rfl) | rfl) | rfl <;> decide

theorem isSpace_of_mem_bytesOf {spaces : List Char} (h : Spaces spaces) :
    ∀ b ∈ bytesOf spaces, isSpace b := by
  intro b hb
  obtain ⟨c, hc, hb⟩ := List.mem_flatMap.1 hb
  obtain ⟨hascii, hspace⟩ := isSpace_toUInt8 (h c hc)
  rw [utf8EncodeChar_ascii hascii, List.mem_singleton] at hb
  rw [hb, hspace]

/-- White space in front is passed over. -/
theorem dropWhile_isSpace_append {spaces : List Char} (h : Spaces spaces) (input : List UInt8) :
    (bytesOf spaces ++ input).dropWhile isSpace = input.dropWhile isSpace :=
  List.dropWhile_append_of_pos (isSpace_of_mem_bytesOf h)

/-- What has been passed over is white space. -/
theorem exists_spaces_of_dropWhile {cs : List Char} {rest : List UInt8}
    (h : (bytesOf cs).dropWhile isSpace = rest) :
    ∃ spaces after, cs = spaces ++ after ∧ Spaces spaces ∧ rest = bytesOf after := by
  have hspaces : ∀ b ∈ (bytesOf cs).takeWhile isSpace, isSpace b := fun b hb =>
    List.mem_takeWhile_imp hb
  have hsplit := (List.takeWhile_append_dropWhile (p := isSpace) (l := bytesOf cs)).symm
  rw [h] at hsplit
  obtain ⟨after, hcs, hrest⟩ :=
    bytesOf_eq_append hsplit fun b hb => (asciiChar_mem_of_isSpace (hspaces b hb)).1
  refine ⟨_, after, hcs, fun c hc => ?_, hrest⟩
  obtain ⟨b, hb, rfl⟩ := List.mem_map.1 hc
  exact (asciiChar_mem_of_isSpace (hspaces b hb)).2

theorem spaces_of_isSpace {cs : List Char} (h : ∀ b ∈ bytesOf cs, isSpace b) : Spaces cs := by
  obtain ⟨spaces, after, rfl, hspaces, hafter⟩ :=
    exists_spaces_of_dropWhile (List.dropWhile_eq_nil_iff.2 h)
  rw [bytesOf_eq_nil_iff.1 hafter.symm, List.append_nil]
  exact hspaces

/-- White space in front of a text of a language. -/
def Spaced (P : List Char → α → Prop) (text : List Char) (a : α) : Prop :=
  ∃ spaces body, text = spaces ++ body ∧ Spaces spaces ∧ P body a

theorem accepts_symbol {c : Char} (hc : c.toNat < 0x80) :
    Accepts (symbol c.toUInt8) (Spaced fun text _ => text = [c]) := by
  intro cs _ rest hok
  obtain ⟨spaces, middle, rfl, hspaces, hmiddle⟩ :=
    exists_spaces_of_dropWhile (symbol_eq_ok_iff.1 hok)
  obtain ⟨after, rfl, hrest⟩ := exists_cons_of_bytesOf hc hmiddle.symm
  refine ⟨spaces ++ [c], after, ?_, ⟨spaces, [c], rfl, hspaces, rfl⟩, hrest⟩
  rw [List.append_assoc, List.singleton_append]

/-- Readers that begin by passing over white space. -/
def Skips (r : Reader α) : Prop :=
  ∀ spaces input, Spaces spaces → r (bytesOf spaces ++ input) = r input

theorem skips_peek : Skips peek := by
  intro spaces input hspaces
  rw [peek, peek, dropWhile_isSpace_append hspaces]

theorem Skips.bind {r : Reader α} (h : Skips r) (f : α → Reader β) : Skips (r >>= f) := by
  intro spaces input hspaces
  show (r (bytesOf spaces ++ input) >>= fun out => f out.1 out.2) = _
  rw [h spaces input hspaces]
  rfl

end RecordFilter.Json
