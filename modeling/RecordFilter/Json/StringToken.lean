import RecordFilter.Json.Reader
import RecordFilter.Text.Utf8

/-!
# Strings in JSON

A string is read from the byte after its opening quote to its closing quote.  Bytes stand for
themselves but for the backslash, which begins an escape, and the control characters, which may not
occur.  Characters outside the first plane are escaped as a pair of surrogates; one of a pair alone is
an error.  When the closing quote has been read the bytes must be UTF-8.

Bytes that come as a stream are checked for that (`StringCheck.strict`).  The bytes of a text are UTF-8
before they are read, so a reader of texts may take any string for what it is.
-/

namespace RecordFilter.Json

/-- What the bytes of a string are taken for when its closing quote has been read.  UTF-8 is taken for
the text that it spells. -/
class StringCheck where
  text : List UInt8 → Except Fault String
  text_utf8 : ∀ s, text (Text.utf8 s) = .ok s

/-- Bytes that are not UTF-8 break the rules of JSON. -/
instance StringCheck.strict : StringCheck where
  text bytes :=
    match Text.ofUtf8? bytes with
    | some s => .ok s
    | none => .error .malformed
  text_utf8 s := by rw [Text.ofUtf8?_utf8]

/-- No check is made.  The empty string stands for bytes that are not UTF-8, which no string of a text
has. -/
abbrev StringCheck.unchecked : StringCheck where
  text bytes := .ok ((Text.ofUtf8? bytes).getD "")
  text_utf8 s := by rw [Text.ofUtf8?_utf8, Option.getD_some]

theorem StringCheck.strict_text (bytes : List UInt8) :
    @StringCheck.text .strict bytes =
      match Text.ofUtf8? bytes with
      | some s => .ok s
      | none => .error .malformed := rfl

theorem StringCheck.strict_text_eq_ok_iff {bytes : List UInt8} {s : String} :
    @StringCheck.text .strict bytes = .ok s ↔ Text.ofUtf8? bytes = some s := by
  rw [strict_text]
  cases Text.ofUtf8? bytes <;> simp

namespace StringToken

/-! ## Escapes -/

/-- The value of a hexadecimal digit in either case. -/
def hexValue? (b : UInt8) : Option Nat :=
  let n := b.toNat
  if '0'.toNat ≤ n ∧ n ≤ '9'.toNat then some (n - '0'.toNat)
  else if 'a'.toNat ≤ n ∧ n ≤ 'f'.toNat then some (n - 'a'.toNat + 10)
  else if 'A'.toNat ≤ n ∧ n ≤ 'F'.toNat then some (n - 'A'.toNat + 10)
  else none

/-- The number that four hexadecimal digits spell. -/
def hexNumber? (a b c d : UInt8) : Option Nat := do
  let a ← hexValue? a
  let b ← hexValue? b
  let c ← hexValue? c
  let d ← hexValue? d
  pure (((a * 16 + b) * 16 + c) * 16 + d)

/-- Takes four hexadecimal digits.  All four bytes must be there before the digits are looked at. -/
def hexNumber : Reader Nat
  | a :: b :: c :: d :: rest =>
    match hexNumber? a b c d with
    | some n => .ok (n, rest)
    | none => .error .malformed
  | _ => .error .endOfText

/-- Whether a code unit is the first of a pair of surrogates. -/
def isLeading (n : Nat) : Bool :=
  0xD800 ≤ n && n ≤ 0xDBFF

/-- Whether a code unit is the second of a pair of surrogates. -/
def isTrailing (n : Nat) : Bool :=
  0xDC00 ≤ n && n ≤ 0xDFFF

/-- The character that a pair of surrogates stands for. -/
def ofSurrogates (leading trailing : Nat) : Char :=
  .ofNat ((leading - 0xD800) * 0x400 + (trailing - 0xDC00) + 0x10000)

/-- Takes the digits of an escape by number, and those of a second one if the first needs it. -/
def numberedEscape : Reader Char := do
  let n ← hexNumber
  if isTrailing n then throw .malformed
  else if isLeading n then
    Reader.word ['\\'.toUInt8, 'u'.toUInt8]
    let m ← hexNumber
    if isTrailing m then pure (ofSurrogates n m) else throw .malformed
  else pure (.ofNat n)

/-- The characters escaped by one letter. -/
def letterEscapes : List (Char × Char) :=
  [('"', '"'), ('\\', '\\'), ('/', '/'), ('b', '\x08'), ('f', '\x0c'), ('n', '\n'), ('r', '\r'),
   ('t', '\t')]

/-- Takes what follows a backslash. -/
def escape : Reader Char := do
  let b ← Reader.next
  if b = 'u'.toUInt8 then numberedEscape
  else
    match letterEscapes.find? fun (letter, _) => letter.toUInt8 = b with
    | some (_, c) => pure c
    | none => throw .malformed

/-! ## Strings -/

/-- Takes one character's worth of a string whose bytes so far are given in reverse, or the closing
quote. -/
def step [StringCheck] (done : List UInt8) : Reader (List UInt8 ⊕ String) := do
  let b ← Reader.next
  if b = '"'.toUInt8 then
    match StringCheck.text done.reverse with
    | .ok s => pure (.inr s)
    | .error fault => throw fault
  else if b = '\\'.toUInt8 then
    let c ← escape
    pure (.inl ((String.utf8EncodeChar c).reverse ++ done))
  else if b < 0x20 then throw .malformed
  else pure (.inl (b :: done))

/-- Takes a string up to its closing quote. -/
def read [StringCheck] : Reader String :=
  Reader.iterate step []

/-! ## Writing -/

/-- How one character is written inside a string. -/
def escaped (c : Char) : List Char :=
  if c = '"' ∨ c = '\\' then ['\\', c]
  else if c = '\x08' then ['\\', 'b']
  else if c = '\t' then ['\\', 't']
  else if c = '\n' then ['\\', 'n']
  else if c = '\x0c' then ['\\', 'f']
  else if c = '\r' then ['\\', 'r']
  else if c.toNat < 0x20 then
    ['\\', 'u', '0', '0', Nat.digitChar (c.toNat / 16), Nat.digitChar (c.toNat % 16)]
  else [c]

/-- A string between quotes. -/
def write (s : String) : List Char :=
  ['"'] ++ s.toList.flatMap escaped ++ ['"']

end StringToken

end RecordFilter.Json
