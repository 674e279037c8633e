import RecordFilter.Text.Printable

/-!
# Quoted texts

The quoted form of a text, used wherever a message or a description shows a name: the text between
double quotes, with the quote, the backslash, the usual control characters and everything that is not
printable escaped.  An escaped code point is written in lower-case hexadecimal between braces.
-/

namespace RecordFilter.Text

/-- How one character is written inside a quoted text. -/
def quotedChar (c : Char) : List Char :=
  if c = '\x00' then ['\\', '0']
  else if c = '\t' then ['\\', 't']
  else if c = '\n' then ['\\', 'n']
  else if c = '\r' then ['\\', 'r']
  else if c = '"' ∨ c = '\\' then ['\\', c]
  else if isPrintable c then [c]
  else ['\\', 'u', '\x7b'] ++ Nat.toDigits 16 c.toNat ++ ['\x7d']

/-- A text between double quotes. -/
def quoted (s : String) : String :=
  String.ofList (['"'] ++ s.toList.flatMap quotedChar ++ ['"'])

/-- Several quoted texts between brackets. -/
def quotedList (texts : List String) : String :=
  "[" ++ ", ".intercalate (texts.map quoted) ++ "]"

end RecordFilter.Text
