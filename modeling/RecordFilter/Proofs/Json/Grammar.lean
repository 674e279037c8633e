import RecordFilter.Json.Tree

/-!
# The grammar of JSON

Which texts are JSON, and which tree each of them denotes, said without a reader.  A text is
a list of characters.  Every relation here is between such a text and what it stands for.

* Lists of elements and members are `Enclosed`: an item, then a comma and an item as often
  as one likes, with white space on either side of each.
* `ValueText` is by recursion on how deep containers may nest.
* What a number is worth is left open.  A token without a value makes no text.

An escaped surrogate is half a character: `EscapeText` has it in pairs only.
-/

namespace RecordFilter.Json

/-- White space between tokens: space, tab, line feed and carriage return. -/
def Spaces (text : List Char) : Prop :=
  ∀ c ∈ text, c ∈ [' ', '\t', '\n', '\r']

/-! ## Strings -/

/-- A hexadecimal digit in either case. -/
def HexDigit (c : Char) (n : Nat) : Prop :=
  n < 16 ∧ c ∈ [Nat.digitChar n, (Nat.digitChar n).toUpper]

instance (c : Char) (n : Nat) : Decidable (HexDigit c n) :=
  inferInstanceAs (Decidable (_ ∧ _))

/-- Four hexadecimal digits, the highest first. -/
inductive HexText : List Char → Nat → Prop
  | four {a b c d : Char} {i j k l : Nat} : HexDigit a i → HexDigit b j → HexDigit c k →
      HexDigit d l → HexText [a, b, c, d] (((i * 16 + j) * 16 + k) * 16 + l)

/-- A letter that stands for a character when it is escaped. -/
def ShortEscape (letter c : Char) : Prop :=
  (letter, c) ∈ [('"', '"'), ('\\', '\\'), ('/', '/'), ('b', '\x08'), ('f', '\x0c'), ('n', '\n'),
    ('r', '\r'), ('t', '\t')]

instance (letter c : Char) : Decidable (ShortEscape letter c) :=
  inferInstanceAs (Decidable (_ ∈ _))

/-- What follows the backslash of an escape: a letter, the number of a character, or, for a
character outside the first plane, two numbers with ten bits of it each. -/
inductive EscapeText : List Char → Char → Prop
  | letter {letter c : Char} : ShortEscape letter c → EscapeText [letter] c
  | number {digits : List Char} {c : Char} : HexText digits c.toNat → EscapeText ('u' :: digits) c
  | pair {leading trailing : List Char} {c : Char} {high low : Nat} : high < 0x400 → low < 0x400 →
      HexText leading (0xD800 + high) → HexText trailing (0xDC00 + low) →
      c.toNat = 0x10000 + (high * 0x400 + low) →
      EscapeText ('u' :: leading ++ '\\' :: 'u' :: trailing) c

/-- What stands between the quotes of a string, and the characters that it spells. -/
inductive StringText : List Char → List Char → Prop
  | nil : StringText [] []
  | plain {c : Char} {text chars : List Char} : c ≠ '"' → c ≠ '\\' → 0x20 ≤ c.toNat →
      StringText text chars → StringText (c :: text) (c :: chars)
  | escape {c : Char} {escape text chars : List Char} : EscapeText escape c →
      StringText text chars → StringText ('\\' :: escape ++ text) (c :: chars)

/-- A string between quotes. -/
inductive QuotedText : List Char → String → Prop
  | quoted {text : List Char} {s : String} : StringText text s.toList →
      QuotedText ('"' :: text ++ ['"']) s

/-! ## Numbers -/

/-- The characters that numbers are made of. -/
def numberChars : List Char :=
  ['0', '1', '2', '3', '4', '5', '6', '7', '8', '9', '+', '-', '.', 'e', 'E']

/-- Decimal digits, at least one. -/
def DigitText (text : List Char) (ds : List Nat) : Prop :=
  ds ≠ [] ∧ (∀ d ∈ ds, d < 10) ∧ text = ds.map Nat.digitChar

/-- The sign of a number, and whether it is a minus. -/
inductive SignText : List Char → Bool → Prop
  | none : SignText [] false
  | minus : SignText ['-'] true

/-- The digits of a number before the point.  A zero in front is the only digit. -/
def WholeText (text : List Char) (ds : List Nat) : Prop :=
  DigitText text ds ∧ (ds.head? = some 0 → ds = [0])

/-- The point and the digits after it, which may be left out together. -/
inductive FractionText : List Char → List Nat → Prop
  | none : FractionText [] []
  | digits {text : List Char} {ds : List Nat} : DigitText text ds → FractionText ('.' :: text) ds

/-- The sign of an exponent, where a plus may stand. -/
inductive ExponentSignText : List Char → Bool → Prop
  | sign {text : List Char} {negative : Bool} : SignText text negative →
      ExponentSignText text negative
  | plus : ExponentSignText ['+'] false

/-- An exponent, which may be left out. -/
inductive ExponentText : List Char → Option (Bool × List Nat) → Prop
  | none : ExponentText [] none
  | digits {e : Char} {sign text : List Char} {negative : Bool} {ds : List Nat} : e ∈ ['e', 'E'] →
      ExponentSignText sign negative → DigitText text ds →
      ExponentText (e :: sign ++ text) (some (negative, ds))

/-- A number as it is written. -/
inductive NumeralText : List Char → Numeral → Prop
  | parts {sign wholeText fractionText exponentText : List Char} {negative : Bool}
      {whole fraction : List Nat} {exponent : Option (Bool × List Nat)} : SignText sign negative →
      WholeText wholeText whole → FractionText fractionText fraction →
      ExponentText exponentText exponent →
      NumeralText (sign ++ (wholeText ++ (fractionText ++ exponentText)))
        ⟨negative, whole, fraction, exponent⟩

/-! ## Arrays and objects -/

section Lists

variable {α : Type} (Item : List Char → α → Prop)

/-- The items that follow one, each after a comma, and the white space behind the last. -/
inductive Following : List Char → List α → Prop
  | done {spaces : List Char} : Spaces spaces → Following spaces []
  | next {before between text rest : List Char} {a : α} {as : List α} : Spaces before →
      Spaces between → Item text a → Following rest as →
      Following (before ++ ',' :: (between ++ (text ++ rest))) (a :: as)

/-- Items between an opening and a closing character. -/
inductive Enclosed (opening closing : Char) : List Char → List α → Prop
  | empty {spaces : List Char} : Spaces spaces →
      Enclosed opening closing (opening :: (spaces ++ [closing])) []
  | items {spaces text rest : List Char} {a : α} {as : List α} : Spaces spaces → Item text a →
      Following Item rest as →
      Enclosed opening closing (opening :: (spaces ++ (text ++ (rest ++ [closing])))) (a :: as)

end Lists

/-- A member of an object: a name, a colon and a value. -/
inductive MemberText (Value : List Char → Tree → Prop) : List Char → String × Tree → Prop
  | member {nameText before between text : List Char} {name : String} {tree : Tree} :
      QuotedText nameText name → Spaces before → Spaces between → Value text tree →
      MemberText Value (nameText ++ (before ++ ':' :: (between ++ text))) (name, tree)

/-! ## Values -/

section Values

variable (value? : Numeral → Option NumberValue)

/-- A value; its arrays and objects are the given ones. -/
inductive ValueTextWith (Array : List Char → List Tree → Prop)
    (Object : List Char → List (String × Tree) → Prop) : List Char → Tree → Prop
  | null : ValueTextWith Array Object ['n', 'u', 'l', 'l'] .null
  | true : ValueTextWith Array Object ['t', 'r', 'u', 'e'] (.bool true)
  | false : ValueTextWith Array Object ['f', 'a', 'l', 's', 'e'] (.bool false)
  | number {text : List Char} {t : Numeral} {v : NumberValue} : NumeralText text t →
      value? t = some v → ValueTextWith Array Object text (.number v)
  | string {text : List Char} {s : String} : QuotedText text s →
      ValueTextWith Array Object text (.string s)
  | array {text : List Char} {elements : List Tree} : Array text elements →
      ValueTextWith Array Object text (.array elements)
  | object {text : List Char} {members : List (String × Tree)} : Object text members →
      ValueTextWith Array Object text (.object members)

/-- A value whose arrays and objects nest at most as deep as given. -/
def ValueText : Nat → List Char → Tree → Prop
  | 0 => ValueTextWith value? (fun _ _ => False) (fun _ _ => False)
  | depth + 1 =>
    ValueTextWith value? (Enclosed (ValueText depth) '[' ']')
      (Enclosed (MemberText (ValueText depth)) '\x7b' '\x7d')

section

variable {value?} {depth : Nat} {text : List Char}

theorem ValueText.number {t : Numeral} {v : NumberValue} (h : NumeralText text t)
    (hvalue : value? t = some v) : ValueText value? depth text (.number v) := by
  cases depth <;> exact ValueTextWith.number h hvalue

theorem ValueText.string {s : String} (h : QuotedText text s) :
    ValueText value? depth text (.string s) := by
  cases depth <;> exact ValueTextWith.string h

theorem ValueText.array {elements : List Tree}
    (h : Enclosed (ValueText value? depth) '[' ']' text elements) :
    ValueText value? (depth + 1) text (.array elements) :=
  ValueTextWith.array h

end

/-- A whole text: a value with white space around it. -/
inductive DocumentText (depth : Nat) : List Char → Tree → Prop
  | document {before text after : List Char} {tree : Tree} : Spaces before →
      ValueText value? depth text tree → Spaces after →
      DocumentText depth (before ++ (text ++ after)) tree

end Values

end RecordFilter.Json
