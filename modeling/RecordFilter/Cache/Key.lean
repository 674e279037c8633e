import RecordFilter.RuleSet
import RecordFilter.Text.Utf8

/-!
# Content keys

The key of a rule set is a sequence of bytes that spells its whole content.  Every part that varies in
length is led by its length, and every part that varies in kind by a byte for the kind, so that rule
sets with different content have different keys.  Floats are spelled by their bits: zero and minus
zero have different keys, and a value that is not a number has the same key each time.
-/

namespace RecordFilter.Cache

open Number

/-- The lowest `count` bytes of a number, lowest first. -/
def littleEndian : (count n : Nat) → List UInt8
  | 0, _ => []
  | count + 1, n => .ofNat (n % 256) :: littleEndian count (n / 256)

/-- A count, in eight bytes. -/
def countKey (n : Nat) : List UInt8 :=
  littleEndian 8 n

/-- The number of bytes of a string, then the bytes. -/
def stringKey (s : String) : List UInt8 :=
  countKey (Text.utf8 s).length ++ Text.utf8 s

/-- A byte for the kind of a literal, then its content. -/
def literalKey : Option Literal → List UInt8
  | none => [0]
  | some (.bool b) => [1, if b then 1 else 0]
  | some (.int n) => 2 :: littleEndian 8 n.toUInt64.toNat
  | some (.float x) => 3 :: littleEndian 8 x.toBits
  | some (.string s) => 4 :: stringKey s

/-- The content of a condition. -/
def conditionKey (c : Condition) : List UInt8 :=
  stringKey c.field ++ [.ofNat c.operator.index] ++ literalKey c.value

/-- Whether there is a connector, then which. -/
def connectorKey : Option Connector → List UInt8
  | none => [0]
  | some connector => [1, .ofNat connector.index]

/-- The whole content of a rule set. -/
def key (rules : RuleSet) : List UInt8 :=
  connectorKey rules.connector ++ countKey rules.conditions.length ++
    rules.conditions.flatMap conditionKey

end RecordFilter.Cache
