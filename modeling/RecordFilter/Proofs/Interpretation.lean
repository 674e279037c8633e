import Mathlib
import RecordFilter.Compile
import RecordFilter.Proofs.Path
import RecordFilter.Proofs.Schema

/-!
# Rule sets read directly

This module says what a rule set means for a record without compiling it.  There are no
schemas here, no routes and no tests: a path is followed name by name through the
declarations of the family, in the record at hand, and the value found is compared with the
literal.

* `Reads` is the walk that arrives at a single value, and `MeetsAbsence` the walk that comes
  upon something absent.  Each name goes to the slot of its last declaration.
* `Literal.fit?` is the literal as a value of the type at the end of the walk.
* `Operator.Relates` is the comparison of two values of one type.
* `Condition.Holds` and `RuleSet.Holds` put the three together.
-/

namespace RecordFilter

open Number

/-! ## Walks -/

/-- The single value of a given type that a slot holds. -/
def FieldValue.literal? : ScalarType → FieldValue → Option Literal
  | .int, .int n => some (.int n)
  | .float, .float x => some (.float x)
  | .bool, .bool b => some (.bool b)
  | .string, .string s => some (.string s)
  | _, _ => none

/-- Names lead from a record of a type to a single value: every name but the last to a
record that is there, and the last one to a value that is there. -/
inductive Reads (family : Family) :
    (type : Nat) → (record : Record) → List String → ScalarType → Literal → Prop
  | leaf {type record name slot scalar value}
      (hdeclared : LastDeclared (family.getD type []) name slot (.scalar scalar))
      (hvalue : (record.getD slot .absent).literal? scalar = some value) :
      Reads family type record [name] scalar value
  | inward {type record name slot inner slots names scalar value}
      (hdeclared : LastDeclared (family.getD type []) name slot (.record inner))
      (hrecord : record.getD slot .absent = .record slots)
      (htail : Reads family inner slots names scalar value) :
      Reads family type record (name :: names) scalar value

/-- Names lead from a record of a type to something absent: a value at the end, or a record
on the way. -/
inductive MeetsAbsence (family : Family) : (type : Nat) → (record : Record) → List String → Prop
  | leaf {type record name slot scalar}
      (hdeclared : LastDeclared (family.getD type []) name slot (.scalar scalar))
      (habsent : record.getD slot .absent = .absent) :
      MeetsAbsence family type record [name]
  | link {type record name slot inner names}
      (hdeclared : LastDeclared (family.getD type []) name slot (.record inner))
      (habsent : record.getD slot .absent = .absent) :
      MeetsAbsence family type record (name :: names)
  | inward {type record name slot inner slots names}
      (hdeclared : LastDeclared (family.getD type []) name slot (.record inner))
      (hrecord : record.getD slot .absent = .record slots)
      (htail : MeetsAbsence family inner slots names) :
      MeetsAbsence family type record (name :: names)

section Walks

variable {family : Family} {type : Nat} {record : Record} {name : String} {names : List String}
  {slot : Nat} {scalar scalar' : ScalarType} {value : Literal}

/-- The name of a single value reads what is in its slot. -/
theorem reads_last_iff (h : LastDeclared (family.getD type []) name slot (.scalar scalar)) :
    Reads family type record [name] scalar' value ↔
      scalar' = scalar ∧ (record.getD slot .absent).literal? scalar = some value := by
  constructor
  · intro hreads
    cases hreads with
    | leaf hdeclared hvalue =>
      obtain ⟨rfl, hkind⟩ := h.unique hdeclared
      cases hkind
      exact ⟨rfl, hvalue⟩
    | inward hdeclared _ _ =>
      obtain ⟨-, hkind⟩ := h.unique hdeclared
      cases hkind
  · rintro ⟨rfl, hvalue⟩
    exact .leaf h hvalue

/-- The name of a record is read through the record in its slot. -/
theorem reads_inward_iff {inner : Nat}
    (h : LastDeclared (family.getD type []) name slot (.record inner)) :
    Reads family type record (name :: names) scalar value ↔
      ∃ slots, record.getD slot .absent = .record slots ∧
        Reads family inner slots names scalar value := by
  constructor
  · intro hreads
    cases hreads with
    | leaf hdeclared _ =>
      obtain ⟨-, hkind⟩ := h.unique hdeclared
      cases hkind
    | inward hdeclared hrecord htail =>
      obtain ⟨rfl, hkind⟩ := h.unique hdeclared
      cases hkind
      exact ⟨_, hrecord, htail⟩
  · rintro ⟨slots, hrecord, htail⟩
    exact .inward h hrecord htail

end Walks

/-! ## Comparisons -/

/-- The literal as a value of a given type. -/
def Literal.fit? (options : CompileOptions) (literal : Literal) : ScalarType → Option Literal
  | .int => literal.toInt?.map .int
  | .float => literal.toFloat?.map .float
  | .bool => literal.toBool?.map .bool
  | .string => (literal.toString? options.stringCoercion).map .string

/-- Whether two values of one type compare as an operator asks.  Only numbers are ordered,
and only strings contain one another. -/
def Operator.Relates : Operator → Literal → Literal → Prop
  | .equal, a, b => a.equal b = true
  | .notEqual, a, b => a.equal b = false
  | .greaterThan, .int a, .int b => b < a
  | .greaterThan, .float a, .float b => b.less a = true
  | .lessThan, .int a, .int b => a < b
  | .lessThan, .float a, .float b => a.less b = true
  | .contains, .string a, .string b => b.toList <:+: a.toList
  | _, _, _ => False

/-! ## Rule sets -/

/-- A condition holds when its path leads to a value, and the value compares with the
literal, taken as a value of the same type. -/
def Condition.Holds (options : CompileOptions) (family : Family) (record : Record)
    (c : Condition) : Prop :=
  ∃ names scalar value literal operand,
    Path.Spells c.field names ∧ Reads family Family.root record names scalar value ∧
      c.value = some literal ∧ literal.fit? options scalar = some operand ∧
        c.operator.Relates value operand

/-- A rule set holds when all of its conditions hold, or one of them, as the connector says.
-/
def RuleSet.Holds (options : CompileOptions) (family : Family) (record : Record)
    (rules : RuleSet) : Prop :=
  match rules.connector with
  | some .and => ∀ c ∈ rules.conditions, c.Holds options family record
  | some .or => ∃ c ∈ rules.conditions, c.Holds options family record
  | none => False

/-- A fitted literal has the type that it was fitted to. -/
theorem Literal.kind_of_fit? {options : CompileOptions} {literal operand : Literal}
    {scalar : ScalarType} (h : literal.fit? options scalar = some operand) :
    operand.kind = scalar := by
  cases scalar <;> obtain ⟨_, -, rfl⟩ := Option.map_eq_some_iff.1 h <;> rfl

end RecordFilter
