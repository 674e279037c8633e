import RecordFilter.Json.Decode

/-!
# The form of a rule set

Which JSON values are rule sets, said of trees that are there as a whole.  What matters of
the members of an object is which of them go by a name (`valuesOf`), not the order in which
they come.

A member that may be left out is `atMostOne?`.  It has two spellings, and giving it once
under each is giving it twice.
-/

namespace RecordFilter

open Json

namespace Json

/-! ## Members -/

/-- The values of the members that go by one of some names. -/
def valuesOf (names : List String) (members : List (String × Tree)) : List Tree :=
  (members.filter fun member => member.1 ∈ names).map Prod.snd

/-- What the member is decoded to that goes by one of some names, if there is such a member.
There may not be two. -/
def atMostOne? {α : Type} (names : List String) (decode? : Tree → Option α)
    (members : List (String × Tree)) : Option (Option α) :=
  match valuesOf names members with
  | [] => some none
  | [tree] => (decode? tree).map some
  | _ :: _ :: _ => none

/-- Whether every member goes by one of some names. -/
def onlyNamed (names : List String) (members : List (String × Tree)) : Bool :=
  members.all fun member => member.1 ∈ names

/-- The string that a value is. -/
def Tree.text? : Tree → Option String
  | .string s => some s
  | .null | .bool _ | .number _ | .array _ | .object _ => none

end Json

/-! ## Parts of conditions -/

/-- The operator that a value is: a name, or an object with the name for its one member. -/
def Operator.ofTree? : Tree → Option Operator
  | .string name => ofName? name
  | .object [(name, .null)] => ofName? name
  | _ => none

theorem Operator.ofTree?_object_eq_some_iff {members : List (String × Tree)} {op : Operator} :
    Operator.ofTree? (.object members) = some op ↔
      ∃ name, members = [(name, .null)] ∧ Operator.ofName? name = some op := by
  constructor
  · intro h
    unfold Operator.ofTree? at h
    split at h
    · next heq => cases heq
    · next heq =>
      cases heq
      exact ⟨_, rfl, h⟩
    · cases h
  · rintro ⟨name, rfl, h⟩
    exact h

/-- The literal that a value is, or none for `null`. -/
def Literal.orNull? : Tree → Option (Option Literal)
  | .null => some none
  | tree => (ofTree? tree).map some

/-! ## Conditions -/

namespace Condition

/-- The condition that the members of an object make up. -/
def ofMembers? (members : List (String × Tree)) : Option Condition :=
  if onlyNamed ["Field", "field", "Operator", "operator", "Value", "value"] members then do
    let field ← atMostOne? ["Field", "field"] Tree.text? members
    let operator ← atMostOne? ["Operator", "operator"] Operator.ofTree? members
    let value ← atMostOne? ["Value", "value"] Literal.orNull? members
    operator.map fun operator => ⟨field.getD "", operator, value.getD none⟩
  else none

/-- The condition that the elements of an array make up. -/
def ofElements? : List Tree → Option Condition
  | [field, operator] => do
    pure ⟨← field.text?, ← Operator.ofTree? operator, none⟩
  | [field, operator, value] => do
    pure ⟨← field.text?, ← Operator.ofTree? operator, ← Literal.orNull? value⟩
  | _ => none

/-- The condition that a value is. -/
def ofTree? : Tree → Option Condition
  | .object members => ofMembers? members
  | .array elements => ofElements? elements
  | .null | .bool _ | .number _ | .string _ => none

/-- The conditions that a value is. -/
def listOfTree? : Tree → Option (List Condition)
  | .array elements => elements.mapM ofTree?
  | .null | .bool _ | .number _ | .string _ | .object _ => none

end Condition

/-! ## Rule sets -/

/-- The connector that a value is, or none for `null` and the empty string. -/
def Connector.orNone? : Tree → Option (Option Connector)
  | .null => some none
  | .string name => if name = "" then some none else (ofName? name).map some
  | .bool _ | .number _ | .array _ | .object _ => none

namespace RuleSet

/-- The rule set that the members of an object make up. -/
def ofMembers? (members : List (String × Tree)) : Option RuleSet :=
  if onlyNamed ["Connector", "connector", "Conditions", "conditions"] members then do
    let connector ← atMostOne? ["Connector", "connector"] Connector.orNone? members
    let conditions ← atMostOne? ["Conditions", "conditions"] Condition.listOfTree? members
    pure ⟨connector.getD none, conditions.getD []⟩
  else none

/-- The rule set that the elements of an array make up. -/
def ofElements? : List Tree → Option RuleSet
  | [] => some ⟨none, []⟩
  | [connector] => do
    pure ⟨← Connector.orNone? connector, []⟩
  | [connector, conditions] => do
    pure ⟨← Connector.orNone? connector, ← Condition.listOfTree? conditions⟩
  | _ => none

/-- The rule set that a value is. -/
def ofTree? : Tree → Option RuleSet
  | .object members => ofMembers? members
  | .array elements => ofElements? elements
  | .null | .bool _ | .number _ | .string _ => none

end RuleSet

end RecordFilter
