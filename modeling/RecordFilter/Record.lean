import RecordFilter.Literal

/-!
# Records

A record is a list of slots.  A slot holds a single value, a nested record, or nothing.  A route is a
list of slot numbers that leads from a record through nested records to a value; following a route
through a slot that holds nothing, or something that is no record, arrives at nothing.
-/

namespace RecordFilter

open Number

/-- What a slot of a record holds. -/
inductive FieldValue
  | absent
  | int (n : Int64)
  | float (x : Binary64)
  | bool (b : Bool)
  | string (s : String)
  | record (slots : List FieldValue)

/-- A record, slot by slot. -/
abbrev Record := List FieldValue

namespace FieldValue

/-- What a slot of a nested record holds. -/
def slot : FieldValue → Nat → FieldValue
  | .record slots, i => slots.getD i .absent
  | _, _ => .absent

/-- The value at the end of a route. -/
def follow (value : FieldValue) (route : List Nat) : FieldValue :=
  route.foldl slot value

/-- The whole number that a slot holds. -/
def int? : FieldValue → Option Int64
  | .int n => some n
  | _ => none

/-- The float that a slot holds. -/
def float? : FieldValue → Option Binary64
  | .float x => some x
  | _ => none

/-- The truth value that a slot holds. -/
def bool? : FieldValue → Option Bool
  | .bool b => some b
  | _ => none

/-- The string that a slot holds. -/
def string? : FieldValue → Option String
  | .string s => some s
  | _ => none

@[simp] theorem follow_nil (value : FieldValue) : value.follow [] = value := rfl

@[simp] theorem follow_cons (value : FieldValue) (i : Nat) (route : List Nat) :
    value.follow (i :: route) = (value.slot i).follow route := rfl

/-- A route may be followed in two parts. -/
theorem follow_append (value : FieldValue) (first second : List Nat) :
    value.follow (first ++ second) = (value.follow first).follow second := by
  simp [follow]

/-- Nothing is reached from nothing. -/
@[simp] theorem follow_absent (route : List Nat) : FieldValue.absent.follow route = .absent := by
  induction route with
  | nil => rfl
  | cons i route ih => exact ih

end FieldValue

/-- The value at the end of a route that starts from a record. -/
def Record.read (record : Record) (route : List Nat) : FieldValue :=
  (FieldValue.record record).follow route

end RecordFilter
