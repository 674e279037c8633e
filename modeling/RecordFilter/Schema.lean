import RecordFilter.Literal
import RecordFilter.Text.Quoted
import Std.Data.TreeMap

/-!
# Schemas

The fields of a record type are declared one after the other; declaration number `i` describes slot
`i` of the record.  A name that is declared again keeps its place among the fields, but its kind and
its slot are those of the new declaration.

A schema is what a list of declarations amounts to: the fields in the order in which their names were
first declared, and an index from names to positions.  A family is a list of record types, which may
nest each other and themselves; its first type is the one that rule sets speak about.
-/

namespace RecordFilter

/-! ## Declarations -/

/-- What a field holds: a single value, or a record of one of the family's types. -/
inductive FieldKind
  | scalar (type : ScalarType)
  | record (type : Nat)
deriving DecidableEq

/-- The type of a field, as messages name it. -/
inductive FieldType
  | scalar (type : ScalarType)
  | record
deriving DecidableEq

/-- The name of a field type. -/
def FieldType.name : FieldType → String
  | .scalar type => type.name
  | .record => "record"

/-- The type of a field of a given kind. -/
def FieldKind.fieldType : FieldKind → FieldType
  | .scalar type => .scalar type
  | .record _ => .record

/-- One declared field.  The value it describes may be absent from a record. -/
structure Declaration where
  name : String
  kind : FieldKind
deriving DecidableEq

/-! ## Schemas -/

/-- A field of a schema. -/
structure Field where
  name : String
  kind : FieldKind
  /-- The slot of the record that holds the field's value. -/
  slot : Nat
deriving DecidableEq

/-- The fields of a record type. -/
structure Schema where
  /-- The fields, in the order in which their names were first declared. -/
  fields : List Field
  /-- The position of each name among the fields. -/
  index : Std.TreeMap String Nat
  /-- The number of declarations, which is the slot of the next one. -/
  slots : Nat

namespace Schema

/-- The schema of no declaration. -/
def empty : Schema := ⟨[], ∅, 0⟩

/-- The schema after one more declaration. -/
def declare (schema : Schema) (d : Declaration) : Schema :=
  let field : Field := ⟨d.name, d.kind, schema.slots⟩
  match schema.index[d.name]? with
  | some i => { schema with fields := schema.fields.set i field, slots := schema.slots + 1 }
  | none =>
    { fields := schema.fields ++ [field]
      index := schema.index.insert d.name schema.fields.length
      slots := schema.slots + 1 }

/-- The schema of a list of declarations. -/
def ofDeclarations (ds : List Declaration) : Schema :=
  ds.foldl declare empty

/-- The field of a given name. -/
def lookup (schema : Schema) (name : String) : Option Field :=
  schema.index[name]?.bind fun i => schema.fields[i]?

/-- The type of the field of a given name. -/
def fieldType (schema : Schema) (name : String) : Option FieldType :=
  (schema.lookup name).map fun field => field.kind.fieldType

/-- The names of the fields, in order. -/
def names (schema : Schema) : List String :=
  schema.fields.map Field.name

/-- The number of fields. -/
def size (schema : Schema) : Nat :=
  schema.fields.length

/-- Whether there is no field. -/
def isEmpty (schema : Schema) : Bool :=
  schema.fields.isEmpty

/-- A description of the schema of a named record type. -/
def describe (schema : Schema) (record : String) : String :=
  "Schema \x7b record: " ++ Text.quoted record ++ ", fields: " ++ Text.quotedList schema.names ++
    " \x7d"

end Schema

/-! ## Families -/

/-- Record types by number, each given by its declarations. -/
abbrev Family := List (List Declaration)

/-- The schema of a type of the family; there are no fields in a type that the family lacks. -/
def Family.schema (family : Family) (type : Nat) : Schema :=
  .ofDeclarations (family.getD type [])

/-- The type that rule sets speak about. -/
def Family.root : Nat := 0

end RecordFilter
