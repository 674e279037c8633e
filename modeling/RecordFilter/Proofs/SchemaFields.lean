import Mathlib
import RecordFilter.Proofs.Schema

/-!
# The fields of a schema

A declaration either adds a field at the end or replaces one where it stands.  So the first
declaration of a name decides its place among the fields, and the last one its kind and its
slot.

* `ListsFirst` relates the names of the fields to those that were declared.  One more
  declaration keeps it (`ListsFirst.concat`), by `Indexed.names_declare`, which says what a
  declaration does to the names.
* `Schema.Describes` is all that a schema tells of its declarations, and
  `describes_ofDeclarations` says that every schema which is built from declarations tells it.

The index is the part that nobody sees.  It has the position of every name and of nothing
else (`Indexed.index_eq_some_iff`), and therefore no position that is out of range.
-/

namespace RecordFilter

/-! ## The order of names -/

/-- Names that were declared, each once, in the order in which they came up first. -/
structure ListsFirst (names declared : List String) : Prop where
  mem_iff : ∀ name, name ∈ names ↔ name ∈ declared
  ordered : names.Pairwise fun a b => declared.idxOf a < declared.idxOf b

theorem listsFirst_nil : ListsFirst [] [] :=
  ⟨fun _ => Iff.rfl, .nil⟩

/-- No name is listed twice. -/
theorem ListsFirst.nodup {names declared : List String} (h : ListsFirst names declared) :
    names.Nodup := by
  refine h.ordered.imp fun {a b} hlt hab => ?_
  rw [hab] at hlt
  exact Nat.lt_irrefl _ hlt

/-- One more name is listed at the end, unless it is listed already. -/
theorem ListsFirst.concat {names declared : List String} (h : ListsFirst names declared)
    (name : String) :
    ListsFirst (if name ∈ names then names else names ++ [name]) (declared ++ [name]) := by
  have hordered : names.Pairwise fun a b =>
      (declared ++ [name]).idxOf a < (declared ++ [name]).idxOf b := by
    refine h.ordered.imp_of_mem fun {a b} ha hb hlt => ?_
    rw [List.idxOf_append_of_mem ((h.mem_iff a).1 ha), List.idxOf_append_of_mem ((h.mem_iff b).1 hb)]
    exact hlt
  split
  · next hmem =>
    refine ⟨fun other => ?_, hordered⟩
    rw [h.mem_iff other, List.mem_append, List.mem_singleton]
    constructor
    · exact .inl
    · rintro (hother | rfl)
      · exact hother
      · exact (h.mem_iff other).1 hmem
  · next hmem =>
    refine ⟨fun other => by rw [List.mem_append, List.mem_append, h.mem_iff other], ?_⟩
    rw [List.pairwise_append]
    refine ⟨hordered, List.pairwise_singleton _ _, fun a ha b hb => ?_⟩
    -- a name that was not declared before comes up behind all that were
    obtain rfl := List.mem_singleton.1 hb
    have hfirst := (h.mem_iff a).1 ha
    rw [List.idxOf_append_of_mem hfirst,
      List.idxOf_append_of_notMem fun hdeclared => hmem ((h.mem_iff b).2 hdeclared)]
    have hlt := List.idxOf_lt_length_of_mem hfirst
    omega

namespace Schema

/-! ## Names and positions -/

/-- The index has the position of each name, and nothing else. -/
theorem Indexed.index_eq_some_iff {schema : Schema} (h : schema.Indexed) {name : String} {i : Nat} :
    schema.index[name]? = some i ↔ schema.names[i]? = some name := by
  rw [h name i, names, List.getElem?_map, Option.map_eq_some_iff]

theorem Indexed.index_eq_none_iff {schema : Schema} (h : schema.Indexed) {name : String} :
    schema.index[name]? = none ↔ name ∉ schema.names := by
  rw [Option.eq_none_iff_forall_ne_some, List.mem_iff_getElem?, not_exists]
  exact forall_congr' fun i => not_congr h.index_eq_some_iff

/-- A declaration adds its name at the end, unless there is a field of that name. -/
theorem Indexed.names_declare {schema : Schema} (h : schema.Indexed) (d : Declaration) :
    (schema.declare d).names =
      if d.name ∈ schema.names then schema.names else schema.names ++ [d.name] := by
  cases hindex : schema.index[d.name]? with
  | some k =>
    have hname := h.index_eq_some_iff.1 hindex
    rw [if_pos (List.mem_of_getElem? hname), declare_of_mem hindex]
    obtain ⟨hk, hget⟩ := List.getElem?_eq_some_iff.1 hname
    show (schema.fields.set k _).map Field.name = schema.names
    rw [List.map_set]
    show schema.names.set k d.name = schema.names
    rw [← hget, List.set_getElem_self]
  | none =>
    rw [if_neg (h.index_eq_none_iff.1 hindex), declare_of_new hindex]
    show (schema.fields ++ [_]).map Field.name = schema.names ++ [d.name]
    rw [List.map_append]
    rfl

theorem listsFirst_ofDeclarations (ds : List Declaration) :
    ListsFirst (ofDeclarations ds).names (ds.map Declaration.name) := by
  induction ds using List.reverseRecOn with
  | nil => exact listsFirst_nil
  | append_singleton ds d ih =>
    rw [ofDeclarations_append_singleton, (indexed_ofDeclarations ds).names_declare, List.map_append]
    exact ih.concat d.name

/-! ## What a schema tells -/

/-- All that a schema tells of the declarations that it was built from. -/
structure Describes (schema : Schema) (ds : List Declaration) : Prop where
  /-- No two fields have one name. -/
  names_nodup : schema.names.Nodup
  /-- The fields have the names that were declared. -/
  mem_names_iff : ∀ name, name ∈ schema.names ↔ ∃ d ∈ ds, d.name = name
  /-- The fields stand in the order of the first declarations of their names. -/
  names_ordered : schema.names.Pairwise fun a b =>
    (ds.map Declaration.name).idxOf a < (ds.map Declaration.name).idxOf b
  /-- The index has the position of the field of each name, and nothing else. -/
  index_eq_some_iff : ∀ (name : String) (i : Nat),
    schema.index[name]? = some i ↔ schema.names[i]? = some name
  /-- Only names that were not declared are missing from the index. -/
  index_eq_none_iff : ∀ name : String, schema.index[name]? = none ↔ ∀ d ∈ ds, d.name ≠ name
  /-- Every position in the index is that of a field. -/
  index_lt : ∀ (name : String) (i : Nat), schema.index[name]? = some i → i < schema.fields.length
  /-- A name is looked up to the kind and the slot of its last declaration. -/
  lookup_eq_some_iff : ∀ name field, schema.lookup name = some field ↔
    field.name = name ∧ LastDeclared ds name field.slot field.kind
  /-- Only names that were not declared are not found. -/
  lookup_eq_none_iff : ∀ name, schema.lookup name = none ↔ ∀ d ∈ ds, d.name ≠ name
  /-- The type of a field is that of the last declaration of its name. -/
  fieldType_eq_some_iff : ∀ name type, schema.fieldType name = some type ↔
    ∃ slot kind, LastDeclared ds name slot kind ∧ kind.fieldType = type
  /-- Only names that were not declared have no type. -/
  fieldType_eq_none_iff : ∀ name, schema.fieldType name = none ↔ ∀ d ∈ ds, d.name ≠ name
  /-- There are as many fields as names that were declared. -/
  size_eq : schema.size = (ds.map Declaration.name).toFinset.card
  /-- There is no field only if there was no declaration. -/
  isEmpty_iff : schema.isEmpty ↔ ds = []

theorem fieldType_ofDeclarations_eq_some_iff {ds : List Declaration} {name : String}
    {type : FieldType} :
    (ofDeclarations ds).fieldType name = some type ↔
      ∃ slot kind, LastDeclared ds name slot kind ∧ kind.fieldType = type := by
  rw [fieldType, Option.map_eq_some_iff]
  simp only [lookup_ofDeclarations_iff]
  constructor
  · rintro ⟨field, ⟨-, hlast⟩, htype⟩
    exact ⟨field.slot, field.kind, hlast, htype⟩
  · rintro ⟨slot, kind, hlast, htype⟩
    exact ⟨⟨name, kind, slot⟩, ⟨rfl, hlast⟩, htype⟩

/-- A schema tells of its declarations which names there are and in which order they came up
first, and of each name what was declared last. -/
theorem describes_ofDeclarations (ds : List Declaration) : (ofDeclarations ds).Describes ds := by
  have hindexed := indexed_ofDeclarations ds
  have hlists := listsFirst_ofDeclarations ds
  have hmem : ∀ name, name ∈ (ofDeclarations ds).names ↔ ∃ d ∈ ds, d.name = name :=
    fun name => (hlists.mem_iff name).trans List.mem_map
  have hlength : (ofDeclarations ds).names.length = (ofDeclarations ds).fields.length :=
    List.length_map _
  refine
    { names_nodup := hlists.nodup
      mem_names_iff := hmem
      names_ordered := hlists.ordered
      index_eq_some_iff := fun name i => hindexed.index_eq_some_iff
      index_eq_none_iff := fun name => ?_
      index_lt := fun name i hindex => ?_
      lookup_eq_some_iff := fun name field => lookup_ofDeclarations_iff
      lookup_eq_none_iff := fun name => lookup_ofDeclarations_eq_none_iff
      fieldType_eq_some_iff := fun name type => fieldType_ofDeclarations_eq_some_iff
      fieldType_eq_none_iff := fun name => ?_
      size_eq := ?_
      isEmpty_iff := ?_ }
  · rw [hindexed.index_eq_none_iff, hmem name]
    simp
  · rw [← hlength]
    exact (List.getElem?_eq_some_iff.1 (hindexed.index_eq_some_iff.1 hindex)).1
  · rw [fieldType, Option.map_eq_none_iff, lookup_ofDeclarations_eq_none_iff]
  · have hset : (ofDeclarations ds).names.toFinset = (ds.map Declaration.name).toFinset := by
      apply Finset.ext
      intro name
      rw [List.mem_toFinset, List.mem_toFinset, hlists.mem_iff name]
    rw [← hset, List.toFinset_card_of_nodup hlists.nodup, size, hlength]
  · rw [isEmpty, List.isEmpty_iff, ← List.length_eq_zero_iff, ← hlength, List.length_eq_zero_iff,
      List.eq_nil_iff_forall_not_mem, List.eq_nil_iff_forall_not_mem]
    constructor
    · intro h d hd
      exact h d.name ((hmem d.name).2 ⟨d, hd, rfl⟩)
    · intro h name hname
      obtain ⟨d, hd, -⟩ := (hmem name).1 hname
      exact h d hd

end Schema

end RecordFilter
