import Mathlib
import RecordFilter.Schema

/-!
# What a schema looks up

A schema is built one declaration at a time, out of a list of fields and an index from names
to positions.  This module relates the result to the list of declarations alone.

* `declare_of_mem` and `declare_of_new` are the two things that a declaration can do: replace
  a field or add one.
* `Indexed` is the invariant of the two structures: the index has exactly the names of the
  fields, each with its position.  `Indexed.declare` is the step and
  `indexed_ofDeclarations` the run.
* `LastDeclared` is the meaning of a name: the last declaration of it, and the slot of that
  declaration.  `lookup_ofDeclarations_iff` says that this is what `lookup` finds.
-/

/-- What stands in a list with one more element at its end. -/
theorem List.getElem?_concat_eq_some_iff {α : Type} {as : List α} {a b : α} {i : Nat} :
    (as ++ [a])[i]? = some b ↔ as[i]? = some b ∨ i = as.length ∧ a = b := by
  rcases Nat.lt_trichotomy i as.length with hlt | rfl | hgt
  · simp [List.getElem?_append_left hlt, hlt.ne]
  · simp
  · have hnone : (as ++ [a])[i]? = none := by
      rw [List.getElem?_eq_none_iff, List.length_append, List.length_singleton]
      omega
    simp [hnone, hgt.ne', List.getElem?_eq_none hgt.le]

namespace RecordFilter

/-- Declaration number `slot` is the last one of a name, and gives it a kind. -/
def LastDeclared (ds : List Declaration) (name : String) (slot : Nat) (kind : FieldKind) : Prop :=
  ds[slot]? = some ⟨name, kind⟩ ∧
    ∀ later d, slot < later → ds[later]? = some d → d.name ≠ name

/-- A name has one last declaration only. -/
theorem LastDeclared.unique {ds : List Declaration} {name : String} {slot slot' : Nat}
    {kind kind' : FieldKind} (h : LastDeclared ds name slot kind)
    (h' : LastDeclared ds name slot' kind') : slot = slot' ∧ kind = kind' := by
  obtain ⟨hat, hlast⟩ := h
  obtain ⟨hat', hlast'⟩ := h'
  have hslot : slot = slot' := by
    rcases Nat.lt_trichotomy slot slot' with hlt | heq | hgt
    · exact absurd rfl (hlast slot' _ hlt hat')
    · exact heq
    · exact absurd rfl (hlast' slot _ hgt hat)
  subst hslot
  rw [hat, Option.some.injEq, Declaration.mk.injEq] at hat'
  exact ⟨rfl, hat'.2⟩

/-- The last declaration of a name after one more declaration. -/
theorem lastDeclared_append_singleton {ds : List Declaration} {d : Declaration} {name : String}
    {slot : Nat} {kind : FieldKind} :
    LastDeclared (ds ++ [d]) name slot kind ↔
      d = ⟨name, kind⟩ ∧ slot = ds.length ∨ d.name ≠ name ∧ LastDeclared ds name slot kind := by
  constructor
  · rintro ⟨hat, hlast⟩
    rcases List.getElem?_concat_eq_some_iff.1 hat with hat | ⟨rfl, hd⟩
    · have hslot := (List.getElem?_eq_some_iff.1 hat).1
      refine .inr ⟨hlast ds.length d hslot (by simp), hat, ?_⟩
      intro later d' hlater hd'
      exact hlast later d' hlater (List.getElem?_concat_eq_some_iff.2 (.inl hd'))
    · exact .inl ⟨hd, rfl⟩
  · rintro (⟨rfl, rfl⟩ | ⟨hne, hat, hlast⟩)
    · refine ⟨by simp, ?_⟩
      intro later d' hlater hd'
      have hlt := (List.getElem?_eq_some_iff.1 hd').1
      rw [List.length_append, List.length_singleton] at hlt
      omega
    · refine ⟨List.getElem?_concat_eq_some_iff.2 (.inl hat), ?_⟩
      intro later d' hlater hd'
      rcases List.getElem?_concat_eq_some_iff.1 hd' with hd' | ⟨-, rfl⟩
      · exact hlast later d' hlater hd'
      · exact hne

/-- A declared name has a last declaration. -/
theorem exists_lastDeclared_iff {ds : List Declaration} {name : String} :
    (∃ slot kind, LastDeclared ds name slot kind) ↔ ∃ d ∈ ds, d.name = name := by
  induction ds using List.reverseRecOn with
  | nil => simp [LastDeclared]
  | append_singleton ds d ih =>
    simp only [lastDeclared_append_singleton, List.mem_append, List.mem_singleton]
    constructor
    · rintro ⟨slot, kind, ⟨rfl, -⟩ | ⟨-, hdeclared⟩⟩
      · exact ⟨_, .inr rfl, rfl⟩
      · obtain ⟨d', hd', hname⟩ := ih.1 ⟨slot, kind, hdeclared⟩
        exact ⟨d', .inl hd', hname⟩
    · rintro ⟨d', hd' | rfl, hname⟩
      · by_cases hlast : d.name = name
        · exact ⟨ds.length, d.kind, .inl ⟨by rw [← hlast], rfl⟩⟩
        · obtain ⟨slot, kind, hdeclared⟩ := ih.2 ⟨d', hd', hname⟩
          exact ⟨slot, kind, .inr ⟨hlast, hdeclared⟩⟩
      · exact ⟨ds.length, d'.kind, .inl ⟨by rw [← hname], rfl⟩⟩

/-- A name has a last declaration, or none at all. -/
theorem lastDeclared_or_undeclared (ds : List Declaration) (name : String) :
    (∃ slot kind, LastDeclared ds name slot kind) ∨ ∀ d ∈ ds, d.name ≠ name := by
  rw [exists_lastDeclared_iff]
  by_cases h : ∃ d ∈ ds, d.name = name
  · exact .inl h
  · exact .inr fun d hd hname => h ⟨d, hd, hname⟩

namespace Schema

/-! ## One more declaration -/

/-- A name that has a field already: the field is replaced where it stands. -/
theorem declare_of_mem {schema : Schema} {d : Declaration} {i : Nat}
    (hindex : schema.index[d.name]? = some i) :
    schema.declare d =
      { schema with
        fields := schema.fields.set i ⟨d.name, d.kind, schema.slots⟩
        slots := schema.slots + 1 } := by
  rw [declare, hindex]

/-- A new name: its field is added at the end. -/
theorem declare_of_new {schema : Schema} {d : Declaration} (hindex : schema.index[d.name]? = none) :
    schema.declare d =
      { fields := schema.fields ++ [⟨d.name, d.kind, schema.slots⟩]
        index := schema.index.insert d.name schema.fields.length
        slots := schema.slots + 1 } := by
  rw [declare, hindex]

/-- Only the index of a new name changes. -/
theorem getElem?_index_declare_of_new {schema : Schema} {d : Declaration}
    (hindex : schema.index[d.name]? = none) (name : String) :
    (schema.declare d).index[name]? =
      if d.name = name then some schema.fields.length else schema.index[name]? := by
  rw [declare_of_new hindex, Std.TreeMap.getElem?_insert]
  simp only [Std.compare_eq_iff_eq]

/-! ## The invariant of the builder -/

/-- The index holds exactly the names of the fields, each with its position. -/
def Indexed (schema : Schema) : Prop :=
  ∀ name i, schema.index[name]? = some i ↔
    ∃ field : Field, schema.fields[i]? = some field ∧ field.name = name

theorem indexed_empty : empty.Indexed := by
  intro name i
  simp [empty]

/-- A name that the index lacks is the name of no field. -/
theorem Indexed.ne_of_getElem? {schema : Schema} (h : schema.Indexed) {name : String} {i : Nat}
    {field : Field} (hindex : schema.index[name]? = none) (hfield : schema.fields[i]? = some field) :
    field.name ≠ name := by
  intro hname
  have hsome := (h name i).2 ⟨field, hfield, hname⟩
  rw [hindex] at hsome
  cases hsome

/-- One more declaration keeps the invariant. -/
theorem Indexed.declare {schema : Schema} (h : schema.Indexed) (d : Declaration) :
    (schema.declare d).Indexed := by
  intro name i
  cases hindex : schema.index[d.name]? with
  | some k =>
    obtain ⟨old, hold, hname⟩ := (h d.name k).1 hindex
    have hk : k < schema.fields.length := (List.getElem?_eq_some_iff.1 hold).1
    rw [declare_of_mem hindex, h name i, List.getElem?_set]
    by_cases hki : k = i
    · subst hki
      rw [hold, if_pos rfl, if_pos hk]
      simp [hname]
    · rw [if_neg hki]
  | none =>
    rw [getElem?_index_declare_of_new hindex, declare_of_new hindex]
    simp only [List.getElem?_concat_eq_some_iff]
    split
    · next hname =>
      subst hname
      rw [Option.some.injEq]
      constructor
      · rintro rfl
        exact ⟨_, .inr ⟨rfl, rfl⟩, rfl⟩
      · rintro ⟨field, hfield | ⟨rfl, -⟩, hfieldName⟩
        · exact absurd hfieldName (h.ne_of_getElem? hindex hfield)
        · rfl
    · next hname =>
      rw [h name i]
      constructor
      · rintro ⟨field, hfield, hfieldName⟩
        exact ⟨field, .inl hfield, hfieldName⟩
      · rintro ⟨field, hfield | ⟨rfl, rfl⟩, hfieldName⟩
        · exact ⟨field, hfield, hfieldName⟩
        · exact absurd hfieldName hname

theorem ofDeclarations_append_singleton (ds : List Declaration) (d : Declaration) :
    ofDeclarations (ds ++ [d]) = (ofDeclarations ds).declare d :=
  List.foldl_append

/-- Every schema that is built from declarations has the invariant. -/
theorem indexed_ofDeclarations (ds : List Declaration) : (ofDeclarations ds).Indexed := by
  induction ds using List.reverseRecOn with
  | nil => exact indexed_empty
  | append_singleton ds d ih =>
    rw [ofDeclarations_append_singleton]
    exact ih.declare d

/-! ## Lookup -/

theorem lookup_empty (name : String) : empty.lookup name = none := by
  simp [lookup, empty]

/-- What a name means after one more declaration. -/
theorem Indexed.lookup_declare {schema : Schema} (h : schema.Indexed) (d : Declaration)
    (name : String) :
    (schema.declare d).lookup name =
      if d.name = name then some ⟨d.name, d.kind, schema.slots⟩ else schema.lookup name := by
  unfold lookup
  cases hindex : schema.index[d.name]? with
  | some k =>
    obtain ⟨old, hold, hname⟩ := (h d.name k).1 hindex
    have hk : k < schema.fields.length := (List.getElem?_eq_some_iff.1 hold).1
    rw [declare_of_mem hindex]
    split
    · next hdName =>
      subst hdName
      simp [hindex, hk]
    · next hdName =>
      cases hother : schema.index[name]? with
      | none => rfl
      | some i =>
        -- two names never share a position, so the field that was replaced is another one
        have hki : k ≠ i := by
          rintro rfl
          obtain ⟨field, hfield, hfieldName⟩ := (h name k).1 hother
          rw [hold, Option.some.injEq] at hfield
          exact hdName (by rw [← hname, hfield, hfieldName])
        simp [List.getElem?_set, hki]
  | none =>
    rw [getElem?_index_declare_of_new hindex, declare_of_new hindex]
    split
    · simp
    · cases hother : schema.index[name]? with
      | none => rfl
      | some i =>
        obtain ⟨field, hfield, -⟩ := (h name i).1 hother
        have hi : i < schema.fields.length := (List.getElem?_eq_some_iff.1 hfield).1
        simp [List.getElem?_append_left hi]

theorem slots_declare (schema : Schema) (d : Declaration) :
    (schema.declare d).slots = schema.slots + 1 := by
  unfold declare
  split <;> rfl

/-- Every declaration takes a slot, whether its name is new or not. -/
theorem slots_ofDeclarations (ds : List Declaration) : (ofDeclarations ds).slots = ds.length := by
  induction ds using List.reverseRecOn with
  | nil => rfl
  | append_singleton ds d ih =>
    rw [ofDeclarations_append_singleton, slots_declare, ih, List.length_append,
      List.length_singleton]

/-- A name is looked up to its last declaration. -/
theorem lookup_ofDeclarations_iff {ds : List Declaration} {name : String} {field : Field} :
    (ofDeclarations ds).lookup name = some field ↔
      field.name = name ∧ LastDeclared ds name field.slot field.kind := by
  induction ds using List.reverseRecOn with
  | nil =>
    simp [ofDeclarations, lookup_empty, LastDeclared]
  | append_singleton ds d ih =>
    rw [ofDeclarations_append_singleton, (indexed_ofDeclarations ds).lookup_declare, slots_ofDeclarations,
      lastDeclared_append_singleton]
    obtain ⟨fieldName, kind, slot⟩ := field
    obtain ⟨dName, dKind⟩ := d
    by_cases hname : dName = name
    · subst hname
      simp only [↓reduceIte, Option.some.injEq, Field.mk.injEq, Declaration.mk.injEq, true_and,
        ne_eq, not_true_eq_false, false_and, or_false]
      constructor
      · rintro ⟨rfl, rfl, rfl⟩
        exact ⟨rfl, rfl, rfl⟩
      · rintro ⟨rfl, rfl, rfl⟩
        exact ⟨rfl, rfl, rfl⟩
    · simp [hname, ih]

/-- Only names that were not declared are not found. -/
theorem lookup_ofDeclarations_eq_none_iff {ds : List Declaration} {name : String} :
    (ofDeclarations ds).lookup name = none ↔ ∀ d ∈ ds, d.name ≠ name := by
  have hsome : (∃ field, (ofDeclarations ds).lookup name = some field) ↔ ∃ d ∈ ds, d.name = name := by
    rw [← exists_lastDeclared_iff]
    simp only [lookup_ofDeclarations_iff]
    constructor
    · rintro ⟨field, -, hlast⟩
      exact ⟨field.slot, field.kind, hlast⟩
    · rintro ⟨slot, kind, hlast⟩
      exact ⟨⟨name, kind, slot⟩, rfl, hlast⟩
  rw [Option.eq_none_iff_forall_ne_some, ← not_exists, hsome]
  simp

end Schema

/-- The field that a name means in a type of a family. -/
theorem Family.lookup_schema_iff {family : Family} {type : Nat} {name : String} {field : Field} :
    (family.schema type).lookup name = some field ↔
      field.name = name ∧ LastDeclared (family.getD type []) name field.slot field.kind :=
  Schema.lookup_ofDeclarations_iff

theorem Family.lookup_schema_eq_none_iff {family : Family} {type : Nat} {name : String} :
    (family.schema type).lookup name = none ↔ ∀ d ∈ family.getD type [], d.name ≠ name :=
  Schema.lookup_ofDeclarations_eq_none_iff

end RecordFilter
