import Mathlib
import RecordFilter.Proofs.CompileCorrect

/-!
# Families with more declarations

A family grows when more declarations are put behind those that its types have, of names
that were not declared there.  Rule sets that compiled before the family grew are not
affected by what was added.

* A name that was declared keeps its last declaration (`LastDeclared.append`), so every walk
  that led to a field leads to the same field (`Family.GrowsTo.resolve`).
* `Record.restrict` takes a record of the larger family to one of the smaller: it drops the
  slots that were added, in the record and in all records nested in it
  (`Record.WellTyped.restrict`).  A walk through the smaller family reads the same from both
  (`read_restrict`).

`RuleSet.compile_of_growsTo` puts the two together for compiled rule sets.
-/

namespace RecordFilter

/-- Every type of the first family has the same declarations in the second, and behind them
perhaps others, of names that it did not declare. -/
def Family.GrowsTo (old new : Family) : Prop :=
  ∀ type, ∃ added, new.getD type [] = old.getD type [] ++ added ∧
    ∀ d ∈ added, ∀ d' ∈ old.getD type [], d.name ≠ d'.name

/-! ## Walks -/

/-- The last declaration of a name stays the last one when other names are declared. -/
theorem LastDeclared.append {ds added : List Declaration} {name : String} {slot : Nat}
    {kind : FieldKind} (h : LastDeclared ds name slot kind)
    (hadded : ∀ d ∈ added, d.name ≠ name) : LastDeclared (ds ++ added) name slot kind := by
  obtain ⟨hat, hlast⟩ := h
  have hslot : slot < ds.length := (List.getElem?_eq_some_iff.1 hat).1
  refine ⟨by rwa [List.getElem?_append_left hslot], fun later d hlater hd => ?_⟩
  rcases Nat.lt_or_ge later ds.length with hlt | hge
  · rw [List.getElem?_append_left hlt] at hd
    exact hlast later d hlater hd
  · rw [List.getElem?_append_right hge] at hd
    exact hadded d (List.mem_of_getElem? hd)

variable {options : CompileOptions} {old new : Family}

/-- A name means in the larger family what it meant in the smaller. -/
theorem Family.GrowsTo.lastDeclared (h : old.GrowsTo new) {type slot : Nat} {name : String}
    {kind : FieldKind} (hdeclared : LastDeclared (old.getD type []) name slot kind) :
    LastDeclared (new.getD type []) name slot kind := by
  obtain ⟨added, hnew, hnames⟩ := h type
  rw [hnew]
  refine hdeclared.append fun d hd => ?_
  exact hnames d hd ⟨name, kind⟩ (List.mem_of_getElem? hdeclared.1)

/-- A walk that leads to a field leads to the same field when the family has grown.  The
induction is on the names. -/
theorem Family.GrowsTo.resolve (h : old.GrowsTo new) {type : Nat} {names : List String}
    {target : Path.Target} (hresolve : Path.resolve old type names = .ok target) :
    Path.resolve new type names = .ok target := by
  induction names generalizing type target with
  | nil => cases hresolve
  | cons name names ih =>
    obtain ⟨slot, kind, hdeclared, hrest⟩ := Path.resolve_cons_eq_ok_iff.1 hresolve
    refine Path.resolve_cons_eq_ok_iff.2 ⟨slot, kind, h.lastDeclared hdeclared, ?_⟩
    rcases hrest with hend | ⟨inner, inside, hkind, hinside, htarget⟩
    · exact .inl hend
    · exact .inr ⟨inner, inside, hkind, ih hinside, htarget⟩

/-- A condition that compiles goes on to compile, and to the same test. -/
theorem Condition.CompilesTo.of_growsTo {c : Condition} {compiled : CompiledCondition}
    (hc : c.CompilesTo options old compiled) (h : old.GrowsTo new) :
    c.CompilesTo options new compiled := by
  obtain ⟨hblank, hfield, hoperator, literal, type, route, hvalue, hresolve, htest⟩ := hc
  exact ⟨hblank, hfield, hoperator, literal, type, route, hvalue, h.resolve hresolve, htest⟩

/-! ## Records -/

mutual

/-- What is left of a slot of a given kind when the slots that the family does not declare
are dropped from the records in it. -/
def FieldValue.restrict (family : Family) : FieldKind → FieldValue → FieldValue
  | .record type, .record slots => .record (restrictSlots family (family.getD type []) slots)
  | _, value => value

/-- What is left of the slots of a record with given declarations: one slot for each. -/
def restrictSlots (family : Family) : List Declaration → List FieldValue → List FieldValue
  | d :: ds, value :: slots => value.restrict family d.kind :: restrictSlots family ds slots
  | _, _ => []

end

/-- A record of a type without the slots that the family does not declare, in the record
itself and in the records nested in it. -/
def Record.restrict (family : Family) (type : Nat) (record : Record) : Record :=
  restrictSlots family (family.getD type []) record

mutual

/-- A slot of a given kind holds nothing, or a value of that kind. -/
def FieldValue.WellTyped (family : Family) : FieldKind → FieldValue → Prop
  | _, .absent => True
  | .record type, .record slots => SlotsWellTyped family (family.getD type []) slots
  | .scalar type, value => ∃ literal, value.literal? type = some literal
  | .record _, _ => False

/-- There is one slot for each declaration, and it holds nothing or a value of its kind. -/
def SlotsWellTyped (family : Family) : List Declaration → List FieldValue → Prop
  | [], [] => True
  | d :: ds, value :: slots => value.WellTyped family d.kind ∧ SlotsWellTyped family ds slots
  | _, _ => False

end

/-- A record is one of a type of a family. -/
def Record.WellTyped (family : Family) (type : Nat) (record : Record) : Prop :=
  SlotsWellTyped family (family.getD type []) record

theorem FieldValue.restrict_absent (family : Family) (kind : FieldKind) :
    FieldValue.absent.restrict family kind = .absent := by
  cases kind <;> rfl

/-- Only nested records have slots to drop. -/
theorem FieldValue.restrict_scalar (family : Family) (type : ScalarType) (value : FieldValue) :
    value.restrict family (.scalar type) = value := by
  cases value <;> rfl

/-! ## Records of the larger family are records of the smaller -/

mutual

/-- What is left of a slot that holds a value of its kind holds a value of that kind. -/
theorem FieldValue.WellTyped.restrict (h : old.GrowsTo new) (kind : FieldKind) (value : FieldValue)
    (hvalue : value.WellTyped new kind) : (value.restrict old kind).WellTyped old kind := by
  cases kind with
  | scalar type =>
    rw [FieldValue.restrict_scalar]
    cases value <;> exact hvalue
  | record type =>
    cases value with
    | absent => trivial
    | record slots =>
      obtain ⟨added, hnew, -⟩ := h type
      have hslots : SlotsWellTyped new (old.getD type [] ++ added) slots := by
        rw [← hnew]
        exact hvalue
      exact SlotsWellTyped.restrict h (old.getD type []) slots hslots
    | _ => exact hvalue.elim

/-- The slots that are left are as many as the declarations of the smaller family, and hold
values of their kinds. -/
theorem SlotsWellTyped.restrict (h : old.GrowsTo new) {added : List Declaration}
    (ds : List Declaration) (slots : List FieldValue)
    (hslots : SlotsWellTyped new (ds ++ added) slots) :
    SlotsWellTyped old ds (restrictSlots old ds slots) := by
  cases ds with
  | nil => cases slots <;> trivial
  | cons d ds =>
    cases slots with
    | nil => exact hslots.elim
    | cons value slots =>
      obtain ⟨hvalue, hrest⟩ := hslots
      exact ⟨FieldValue.WellTyped.restrict h d.kind value hvalue,
        SlotsWellTyped.restrict h ds slots hrest⟩

end

/-- Restricted, a record of the larger family is a record of the smaller. -/
theorem Record.WellTyped.restrict (h : old.GrowsTo new) {type : Nat} {record : Record}
    (hrecord : record.WellTyped new type) : (record.restrict old type).WellTyped old type := by
  obtain ⟨added, hnew, -⟩ := h type
  have hslots : SlotsWellTyped new (old.getD type [] ++ added) record := by
    rw [← hnew]
    exact hrecord
  exact SlotsWellTyped.restrict h (old.getD type []) record hslots

/-! ## Reading -/

/-- Restricting a record restricts what its slots hold. -/
theorem getD_restrictSlots {family : Family} {ds : List Declaration} {d : Declaration} {i : Nat}
    (hd : ds[i]? = some d) (slots : List FieldValue) :
    (restrictSlots family ds slots).getD i .absent =
      (slots.getD i .absent).restrict family d.kind := by
  induction ds generalizing i slots with
  | nil => cases hd
  | cons first ds ih =>
    cases slots with
    | nil => exact (FieldValue.restrict_absent family d.kind).symm
    | cons value slots =>
      cases i with
      | zero =>
        obtain rfl : first = d := Option.some.inj hd
        rfl
      | succ i => exact ih hd slots

/-- Names that lead to a single value read the same from a record and from what is left of
it.  The induction is on the names: each but the last goes into a nested record, and what is
left of that record is what was put in its place. -/
theorem read_restrict {family : Family} {type : Nat} {names : List String} {scalar : ScalarType}
    {route : List Nat} (h : Path.resolve family type names = .ok ⟨.scalar scalar, route⟩)
    (record : Record) : (record.restrict family type).read route = record.read route := by
  induction names generalizing type route record with
  | nil => cases h
  | cons name names ih =>
    obtain ⟨slot, kind, hdeclared, ⟨rfl, htarget⟩ | ⟨inner, inside, rfl, hinside, htarget⟩⟩ :=
      Path.resolve_cons_eq_ok_iff.1 h
    · cases htarget
      show (record.restrict family type).getD slot .absent = record.getD slot .absent
      rw [Record.restrict, getD_restrictSlots hdeclared.1, FieldValue.restrict_scalar]
    · obtain ⟨kind, insideRoute⟩ := inside
      cases htarget
      show ((record.restrict family type).getD slot .absent).follow insideRoute =
        (record.getD slot .absent).follow insideRoute
      rw [Record.restrict, getD_restrictSlots hdeclared.1]
      cases record.getD slot .absent with
      | record slots => exact ih hinside slots
      | _ => rfl

/-! ## Rule sets -/

/-- The route to the value that a test compares. -/
def Test.route : Test → List Nat
  | .int route _ _ | .float route _ _ | .bool route _ _ | .string route _ _ => route

/-- A test looks at nothing but the value at the end of its route. -/
theorem Test.passes_congr {test : Test} {record record' : Record}
    (h : record.read test.route = record'.read test.route) :
    test.passes record = test.passes record' := by
  cases test <;> simp only [Test.route] at h <;> simp only [Test.passes, h]

theorem route_of_ofOperand? {route : List Nat} {op : Operator} {operand : Literal} {test : Test}
    (h : Test.ofOperand? route op operand = some test) : test.route = route := by
  cases operand <;> obtain ⟨_, -, rfl⟩ := Option.map_eq_some_iff.1 h <;> rfl

/-- A condition that compiled passes a record when it passes what is left of it. -/
theorem Condition.CompilesTo.passes_restrict {family : Family} {c : Condition}
    {compiled : CompiledCondition} (h : c.CompilesTo options family compiled) (record : Record) :
    compiled.test.passes (record.restrict family Family.root) = compiled.test.passes record := by
  obtain ⟨literal, scalar, route, -, hresolve, htest⟩ := h.exists_test
  obtain ⟨operand, -, hoperand⟩ := compileTest_eq_ok_iff.1 htest
  refine Test.passes_congr ?_
  rw [route_of_ofOperand? hoperand]
  exact read_restrict hresolve record

namespace Predicate

theorem outcomes_congr {cs : List CompiledCondition} {record record' : Record}
    (h : ∀ k ∈ cs, k.test.passes record = k.test.passes record') (start : Nat) :
    outcomes record start cs = outcomes record' start cs := by
  induction cs generalizing start with
  | nil => rfl
  | cons c cs ih =>
    rw [List.forall_mem_cons] at h
    rw [outcomes, outcomes, h.1, ih h.2]

/-- Records that no test tells apart are explained alike. -/
theorem explain_congr {p : Predicate} {record record' : Record}
    (h : ∀ k ∈ p.conditions, k.test.passes record = k.test.passes record') :
    p.explain record = p.explain record' := by
  rw [explain, explain, outcomes_congr h]

end Predicate

/-- A rule set that compiles for a family compiles for every larger one, to the same
predicate: with the same connector, the same paths and the same text.  A record of the
larger family is answered, and explained, like the record of the smaller one that is left
when the added slots are dropped. -/
theorem RuleSet.compile_of_growsTo (h : old.GrowsTo new) {rules : RuleSet} {p : Predicate}
    (hcompile : rules.compile options old = .ok p) :
    rules.compile options new = .ok p ∧
      ∀ record : Record,
        (record.WellTyped new Family.root →
          (record.restrict old Family.root).WellTyped old Family.root) ∧
        p.accepts record = p.accepts (record.restrict old Family.root) ∧
        p.explain record = p.explain (record.restrict old Family.root) := by
  obtain ⟨hconnector, hne, hconditions⟩ := compile_eq_ok_iff.1 hcompile
  have hconditions' := hconditions.imp fun _ _ hc => hc.of_growsTo h
  refine ⟨compile_eq_ok_iff.2 ⟨hconnector, hne, hconditions'⟩, fun record => ?_⟩
  have hpasses : ∀ k ∈ p.conditions,
      k.test.passes record = k.test.passes (record.restrict old Family.root) := by
    intro k hk
    obtain ⟨c, hc⟩ := exists_forall₂_iff.1 ⟨_, List.Forall₂.flip hconditions⟩ k hk
    exact (hc.passes_restrict record).symm
  have hexplain := Predicate.explain_congr hpasses
  refine ⟨fun hrecord => hrecord.restrict h, ?_, hexplain⟩
  rw [← Predicate.result_explain, hexplain, Predicate.result_explain]

/-- The staff, with a deputy and a room for each person. -/
def housedStaff : Family :=
  [[⟨"Name", .scalar .int⟩, ⟨"Superior", .record 0⟩, ⟨"Name", .scalar .string⟩,
      ⟨"Deputy", .record 0⟩, ⟨"Room", .record 1⟩],
    [⟨"Floor", .scalar .int⟩, ⟨"Tenant", .record 0⟩]]

/-- `clerk` with a room, and with a superior who has a room and a deputy. -/
def housedClerk : Record :=
  [.absent,
    .record [.absent, .absent, .string "Room 17",
      .record [.absent, .absent, .string "Typist", .absent, .absent],
      .record [.int 2, .absent]],
    .string "Clerk", .absent, .record [.int 1, .absent]]

theorem RuleSet.compile_housedStaff :
    staff.GrowsTo housedStaff ∧ staffRules.compile {} housedStaff = .ok staffPredicate ∧
      housedClerk.restrict staff Family.root = clerk ∧ clerk.WellTyped staff Family.root ∧
      staffPredicate.accepts housedClerk = true := by
  have hgrows : staff.GrowsTo housedStaff := by
    intro type
    match type with
    | 0 => exact ⟨[⟨"Deputy", .record 0⟩, ⟨"Room", .record 1⟩], rfl, by decide⟩
    | 1 => exact ⟨[⟨"Floor", .scalar .int⟩, ⟨"Tenant", .record 0⟩], rfl, by decide⟩
    | n + 2 => exact ⟨[], rfl, by simp⟩
  have hcompile : staffRules.compile {} staff = .ok staffPredicate := by decide +kernel
  have hrestrict : housedClerk.restrict staff Family.root = clerk := rfl
  have haccepts : staffPredicate.accepts clerk = true := by decide +kernel
  have hsuperior : FieldValue.WellTyped housedStaff (.record 0) (housedClerk.getD 1 .absent) :=
    ⟨trivial, trivial, ⟨_, rfl⟩, ⟨trivial, trivial, ⟨_, rfl⟩, trivial, trivial, trivial⟩,
      ⟨⟨_, rfl⟩, trivial, trivial⟩, trivial⟩
  have hclerk : housedClerk.WellTyped housedStaff Family.root :=
    ⟨trivial, hsuperior, ⟨_, rfl⟩, trivial, ⟨⟨_, rfl⟩, trivial, trivial⟩, trivial⟩
  obtain ⟨hcompile', hrecord⟩ := RuleSet.compile_of_growsTo hgrows hcompile
  obtain ⟨htyped, hanswer, -⟩ := hrecord housedClerk
  rw [hrestrict] at htyped hanswer
  exact ⟨hgrows, hcompile', hrestrict, htyped hclerk, hanswer.trans haccepts⟩

end RecordFilter
