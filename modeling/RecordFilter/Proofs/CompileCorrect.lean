import Mathlib
import RecordFilter.Proofs.Compile

/-!
# Compiled rule sets mean what they say

A predicate reads a record along routes that were settled when it was compiled.  The
interpretation of `RecordFilter.Proofs.Interpretation` walks through the declarations anew
for each record.  This module proves that the two agree, in the order of the compiler's own
stages.

* The walk: `reads_iff_of_resolve` and `follow_of_meetsAbsence`, by induction on the names.
* The comparison: `passes_ofOperand?_iff`, one case for each type of operand.
* The condition: `Condition.CompilesTo.passes_iff`.
* The rule set: `accepts_eq_true_iff_holds`.
-/

namespace RecordFilter

open Number

variable {options : CompileOptions} {family : Family} {type : Nat}

/-! ## The walk -/

theorem follow_eq_absent_of_slot {value : FieldValue} {route : List Nat} (hroute : route ≠ [])
    (hvalue : ∀ slots, value ≠ .record slots) : value.follow route = .absent := by
  cases route with
  | nil => exact absurd rfl hroute
  | cons slot route =>
    have hslot : value.slot slot = .absent := by
      cases value with
      | record slots => exact absurd rfl (hvalue slots)
      | _ => rfl
    rw [FieldValue.follow_cons, hslot, FieldValue.follow_absent]

theorem literal?_absent (scalar : ScalarType) : FieldValue.absent.literal? scalar = none := by
  cases scalar <;> rfl

/-- A route that reads a value, and goes on from a slot, goes on from a record. -/
theorem exists_record_of_literal? {value : FieldValue} {route : List Nat} {scalar : ScalarType}
    {literal : Literal} (hroute : route ≠ [])
    (h : (value.follow route).literal? scalar = some literal) : ∃ slots, value = .record slots := by
  by_contra hnone
  have habsent := follow_eq_absent_of_slot hroute fun slots hslots => hnone ⟨slots, hslots⟩
  rw [habsent, literal?_absent] at h
  cases h

/-- Names read what the route that they resolve to reads.  The induction is on the names; a
slot that holds no record ends both walks. -/
theorem reads_iff_of_resolve {names : List String} {scalar scalar' : ScalarType} {route : List Nat}
    {record : Record} {value : Literal}
    (h : Path.resolve family type names = .ok ⟨.scalar scalar, route⟩) :
    Reads family type record names scalar' value ↔
      scalar' = scalar ∧ (record.read route).literal? scalar = some value := by
  induction names generalizing type record route with
  | nil => cases h
  | cons name names ih =>
    obtain ⟨slot, kind, hdeclared, ⟨rfl, htarget⟩ | ⟨inner, inside, rfl, hinside, htarget⟩⟩ :=
      Path.resolve_cons_eq_ok_iff.1 h
    · obtain ⟨rfl, rfl⟩ := Path.Target.mk.inj htarget
      exact reads_last_iff hdeclared
    · obtain ⟨kind, insideRoute⟩ := inside
      obtain ⟨rfl, rfl⟩ := Path.Target.mk.inj htarget
      have hread : record.read (slot :: insideRoute) =
          (record.getD slot .absent).follow insideRoute := rfl
      rw [reads_inward_iff hdeclared, hread]
      constructor
      · rintro ⟨slots, hrecord, htail⟩
        rw [hrecord]
        exact (ih hinside).1 htail
      · rintro ⟨rfl, hvalue⟩
        obtain ⟨slots, hrecord⟩ :=
          exists_record_of_literal? (Path.route_ne_nil_of_resolve hinside) hvalue
        rw [hrecord] at hvalue
        exact ⟨slots, hrecord, (ih hinside).2 ⟨rfl, hvalue⟩⟩

/-- Where names meet something absent, so does their route. -/
theorem follow_of_meetsAbsence {names : List String} {target : Path.Target} {record : Record}
    (h : Path.resolve family type names = .ok target)
    (habsent : MeetsAbsence family type record names) : record.read target.route = .absent := by
  induction habsent generalizing target with
  | leaf hdeclared hslot =>
    obtain ⟨slot, kind, hdeclared', ⟨-, rfl⟩ | ⟨inner, inside, -, hinside, -⟩⟩ :=
      Path.resolve_cons_eq_ok_iff.1 h
    · obtain ⟨rfl, -⟩ := hdeclared.unique hdeclared'
      exact hslot
    · cases hinside
  | link hdeclared hslot =>
    obtain ⟨slot, kind, hdeclared', ⟨-, rfl⟩ | ⟨inner, inside, -, -, rfl⟩⟩ :=
      Path.resolve_cons_eq_ok_iff.1 h
    · obtain ⟨rfl, -⟩ := hdeclared.unique hdeclared'
      exact hslot
    · obtain ⟨rfl, -⟩ := hdeclared.unique hdeclared'
      show (FieldValue.slot _ _).follow inside.route = .absent
      rw [FieldValue.slot, hslot, FieldValue.follow_absent]
  | inward hdeclared hrecord htail ih =>
    obtain ⟨slot, kind, hdeclared', ⟨rfl, -⟩ | ⟨inner, inside, rfl, hinside, rfl⟩⟩ :=
      Path.resolve_cons_eq_ok_iff.1 h
    · cases htail
    · obtain ⟨rfl, hkind⟩ := hdeclared.unique hdeclared'
      cases hkind
      show (FieldValue.slot _ _).follow inside.route = .absent
      rw [FieldValue.slot, hrecord]
      exact ih hinside

/-! ## The comparison -/

theorem holdsInt_iff_relates {op : Operator} {comparison : NumberComparison} {a b : Int64}
    (h : NumberComparison.ofOperator? op = some comparison) :
    comparison.holdsInt a b = true ↔ op.Relates (.int a) (.int b) := by
  cases op <;> cases h <;>
    simp [NumberComparison.holdsInt, Operator.Relates, Literal.equal]

theorem holdsFloat_iff_relates {op : Operator} {comparison : NumberComparison} {a b : Binary64}
    (h : NumberComparison.ofOperator? op = some comparison) :
    comparison.holdsFloat a b = true ↔ op.Relates (.float a) (.float b) := by
  cases op <;> cases h <;>
    simp [NumberComparison.holdsFloat, Operator.Relates, Literal.equal]

theorem holdsBool_iff_relates {op : Operator} {comparison : BoolComparison} {a b : Bool}
    (h : BoolComparison.ofOperator? op = some comparison) :
    comparison.holds a b = true ↔ op.Relates (.bool a) (.bool b) := by
  cases op <;> cases h <;>
    simp [BoolComparison.holds, Operator.Relates, Literal.equal]

theorem holdsString_iff_relates {op : Operator} {comparison : StringComparison} {a b : String}
    (h : StringComparison.ofOperator? op = some comparison) :
    comparison.holds a b = true ↔ op.Relates (.string a) (.string b) := by
  cases op <;> cases h <;>
    simp [StringComparison.holds, Operator.Relates, Literal.equal, Text.occursIn_iff]

/-- A test passes when the value at the end of its route is there and compares with the
operand. -/
theorem passes_ofOperand?_iff {route : List Nat} {op : Operator} {operand : Literal} {test : Test}
    {record : Record} (h : Test.ofOperand? route op operand = some test) :
    test.passes record = true ↔
      ∃ value, (record.read route).literal? operand.kind = some value ∧
        op.Relates value operand := by
  cases operand with
  | int n =>
    obtain ⟨comparison, hcomparison, rfl⟩ := Option.map_eq_some_iff.1 h
    rw [Test.passes, Literal.kind]
    cases record.read route <;>
      simp [FieldValue.literal?, FieldValue.int?, holdsInt_iff_relates hcomparison]
  | float x =>
    obtain ⟨comparison, hcomparison, rfl⟩ := Option.map_eq_some_iff.1 h
    rw [Test.passes, Literal.kind]
    cases record.read route <;>
      simp [FieldValue.literal?, FieldValue.float?, holdsFloat_iff_relates hcomparison]
  | bool b =>
    obtain ⟨comparison, hcomparison, rfl⟩ := Option.map_eq_some_iff.1 h
    rw [Test.passes, Literal.kind]
    cases record.read route <;>
      simp [FieldValue.literal?, FieldValue.bool?, holdsBool_iff_relates hcomparison]
  | string s =>
    obtain ⟨comparison, hcomparison, rfl⟩ := Option.map_eq_some_iff.1 h
    rw [Test.passes, Literal.kind]
    cases record.read route <;>
      simp [FieldValue.literal?, FieldValue.string?, holdsString_iff_relates hcomparison]

/-! ## The condition -/

/-- A compiled condition passes the records for which the condition holds. -/
theorem Condition.CompilesTo.passes_iff {c : Condition} {compiled : CompiledCondition}
    (h : c.CompilesTo options family compiled) (record : Record) :
    compiled.test.passes record = true ↔ c.Holds options family record := by
  obtain ⟨literal, scalar, route, hvalue, hresolve, htest⟩ := h.exists_test
  obtain ⟨operand, hfit, hoperand⟩ := compileTest_eq_ok_iff.1 htest
  rw [passes_ofOperand?_iff hoperand, Literal.kind_of_fit? hfit]
  constructor
  · intro hpasses
    obtain ⟨value, hread, hrelates⟩ := hpasses
    exact ⟨Path.segments c.field, scalar, value, literal, operand, Path.segments_eq_iff.1 rfl,
      (reads_iff_of_resolve hresolve).2 ⟨rfl, hread⟩, hvalue, hfit, hrelates⟩
  · intro hholds
    obtain ⟨names, scalar', value, literal', operand', hspells, hreads, hvalue', hfit', hrelates⟩ :=
      hholds
    rw [← Path.segments_eq_iff.2 hspells] at hreads
    obtain ⟨rfl, hread⟩ := (reads_iff_of_resolve hresolve).1 hreads
    obtain rfl : literal' = literal := Option.some.inj (hvalue'.symm.trans hvalue)
    obtain rfl : operand' = operand := Option.some.inj (hfit'.symm.trans hfit)
    exact ⟨value, hread, hrelates⟩

/-- A compiled condition passes no record in which its path meets something absent. -/
theorem Condition.CompilesTo.passes_eq_false {c : Condition} {compiled : CompiledCondition}
    (h : c.CompilesTo options family compiled) {record : Record} {names : List String}
    (hspells : Path.Spells c.field names)
    (habsent : MeetsAbsence family Family.root record names) :
    compiled.test.passes record = false := by
  obtain ⟨literal, scalar, route, -, hresolve, htest⟩ := h.exists_test
  obtain ⟨operand, -, hoperand⟩ := compileTest_eq_ok_iff.1 htest
  rw [← Path.segments_eq_iff.2 hspells] at habsent
  have hread : record.read route = .absent := follow_of_meetsAbsence hresolve habsent
  rw [← Bool.not_eq_true, passes_ofOperand?_iff hoperand, hread, literal?_absent]
  intro hpasses
  obtain ⟨value, hvalue, -⟩ := hpasses
  cases hvalue

/-! ## The rule set -/

/-- Joining the outcomes of conditions is joining what they stand for. -/
theorem accepts_iff_of_forall₂ {conditions : List Condition} {p : Predicate} {record : Record}
    (h : List.Forall₂ (fun c compiled => compiled.test.passes record = true ↔
      c.Holds options family record) conditions p.conditions) :
    p.accepts record = true ↔
      (⟨some p.connector, conditions⟩ : RuleSet).Holds options family record := by
  obtain ⟨connector, compiled⟩ := p
  change List.Forall₂ _ conditions compiled at h
  cases connector with
  | and =>
    show (compiled.all fun k => k.test.passes record) = true ↔ ∀ c ∈ conditions, _
    induction h with
    | nil => simp
    | cons hhead _ ih =>
      rw [List.all_cons, Bool.and_eq_true, hhead, ih, List.forall_mem_cons]
  | or =>
    show (compiled.any fun k => k.test.passes record) = true ↔ ∃ c ∈ conditions, _
    induction h with
    | nil => simp
    | cons hhead _ ih =>
      rw [List.any_cons, Bool.or_eq_true, hhead, ih, List.exists_mem_cons_iff]

/-- The predicate that a rule set compiles to accepts exactly the records for which the rule
set holds, and each of its conditions passes exactly those for which the condition it came
from holds; one whose path meets something absent does not pass, whatever its operator. -/
theorem accepts_eq_true_iff_holds {rules : RuleSet} {p : Predicate}
    (h : rules.compile options family = .ok p) (record : Record) :
    (p.accepts record = true ↔ rules.Holds options family record) ∧
      List.Forall₂ (fun c compiled =>
        (compiled.test.passes record = true ↔ c.Holds options family record) ∧
          ∀ names, Path.Spells c.field names → MeetsAbsence family Family.root record names →
            compiled.test.passes record = false) rules.conditions p.conditions := by
  obtain ⟨hconnector, -, hconditions⟩ := RuleSet.compile_eq_ok_iff.1 h
  obtain ⟨connector?, conditions⟩ := rules
  simp only at hconnector hconditions
  subst hconnector
  constructor
  · exact accepts_iff_of_forall₂ (hconditions.imp fun c compiled hc => hc.passes_iff record)
  · exact hconditions.imp fun c compiled hc =>
      ⟨hc.passes_iff record, fun names hspells habsent => hc.passes_eq_false hspells habsent⟩

/-- Persons with a superior, who is a person and may be absent; the name is declared twice.
-/
def staff : Family :=
  [[⟨"Name", .scalar .int⟩, ⟨"Superior", .record 0⟩, ⟨"Name", .scalar .string⟩]]

/-- A person with a superior who has none. -/
def clerk : Record :=
  [.absent, .record [.absent, .absent, .string "Room 17"], .string "Clerk"]

/-- Of the two conditions the first meets an absent record in `clerk`, the second holds. -/
def staffRules : RuleSet :=
  .anyOf [⟨"Superior.Superior.Name", .notEqual, some (.string "Clerk")⟩,
    ⟨"Superior.Name", .contains, some (.int 17)⟩]

/-- What `staffRules` compiles to. -/
def staffPredicate : Predicate :=
  ⟨.or, [⟨"Superior.Superior.Name", .notEqual, .string [1, 1, 2] .notEqual "Clerk"⟩,
    ⟨"Superior.Name", .contains, .string [1, 2] .contains "17"⟩]⟩

theorem staffRules_holds :
    staffRules.compile {} staff = .ok staffPredicate ∧
      staffPredicate.accepts clerk = true ∧ staffRules.Holds {} staff clerk := by
  have hcompile : staffRules.compile {} staff = .ok staffPredicate := by decide +kernel
  have haccepts : staffPredicate.accepts clerk = true := by decide +kernel
  exact ⟨hcompile, haccepts, (accepts_eq_true_iff_holds hcompile clerk).1.1 haccepts⟩

end RecordFilter
