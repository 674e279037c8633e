import Mathlib
import RecordFilter.Proofs.CompileCorrect
import RecordFilter.Proofs.CompileOutcome
import RecordFilter.Proofs.Explanation

/-!
# How the operators of one path and one literal go together

`NotEqual` is the negation of `Equal` where there is a value to compare with, and only there:
a path that meets something absent satisfies neither.  Of `LessThan`, `Equal` and
`GreaterThan` a number satisfies exactly one, unless it or the operand is not a number; then
it satisfies `NotEqual` alone.

The laws are proved where values are compared (`Operator.relates_notEqual_iff`,
`Operator.existsUnique_relates`, `Operator.relates_iff_of_isNaN`) and carried to compiled
conditions by `Condition.passesAlone_iff_relates`: once the value at the end of the path is
known, a condition asks about that value and nothing else.
-/

namespace RecordFilter

open Number RecordFilter.Path

/-! ## Comparing two values -/

namespace Number.Binary64

/-- Two values that are numbers stand in exactly one of three orders. -/
theorem less_or_equal_or_less {x y : Binary64} (hx : x.isNaN = false) (hy : y.isNaN = false) :
    (x.less y = true ∧ x.equal y = false ∧ y.less x = false) ∨
      (x.less y = false ∧ x.equal y = true ∧ y.less x = false) ∨
        (x.less y = false ∧ x.equal y = false ∧ y.less x = true) := by
  simp only [less, equal, hx, hy, Bool.not_false, Bool.true_and, decide_eq_true_eq,
    decide_eq_false_iff_not, beq_iff_eq, beq_eq_false_iff_ne]
  omega

theorem not_ordered_of_isNaN {x y : Binary64} (h : x.isNaN = true ∨ y.isNaN = true) :
    x.less y = false ∧ x.equal y = false ∧ y.less x = false := by
  cases h with
  | inl h => simp [less, equal, h]
  | inr h => simp [less, equal, h]

end Number.Binary64

/-- Whether a literal is a float that is not a number. -/
def Literal.isNaN : Literal → Bool
  | .float x => x.isNaN
  | _ => false

namespace Operator

/-- The operators of which a number satisfies one. -/
def orders : List Operator := [.lessThan, .equal, .greaterThan]

theorem relates_notEqual_iff {value operand : Literal} :
    Operator.notEqual.Relates value operand ↔ ¬ Operator.equal.Relates value operand := by
  simp [Relates]

/-- One of three operators is the only one that holds if it holds and the others do not. -/
theorem existsUnique_of_orders {P : Operator → Prop}
    (h : (P .lessThan ∧ ¬ P .equal ∧ ¬ P .greaterThan) ∨
      (¬ P .lessThan ∧ P .equal ∧ ¬ P .greaterThan) ∨
        (¬ P .lessThan ∧ ¬ P .equal ∧ P .greaterThan)) :
    ∃! op, op ∈ orders ∧ P op := by
  have honly : ∀ op, P op → (∀ other ∈ orders, P other → other = op) → op ∈ orders →
      ∃! op, op ∈ orders ∧ P op :=
    fun op hop hall hmem => ⟨op, ⟨hmem, hop⟩, fun other hother => hall other hother.1 hother.2⟩
  obtain ⟨hless, hequal, hgreater⟩ | ⟨hless, hequal, hgreater⟩ | ⟨hless, hequal, hgreater⟩ := h
  · exact honly .lessThan hless (by simp [orders, hequal, hgreater]) (by simp [orders])
  · exact honly .equal hequal (by simp [orders, hless, hgreater]) (by simp [orders])
  · exact honly .greaterThan hgreater (by simp [orders, hless, hequal]) (by simp [orders])

/-- Numbers of one type, both of them numbers, are related by one of three operators. -/
theorem existsUnique_relates {value operand : Literal} (hkind : value.kind = operand.kind)
    (hnumber : operand.kind = .int ∨ operand.kind = .float) (hvalue : value.isNaN = false)
    (hoperand : operand.isNaN = false) : ∃! op, op ∈ orders ∧ op.Relates value operand := by
  apply existsUnique_of_orders
  cases operand with
  | int b =>
    cases value with
    | int a =>
      simp only [Relates, Literal.equal, beq_iff_eq, Int64.lt_iff_toInt_lt, ← Int64.toInt_inj]
      omega
    | _ => cases hkind
  | float y =>
    cases value with
    | float x =>
      simp only [Relates, Literal.equal]
      obtain h | h | h := Binary64.less_or_equal_or_less (x := x) (y := y) hvalue hoperand
      · exact .inl (by simp [h])
      · exact .inr (.inl (by simp [h]))
      · exact .inr (.inr (by simp [h]))
    | _ => cases hkind
  | bool b => simp [Literal.kind] at hnumber
  | string s => simp [Literal.kind] at hnumber

/-- What is not a number differs from everything, and stands in no other relation. -/
theorem relates_iff_of_isNaN (op : Operator) {value operand : Literal}
    (hkind : value.kind = operand.kind) (hnan : value.isNaN = true ∨ operand.isNaN = true) :
    op.Relates value operand ↔ op = .notEqual := by
  have hfloats : ∃ x y, value = .float x ∧ operand = .float y := by
    cases value <;> cases operand <;> simp_all [Literal.isNaN, Literal.kind]
  obtain ⟨x, y, rfl, rfl⟩ := hfloats
  obtain ⟨hless, hequal, hgreater⟩ := Binary64.not_ordered_of_isNaN hnan
  cases op <;> simp [Relates, Literal.equal, hless, hequal, hgreater]

end Operator

/-! ## Values at the end of a path -/

/-- A record has a value at the end of a path. -/
def Record.Has (family : Family) (record : Record) (path : String) : Prop :=
  ∃ names type value, Spells path names ∧ Reads family Family.root record names type value

/-- A record lacks a value at the end of a path, or a record on the way. -/
def Record.Lacks (family : Family) (record : Record) (path : String) : Prop :=
  ∃ names, Spells path names ∧ MeetsAbsence family Family.root record names

/-- The condition that compares what a path leads to with a literal. -/
def Operator.comparing (op : Operator) (path : String) (literal : Literal) : Condition :=
  ⟨path, op, some literal⟩

/-- A condition compiles as the only one of a rule set. -/
def Condition.CompilesAlone (options : CompileOptions) (family : Family) (connector : Connector)
    (c : Condition) : Prop :=
  ∃ p, (⟨some connector, [c]⟩ : RuleSet).compile options family = .ok p

variable {options : CompileOptions} {family : Family} {connector : Connector} {path : String}
  {literal operand : Literal} {type : ScalarType} {record : Record}

/-- A condition with another operator is as well formed, if the type has that operator too. -/
theorem Condition.WellFormed.comparing {op : Operator}
    (h : (op.comparing path literal).WellFormed options family) (other : Operator)
    (hsupports : ∀ type, (op.comparing path literal).PathLeadsTo family (.scalar type) →
      type.Supports other) : (other.comparing path literal).WellFormed options family := by
  obtain ⟨hblank, literal', type, operand, hvalue, hleads, hfit, -⟩ := h
  exact ⟨hblank, literal', type, operand, hvalue, hleads, hfit, hsupports type hleads⟩

/-! ## Conditions on a value -/

theorem literal?_kind {value : FieldValue} (h : value.literal? type = some literal) :
    literal.kind = type := by
  cases type <;> cases value <;> cases h <;> rfl

section Reads

variable {start : Nat} {names : List String} {value : Literal}
  (hreads : Reads family start record names type value)
include hreads

theorem Reads.leadsTo : LeadsTo family start names (.scalar type) := by
  induction hreads with
  | leaf hdeclared _ => exact .here hdeclared
  | inward hdeclared _ _ ih => exact .inward hdeclared ih

/-- A value that is read has the type of the field. -/
theorem Reads.kind_eq : value.kind = type := by
  induction hreads with
  | leaf _ hvalue => exact literal?_kind hvalue
  | inward _ _ _ ih => exact ih

end Reads

section Value

variable {op : Operator} {names : List String} {value : Literal} (hspells : Spells path names)
  (hreads : Reads family Family.root record names type value)
include hspells hreads

/-- A condition on a path that leads to a value is about that value. -/
theorem Condition.holds_iff_relates (hfit : literal.fit? options type = some operand) :
    (op.comparing path literal).Holds options family record ↔ op.Relates value operand := by
  obtain ⟨route, hresolve⟩ := exists_resolve_eq_ok_iff.2 hreads.leadsTo
  constructor
  · intro hholds
    obtain ⟨names', type', value', literal', operand', hspells', hreads', hvalue, hfit',
      hrelates⟩ := hholds
    obtain rfl : names' = names :=
      (segments_eq_iff.2 hspells').symm.trans (segments_eq_iff.2 hspells)
    obtain ⟨rfl, hread'⟩ := (reads_iff_of_resolve hresolve).1 hreads'
    obtain ⟨-, hread⟩ := (reads_iff_of_resolve hresolve).1 hreads
    obtain rfl : value' = value := Option.some.inj (hread'.symm.trans hread)
    obtain rfl : literal = literal' := Option.some.inj hvalue
    obtain rfl : operand' = operand := Option.some.inj (hfit'.symm.trans hfit)
    exact hrelates
  · intro hrelates
    exact ⟨names, type, value, literal, operand, hspells, hreads, rfl, hfit, hrelates⟩

end Value

/-- The literal of a well-formed condition fits the type that its path leads to. -/
theorem Condition.WellFormed.exists_fit {op : Operator}
    (hwell : (op.comparing path literal).WellFormed options family)
    (hleads : (op.comparing path literal).PathLeadsTo family (.scalar type)) :
    ∃ operand, literal.fit? options type = some operand := by
  obtain ⟨-, literal', type', operand, hvalue, hleads', hfit, -⟩ := hwell
  obtain rfl : literal = literal' := Option.some.inj hvalue
  cases hleads.unique hleads'
  exact ⟨operand, hfit⟩

theorem Condition.Holds.has {c : Condition} (h : c.Holds options family record) :
    record.Has family c.field := by
  obtain ⟨names, type, value, literal, operand, hspells, hreads, -⟩ := h
  exact ⟨names, type, value, hspells, hreads⟩

theorem Record.Lacks.not_has (h : record.Lacks family path) : ¬ record.Has family path := by
  intro hhas
  obtain ⟨names, hspells, habsent⟩ := h
  obtain ⟨names', type, value, hspells', hreads⟩ := hhas
  obtain rfl : names = names' := (segments_eq_iff.2 hspells).symm.trans (segments_eq_iff.2 hspells')
  obtain ⟨route, hresolve⟩ := exists_resolve_eq_ok_iff.2 hreads.leadsTo
  have hread := ((reads_iff_of_resolve hresolve).1 hreads).2
  rw [follow_of_meetsAbsence hresolve habsent, literal?_absent] at hread
  cases hread

/-! ## `Equal` and its negation -/

section Negation

variable (hwell : (Operator.equal.comparing path literal).WellFormed options family)
include hwell

theorem Condition.holds_notEqual_iff (hhas : record.Has family path) :
    (Operator.notEqual.comparing path literal).Holds options family record ↔
      ¬ (Operator.equal.comparing path literal).Holds options family record := by
  obtain ⟨names, type, value, hspells, hreads⟩ := hhas
  obtain ⟨operand, hfit⟩ := hwell.exists_fit ⟨names, hspells, hreads.leadsTo⟩
  rw [holds_iff_relates hspells hreads hfit, holds_iff_relates hspells hreads hfit,
    Operator.relates_notEqual_iff]

/-- No record satisfies a condition and its negation. -/
theorem Condition.not_holds_both
    (hequal : (Operator.equal.comparing path literal).Holds options family record)
    (hnotEqual : (Operator.notEqual.comparing path literal).Holds options family record) :
    False :=
  (holds_notEqual_iff hwell hequal.has).1 hnotEqual hequal

end Negation

/-! ## Compiled conditions -/

theorem RuleSet.accepts_iff_holds {rules : RuleSet} {p : Predicate}
    (h : rules.compile options family = .ok p) :
    p.accepts record = true ↔ rules.Holds options family record := by
  obtain ⟨hconnector, -, hconditions⟩ := RuleSet.compile_eq_ok_iff.1 h
  obtain ⟨connector?, conditions⟩ := rules
  change connector? = some p.connector at hconnector
  subst hconnector
  exact accepts_iff_of_forall₂ (hconditions.imp fun _ _ hc => hc.passes_iff record)

theorem Condition.passesAlone_iff_holds {c : Condition} (hwell : c.WellFormed options family) :
    c.passesAlone options family connector record = true ↔ c.Holds options family record := by
  obtain ⟨compiled, hcompiled⟩ := Condition.exists_compilesTo_iff.2 hwell
  rw [hcompiled.passesAlone_eq, hcompiled.passes_iff]

theorem Condition.compilesAlone_iff {c : Condition} :
    c.CompilesAlone options family connector ↔ c.WellFormed options family := by
  rw [CompilesAlone, RuleSet.exists_compile_eq_ok_iff]
  constructor
  · intro h
    exact h.conditions c (List.mem_singleton_self c)
  · intro h
    exact ⟨Option.some_ne_none connector, List.cons_ne_nil c [], by simpa using h⟩

theorem Condition.wellFormed_of_passesAlone {c : Condition}
    (h : c.passesAlone options family connector record = true) : c.WellFormed options family := by
  rw [passesAlone] at h
  split at h
  · next p hcompile => exact compilesAlone_iff.1 ⟨p, hcompile⟩
  · cases h

/-- A condition passes no record that has no value at the end of its path. -/
theorem Condition.passesAlone_eq_false {c : Condition} (h : ¬ record.Has family c.field) :
    c.passesAlone options family connector record = false := by
  rw [Bool.eq_false_iff]
  intro hpasses
  exact h ((passesAlone_iff_holds (wellFormed_of_passesAlone hpasses)).1 hpasses).has

/-! ## Conditions on numbers -/

section Numbers

variable (hwell : (Operator.equal.comparing path literal).WellFormed options family)
  (hleads : (Operator.equal.comparing path literal).PathLeadsTo family (.scalar type))
  (hnumber : type = .int ∨ type = .float)
include hwell hleads hnumber

/-- On a number, `GreaterThan` and `LessThan` compile wherever `Equal` does. -/
theorem Condition.WellFormed.of_mem_orders {op : Operator} (hop : op ∈ Operator.orders) :
    (op.comparing path literal).WellFormed options family := by
  refine hwell.comparing op fun type' hleads' => ?_
  cases hleads.unique hleads'
  simp only [Operator.orders, List.mem_cons, List.not_mem_nil, or_false] at hop
  obtain rfl | rfl | rfl := hop
  · exact hnumber
  · trivial
  · exact hnumber

variable {names : List String} {value : Literal} (hspells : Spells path names)
  (hreads : Reads family Family.root record names type value)
  (hfit : literal.fit? options type = some operand)
include hspells hreads hfit

/-- A number passes exactly one of the three orders. -/
theorem Condition.existsUnique_passesAlone (hvalue : value.isNaN = false)
    (hoperand : operand.isNaN = false) :
    ∃! op, op ∈ Operator.orders ∧
      (op.comparing path literal).passesAlone options family connector record = true := by
  have hpasses : ∀ op, (op ∈ Operator.orders ∧
      (op.comparing path literal).passesAlone options family connector record = true) ↔
        op ∈ Operator.orders ∧ op.Relates value operand := by
    intro op
    refine and_congr_right fun hop => ?_
    rw [passesAlone_iff_holds (hwell.of_mem_orders hleads hnumber hop),
      holds_iff_relates hspells hreads hfit]
  have hkind := Literal.kind_of_fit? hfit
  simp only [hpasses]
  exact Operator.existsUnique_relates (hreads.kind_eq.trans hkind.symm) (by rwa [hkind]) hvalue
    hoperand

omit hleads hnumber in
/-- What is not a number, on either side, passes `NotEqual` and nothing else. -/
theorem Condition.passesAlone_iff_of_isNaN (hnan : value.isNaN = true ∨ operand.isNaN = true)
    (op : Operator) :
    (op.comparing path literal).passesAlone options family connector record = true ↔
      op = .notEqual := by
  have hrelates : op.Relates value operand ↔ op = .notEqual :=
    Operator.relates_iff_of_isNaN op (hreads.kind_eq.trans (Literal.kind_of_fit? hfit).symm) hnan
  constructor
  · intro hpasses
    have hholds := (passesAlone_iff_holds (wellFormed_of_passesAlone hpasses)).1 hpasses
    exact hrelates.1 ((holds_iff_relates hspells hreads hfit).1 hholds)
  · intro hop
    have hnotEqual : (op.comparing path literal).WellFormed options family :=
      hwell.comparing op fun _ _ => hop ▸ trivial
    rw [passesAlone_iff_holds hnotEqual, holds_iff_relates hspells hreads hfit]
    exact hrelates.2 hop

end Numbers

/-! ## Lists of conditions -/

/-- The conditions that compare each path of a list with its literal. -/
def Operator.comparingAll (op : Operator) (pairs : List (String × Literal)) : List Condition :=
  pairs.map fun (path, literal) => op.comparing path literal

theorem exists_compile_comparingAll (op : Operator) {pairs : List (String × Literal)}
    (connector : Connector) (hne : pairs ≠ [])
    (hwell : ∀ pair ∈ pairs, (op.comparing pair.1 pair.2).WellFormed options family) :
    ∃ p, (⟨some connector, op.comparingAll pairs⟩ : RuleSet).compile options family = .ok p :=
  RuleSet.exists_compile_eq_ok_iff.2 ⟨Option.some_ne_none connector, by simpa [Operator.comparingAll],
    List.forall_mem_map.2 hwell⟩

section Lists

variable {pairs : List (String × Literal)} {all any : Predicate}
  (hwell : ∀ pair ∈ pairs, (Operator.equal.comparing pair.1 pair.2).WellFormed options family)
  (hall : (RuleSet.allOf (Operator.equal.comparingAll pairs)).compile options family = .ok all)
  (hany : (RuleSet.anyOf (Operator.notEqual.comparingAll pairs)).compile options family = .ok any)

include hall in
theorem accepts_allOf_iff : all.accepts record = true ↔
    ∀ pair ∈ pairs, (Operator.equal.comparing pair.1 pair.2).Holds options family record := by
  rw [RuleSet.accepts_iff_holds hall]
  exact List.forall_mem_map

include hany in
theorem accepts_anyOf_iff : any.accepts record = true ↔
    ∃ pair ∈ pairs, (Operator.notEqual.comparing pair.1 pair.2).Holds options family record := by
  rw [RuleSet.accepts_iff_holds hany]
  simp [RuleSet.Holds, RuleSet.anyOf, Operator.comparingAll]

include hwell hall hany

theorem not_accepts_both (record : Record) :
    ¬ (all.accepts record = true ∧ any.accepts record = true) := by
  rw [accepts_allOf_iff hall, accepts_anyOf_iff hany]
  intro hboth
  obtain ⟨hequal, pair, hmem, hnotEqual⟩ := hboth
  exact Condition.not_holds_both (hwell pair hmem) (hequal pair hmem) hnotEqual

/-- Where every path has a value, one of two rule sets accepts: the one that asks for equality
everywhere, or the one that asks for a difference somewhere. -/
theorem accepts_anyOf_eq (hhas : ∀ pair ∈ pairs, record.Has family pair.1) :
    any.accepts record = !all.accepts record := by
  have hdiffers : (∃ pair ∈ pairs,
        (Operator.notEqual.comparing pair.1 pair.2).Holds options family record) ↔
      ¬ ∀ pair ∈ pairs, (Operator.equal.comparing pair.1 pair.2).Holds options family record := by
    push Not
    refine exists_congr fun pair => and_congr_right fun hmem => ?_
    exact Condition.holds_notEqual_iff (hwell pair hmem) (hhas pair hmem)
  rw [Bool.eq_not_iff, ne_eq, Bool.eq_iff_iff, accepts_allOf_iff hall, accepts_anyOf_iff hany,
    hdiffers]
  tauto

end Lists

/-! ## All laws -/

/-- A condition that compiles with `Equal` compiles with `NotEqual`.  A record with a value at
the end of the path passes one of the two, and a record without one passes neither.  On a
number `GreaterThan` and `LessThan` compile as well; of the three orders the value satisfies
one, unless it or the operand is not a number.

Of a list of such conditions, all with `Equal` and one with `NotEqual` exclude each other, and
one of the two holds wherever every path has a value. -/
theorem operator_laws (options : CompileOptions) (family : Family) (connector : Connector) :
    (∀ path literal,
      (Operator.equal.comparing path literal).CompilesAlone options family connector →
        (Operator.notEqual.comparing path literal).CompilesAlone options family connector ∧
        (∀ record : Record,
          (record.Has family path →
            (Operator.notEqual.comparing path literal).passesAlone options family connector
                record =
              !(Operator.equal.comparing path literal).passesAlone options family connector
                record) ∧
          (¬ record.Has family path → ∀ op : Operator,
            (op.comparing path literal).passesAlone options family connector record = false) ∧
          (record.Lacks family path → ¬ record.Has family path)) ∧
        ∀ type, (Operator.equal.comparing path literal).PathLeadsTo family (.scalar type) →
          type = .int ∨ type = .float →
            (Operator.greaterThan.comparing path literal).CompilesAlone options family connector ∧
            (Operator.lessThan.comparing path literal).CompilesAlone options family connector ∧
            ∃ operand, literal.fit? options type = some operand ∧
              ∀ record names value, Spells path names →
                Reads family Family.root record names type value →
                  (value.isNaN = false → operand.isNaN = false →
                    ∃! op, op ∈ Operator.orders ∧
                      (op.comparing path literal).passesAlone options family connector record =
                        true) ∧
                  (value.isNaN = true ∨ operand.isNaN = true → ∀ op : Operator,
                    (op.comparing path literal).passesAlone options family connector record =
                      true ↔ op = .notEqual)) ∧
    ∀ pairs : List (String × Literal), pairs ≠ [] →
      (∀ pair ∈ pairs,
        (Operator.equal.comparing pair.1 pair.2).CompilesAlone options family connector) →
        ∃ all any,
          (RuleSet.allOf (Operator.equal.comparingAll pairs)).compile options family = .ok all ∧
          (RuleSet.anyOf (Operator.notEqual.comparingAll pairs)).compile options family =
            .ok any ∧
          ∀ record,
            ¬ (all.accepts record = true ∧ any.accepts record = true) ∧
            ((∀ pair ∈ pairs, record.Has family pair.1) →
              any.accepts record = !all.accepts record) := by
  refine ⟨fun path literal hcompiles => ?_, fun pairs hne hcompiles => ?_⟩
  · have hwell := Condition.compilesAlone_iff.1 hcompiles
    have hnotEqual := hwell.comparing .notEqual fun _ _ => trivial
    refine ⟨Condition.compilesAlone_iff.2 hnotEqual, fun record => ⟨?_, ?_, ?_⟩, ?_⟩
    · intro hhas
      rw [Bool.eq_not_iff, ne_eq, Bool.eq_iff_iff, Condition.passesAlone_iff_holds hnotEqual,
        Condition.passesAlone_iff_holds hwell, Condition.holds_notEqual_iff hwell hhas]
      tauto
    · intro hnot op
      exact Condition.passesAlone_eq_false hnot
    · exact Record.Lacks.not_has
    · intro type hleads hnumber
      have horders : ∀ op ∈ Operator.orders,
          (op.comparing path literal).CompilesAlone options family connector := fun op hop =>
        Condition.compilesAlone_iff.2 (hwell.of_mem_orders hleads hnumber hop)
      obtain ⟨operand, hfit⟩ := hwell.exists_fit hleads
      refine ⟨horders .greaterThan (by decide), horders .lessThan (by decide), operand, hfit, ?_⟩
      intro record names value hspells hreads
      exact ⟨Condition.existsUnique_passesAlone hwell hleads hnumber hspells hreads hfit,
        Condition.passesAlone_iff_of_isNaN hwell hspells hreads hfit⟩
  · have hwell := fun pair hmem => Condition.compilesAlone_iff.1 (hcompiles pair hmem)
    obtain ⟨all, hall⟩ := exists_compile_comparingAll .equal .and hne hwell
    obtain ⟨any, hany⟩ := exists_compile_comparingAll .notEqual .or hne fun pair hmem =>
      (hwell pair hmem).comparing .notEqual fun _ _ => trivial
    refine ⟨all, any, hall, hany, fun record => ⟨?_, ?_⟩⟩
    · exact not_accepts_both hwell hall hany record
    · exact accepts_anyOf_eq hwell hall hany

/-- Parcels with a weight, and perhaps a parcel inside. -/
def weights : Family := [[⟨"Weight", .scalar .float⟩, ⟨"Inner", .record 0⟩]]

/-- A parcel of two and a half, with a parcel inside whose weight is not a number. -/
def weighed : Record :=
  [.float (.ofRatio false 5 2), .record [.float .nan, .absent]]

theorem operator_laws_weighed :
    (Operator.equal.comparing "Weight" (.string " 25e-1 ")).CompilesAlone {} weights .or ∧
    (∃! op, op ∈ Operator.orders ∧
      (op.comparing "Weight" (.string " 25e-1 ")).passesAlone {} weights .or weighed = true) ∧
    (∀ op : Operator,
      (op.comparing "Inner.Weight" (.int 3)).passesAlone {} weights .or weighed = true ↔
        op = .notEqual) ∧
    (∀ op : Operator,
      (op.comparing "Inner.Inner.Weight" (.int 3)).passesAlone {} weights .or weighed = false) ∧
    ∃ all any,
      (RuleSet.allOf (Operator.equal.comparingAll
        [("Weight", .string " 25e-1 "), ("Inner.Weight", .int 3)])).compile {} weights = .ok all ∧
      (RuleSet.anyOf (Operator.notEqual.comparingAll
        [("Weight", .string " 25e-1 "), ("Inner.Weight", .int 3)])).compile {} weights = .ok any ∧
      any.accepts weighed = !all.accepts weighed := by
  obtain ⟨hone, hlists⟩ := operator_laws {} weights .or
  have hweight : (Operator.equal.comparing "Weight" (.string " 25e-1 ")).CompilesAlone {} weights
      .or :=
    ⟨⟨.or, [⟨"Weight", .equal, .float [0] .equal (.ofRatio false 5 2)⟩]⟩, by decide +kernel⟩
  have hinner : (Operator.equal.comparing "Inner.Weight" (.int 3)).CompilesAlone {} weights .or :=
    ⟨⟨.or, [⟨"Inner.Weight", .equal, .float [1, 0] .equal (.ofInt 3)⟩]⟩, by decide +kernel⟩
  have hinnermost : (Operator.equal.comparing "Inner.Inner.Weight" (.int 3)).CompilesAlone {}
      weights .or :=
    ⟨⟨.or, [⟨"Inner.Inner.Weight", .equal, .float [1, 1, 0] .equal (.ofInt 3)⟩]⟩,
      by decide +kernel⟩
  have hresolve : Path.resolve weights Family.root ["Weight"] = .ok ⟨.scalar .float, [0]⟩ := by
    decide +kernel
  have hresolveInner : Path.resolve weights Family.root ["Inner", "Weight"] =
      .ok ⟨.scalar .float, [1, 0]⟩ := by
    decide +kernel
  have hresolveInnermost : Path.resolve weights Family.root ["Inner", "Inner", "Weight"] =
      .ok ⟨.scalar .float, [1, 1, 0]⟩ := by
    decide +kernel
  have hspells : Spells "Weight" ["Weight"] := segments_eq_iff.1 (by decide +kernel)
  have hspellsInner : Spells "Inner.Weight" ["Inner", "Weight"] :=
    segments_eq_iff.1 (by decide +kernel)
  have hspellsInnermost : Spells "Inner.Inner.Weight" ["Inner", "Inner", "Weight"] :=
    segments_eq_iff.1 (by decide +kernel)
  have hreads : Reads weights Family.root weighed ["Weight"] .float
      (.float (.ofRatio false 5 2)) :=
    (reads_iff_of_resolve hresolve).2 ⟨rfl, rfl⟩
  have hreadsInner : Reads weights Family.root weighed ["Inner", "Weight"] .float
      (.float .nan) :=
    (reads_iff_of_resolve hresolveInner).2 ⟨rfl, rfl⟩
  refine ⟨hweight, ?_, ?_, ?_, ?_⟩
  · obtain ⟨-, -, hnumbers⟩ := hone _ _ hweight
    obtain ⟨-, -, operand, hfit, hlaws⟩ := hnumbers .float
      ⟨_, hspells, exists_resolve_eq_ok_iff.1 ⟨_, hresolve⟩⟩ (.inr rfl)
    have hoperand : operand.isNaN = false := by
      have hfit' : Literal.fit? {} (.string " 25e-1 ") .float =
          some (.float (.ofRatio false 5 2)) := by
        decide +kernel
      obtain rfl := Option.some.inj (hfit.symm.trans hfit')
      decide +kernel
    exact (hlaws weighed _ _ hspells hreads).1 (by decide +kernel) hoperand
  · obtain ⟨-, -, hnumbers⟩ := hone _ _ hinner
    obtain ⟨-, -, operand, hfit, hlaws⟩ := hnumbers .float
      ⟨_, hspellsInner, exists_resolve_eq_ok_iff.1 ⟨_, hresolveInner⟩⟩ (.inr rfl)
    exact (hlaws weighed _ _ hspellsInner hreadsInner).2 (.inl (by decide +kernel))
  · obtain ⟨-, hrecords, -⟩ := hone _ _ hinnermost
    obtain ⟨-, hmissing, hlacks⟩ := hrecords weighed
    have hlookup : (weights.schema 0).lookup "Inner" = some ⟨"Inner", .record 0, 1⟩ := by
      decide +kernel
    have hdeclared : LastDeclared (weights.getD 0 []) "Inner" 1 (.record 0) :=
      (Family.lookup_schema_iff.1 hlookup).2
    exact hmissing (hlacks ⟨_, hspellsInnermost, .inward hdeclared rfl (.link hdeclared rfl)⟩)
  · obtain ⟨all, any, hall, hany, hrecords⟩ := hlists
      [("Weight", .string " 25e-1 "), ("Inner.Weight", .int 3)] (List.cons_ne_nil _ _)
      (by simpa using ⟨hweight, hinner⟩)
    refine ⟨all, any, hall, hany, (hrecords weighed).2 ?_⟩
    simp only [List.forall_mem_cons, List.not_mem_nil, false_implies, implies_true, and_true]
    exact ⟨⟨_, _, _, hspells, hreads⟩, ⟨_, _, _, hspellsInner, hreadsInner⟩⟩

end RecordFilter
