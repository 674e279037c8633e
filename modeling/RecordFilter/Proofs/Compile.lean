import Mathlib
import RecordFilter.Proofs.Interpretation

/-!
# What compiles, and to what

Compilation is a sequence of checks.  The statements here say once what success means at
each stage, so that no later proof opens the stages again.

* `compileTest_eq_ok_iff`: a literal that fits the type, and an operator that the type has.
* `compileCondition_eq_ok_iff`: the condition `CompilesTo` something, wherever it stands.
* `compileConditions_eq_ok_iff` and `RuleSet.compile_eq_ok_iff`: condition by condition.
-/

namespace RecordFilter

open Number

variable {options : CompileOptions} {family : Family}

/-! ## Tests -/

/-- The test that compares with an operand, if the type of the operand has the operator. -/
def Test.ofOperand? (route : List Nat) (op : Operator) : Literal → Option Test
  | .int n => (NumberComparison.ofOperator? op).map fun comparison => .int route comparison n
  | .float x => (NumberComparison.ofOperator? op).map fun comparison => .float route comparison x
  | .bool b => (BoolComparison.ofOperator? op).map fun comparison => .bool route comparison b
  | .string s => (StringComparison.ofOperator? op).map fun comparison => .string route comparison s

theorem compileScalar_eq_ok_iff {α β : Type} {type : ScalarType} {c : Condition} {literal : Literal}
    {operand? : Option α} {comparison? : Option β} {make : β → α → Test} {test : Test} :
    compileScalar type c literal operand? comparison? make = .ok test ↔
      ∃ operand, operand? = some operand ∧
        comparison?.map (fun comparison => make comparison operand) = some test := by
  unfold compileScalar
  cases operand? with
  | none => simp
  | some operand =>
    cases comparison? with
    | none => simp
    | some comparison => simp

/-- A test is compiled from a literal that fits and an operator that goes with it. -/
theorem compileTest_eq_ok_iff {c : Condition} {literal : Literal} {type : ScalarType}
    {route : List Nat} {test : Test} :
    compileTest options c literal type route = .ok test ↔
      ∃ operand, literal.fit? options type = some operand ∧
        Test.ofOperand? route c.operator operand = some test := by
  cases type <;> simp only [compileTest, compileScalar_eq_ok_iff, Literal.fit?]
  all_goals
    constructor
    · rintro ⟨operand, hfit, htest⟩
      exact ⟨_, Option.map_eq_some_iff.2 ⟨operand, hfit, rfl⟩, htest⟩
    · rintro ⟨operand, hfit, htest⟩
      obtain ⟨value, hvalue, rfl⟩ := Option.map_eq_some_iff.1 hfit
      exact ⟨value, hvalue, htest⟩

/-! ## Conditions -/

/-- What a condition compiles to, wherever it stands in a rule set. -/
structure Condition.CompilesTo (options : CompileOptions) (family : Family) (c : Condition)
    (compiled : CompiledCondition) : Prop where
  not_blank : Text.strip c.field.toList ≠ []
  field_eq : compiled.field = c.field
  operator_eq : compiled.operator = c.operator
  exists_test : ∃ literal type route,
    c.value = some literal ∧
      Path.resolve family Family.root (Path.segments c.field) = .ok ⟨.scalar type, route⟩ ∧
        compileTest options c literal type route = .ok compiled.test

theorem resolvePath_eq_ok_iff {path : String} {target : Path.Target} :
    resolvePath family path = .ok target ↔
      Path.resolve family Family.root (Path.segments path) = .ok target :=
  Except.mapError_eq_ok_iff

/-- Past its first two stages, a condition depends on its path and its test. -/
theorem compileCondition_of_value {index : Nat} {c : Condition} {literal : Literal}
    (hblank : Text.strip c.field.toList ≠ []) (hvalue : c.value = some literal) :
    compileCondition options family index c =
      match resolvePath family c.field with
      | .error e => .error e
      | .ok ⟨.record _, _⟩ => .error (operatorError c.operator c.field .record)
      | .ok ⟨.scalar type, route⟩ =>
        (compileTest options c literal type route).map fun test => ⟨c.field, c.operator, test⟩ := by
  rcases hpath : resolvePath family c.field with e | ⟨type | inner, route⟩ <;>
    simp only [compileCondition, if_neg hblank, hvalue, hpath]

/-- A condition compiles when every check passes. -/
theorem compileCondition_eq_ok_iff {index : Nat} {c : Condition} {compiled : CompiledCondition} :
    compileCondition options family index c = .ok compiled ↔
      c.CompilesTo options family compiled := by
  constructor
  · intro h
    unfold compileCondition at h
    split at h
    · cases h
    · next hblank =>
      split at h
      · cases h
      · next literal hvalue =>
        split at h
        · cases h
        · cases h
        · next type route hresolve =>
          obtain ⟨test, htest, rfl⟩ := Except.map_eq_ok_iff.1 h
          exact ⟨hblank, rfl, rfl, literal, type, route, hvalue, resolvePath_eq_ok_iff.1 hresolve,
            htest⟩
  · rintro ⟨hblank, hfield, hoperator, literal, type, route, hvalue, hresolve, htest⟩
    obtain ⟨field, operator, test⟩ := compiled
    simp only at hfield hoperator htest
    subst hfield hoperator
    rw [compileCondition_of_value hblank hvalue, resolvePath_eq_ok_iff.2 hresolve]
    exact Except.map_eq_ok_iff.2 ⟨test, htest, rfl⟩

/-- Conditions compile one by one, each on its own. -/
theorem compileConditions_eq_ok_iff {start : Nat} {cs : List Condition}
    {compiled : List CompiledCondition} :
    compileConditions options family start cs = .ok compiled ↔
      List.Forall₂ (Condition.CompilesTo options family) cs compiled := by
  induction cs generalizing start compiled with
  | nil =>
    rw [compileConditions, Except.ok.injEq, List.forall₂_nil_left_iff]
    exact eq_comm
  | cons c cs ih =>
    rw [compileConditions, List.forall₂_cons_left_iff]
    cases hc : compileCondition options family start c with
    | error e =>
      simp only [reduceCtorEq, false_iff, not_exists]
      rintro first rest ⟨hfirst, -, -⟩
      rw [compileCondition_eq_ok_iff.2 hfirst] at hc
      cases hc
    | ok first =>
      simp only [Except.map_eq_ok_iff, ih]
      constructor
      · rintro ⟨rest, hrest, rfl⟩
        exact ⟨first, rest, compileCondition_eq_ok_iff.1 hc, hrest, rfl⟩
      · rintro ⟨first', rest, hfirst', hrest, rfl⟩
        rw [compileCondition_eq_ok_iff.2 hfirst', Except.ok.injEq] at hc
        exact ⟨rest, hrest, by rw [hc]⟩

/-- Each of some things has a match exactly when all of them together have a list of matches. -/
theorem exists_forall₂_iff {α β : Type} {R : α → β → Prop} {as : List α} :
    (∃ bs, List.Forall₂ R as bs) ↔ ∀ a ∈ as, ∃ b, R a b := by
  induction as with
  | nil => simp
  | cons a as ih =>
    simp only [List.forall₂_cons_left_iff, List.forall_mem_cons, ← ih]
    constructor
    · rintro ⟨_, b, bs, hb, hbs, -⟩
      exact ⟨⟨b, hb⟩, bs, hbs⟩
    · rintro ⟨⟨b, hb⟩, bs, hbs⟩
      exact ⟨_, b, bs, hb, hbs, rfl⟩

/-! ## Rule sets -/

/-- Past its first two checks, a rule set is its conditions. -/
theorem RuleSet.compile_of_connector {rules : RuleSet} {connector : Connector}
    (hconnector : rules.connector = some connector) (hne : rules.conditions ≠ []) :
    rules.compile options family =
      (compileConditions options family 0 rules.conditions).map (Predicate.mk connector) := by
  obtain ⟨connector?, conditions⟩ := rules
  obtain rfl : connector? = some connector := hconnector
  cases conditions with
  | nil => exact absurd rfl hne
  | cons c cs => rfl

/-- A rule set compiles when it has a connector and a condition, and every condition
compiles. -/
theorem RuleSet.compile_eq_ok_iff {rules : RuleSet} {p : Predicate} :
    rules.compile options family = .ok p ↔
      rules.connector = some p.connector ∧ rules.conditions ≠ [] ∧
        List.Forall₂ (Condition.CompilesTo options family) rules.conditions p.conditions := by
  constructor
  · intro h
    obtain ⟨connector?, conditions⟩ := rules
    cases connector? with
    | none => cases h
    | some connector =>
      cases conditions with
      | nil => cases h
      | cons c cs =>
        rw [compile_of_connector rfl (List.cons_ne_nil c cs)] at h
        obtain ⟨compiled, hcompiled, rfl⟩ := Except.map_eq_ok_iff.1 h
        exact ⟨rfl, List.cons_ne_nil c cs, compileConditions_eq_ok_iff.1 hcompiled⟩
  · rintro ⟨hconnector, hne, hcompiled⟩
    rw [compile_of_connector hconnector hne]
    exact Except.map_eq_ok_iff.2 ⟨p.conditions, compileConditions_eq_ok_iff.2 hcompiled, rfl⟩

/-- A rule set of one condition on a field that is there. -/
theorem RuleSet.compile_oneCondition_eq_ok_iff {field : String} {type : ScalarType}
    {route : List Nat} (hblank : Text.strip field.toList ≠ [])
    (hresolve : Path.resolve family Family.root (Path.segments field) = .ok ⟨.scalar type, route⟩)
    {connector : Connector} {op : Operator} {literal : Literal} {p : Predicate} :
    RuleSet.compile ⟨some connector, [⟨field, op, some literal⟩]⟩ options family = .ok p ↔
      ∃ operand test, literal.fit? options type = some operand ∧
        Test.ofOperand? route op operand = some test ∧ p = ⟨connector, [⟨field, op, test⟩]⟩ := by
  rw [RuleSet.compile_eq_ok_iff]
  constructor
  · intro h
    obtain ⟨hconnector, -, hconditions⟩ := h
    obtain ⟨connector', compiled⟩ := p
    obtain ⟨⟨field', op', test⟩, rest, hcompiled, hrest, hp⟩ := List.forall₂_cons_left_iff.1 hconditions
    obtain rfl := List.forall₂_nil_left_iff.1 hrest
    obtain ⟨-, hfield, hop, literal', type', route', hvalue, hroute, htest⟩ := hcompiled
    cases hconnector
    cases hfield
    cases hop
    cases hvalue
    cases hp
    cases Except.ok.inj (hroute.symm.trans hresolve)
    obtain ⟨operand, hfit, hoperand⟩ := compileTest_eq_ok_iff.1 htest
    exact ⟨operand, test, hfit, hoperand, rfl⟩
  · intro h
    obtain ⟨operand, test, hfit, hoperand, rfl⟩ := h
    refine ⟨rfl, List.cons_ne_nil _ _, .cons ?_ .nil⟩
    exact ⟨hblank, rfl, rfl, literal, type, route, rfl, hresolve,
      compileTest_eq_ok_iff.2 ⟨operand, hfit, hoperand⟩⟩

end RecordFilter
