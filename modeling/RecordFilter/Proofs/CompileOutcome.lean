import Mathlib
import RecordFilter.Proofs.PathFailure

/-!
# When a rule set compiles, and what is wrong with it when it does not

`RuleSet.WellFormed` and `RuleSet.FailsWith` say by declarations, without walks or tests,
which rule sets compile and what is wrong with the others.

* A condition goes through stages: its path, its literal, where the path leads, whether the
  literal fits there, whether the type has the operator.  Each constructor of
  `Condition.FailsWith` is one stage that fails after those before it were passed;
  `compileCondition_eq_error_iff` says that these are the errors of a condition.
* A rule set fails with the error of the first condition that has one
  (`compileConditions_eq_error_iff`).

`RuleSet.compile_outcome` puts both sides together.
-/

namespace RecordFilter

open RecordFilter.Path

/-! ## Well-formed rule sets -/

/-- Every type has equality, numbers are ordered, and strings contain one another. -/
def ScalarType.Supports (type : ScalarType) : Operator → Prop
  | .equal | .notEqual => True
  | .greaterThan | .lessThan => type = .int ∨ type = .float
  | .contains => type = .string

namespace Condition

/-- The path of a condition is made of white space only. -/
def Blank (c : Condition) : Prop :=
  ∀ ch ∈ c.field.toList, Text.isBlank ch

/-- The path of a condition, name by name, leads to a field of a kind. -/
def PathLeadsTo (family : Family) (c : Condition) (kind : FieldKind) : Prop :=
  ∃ names, Spells c.field names ∧ LeadsTo family Family.root names kind

/-- A condition whose path leads to a single value, with a literal and an operator that go
with the type of the value. -/
structure WellFormed (options : CompileOptions) (family : Family) (c : Condition) : Prop where
  not_blank : ¬ c.Blank
  typed : ∃ literal type operand, c.value = some literal ∧ c.PathLeadsTo family (.scalar type) ∧
    literal.fit? options type = some operand ∧ type.Supports c.operator

/-- What is wrong with the condition at a place of a rule set: the first of its stages that
is not passed. -/
inductive FailsWith (options : CompileOptions) (family : Family) (index : Nat) (c : Condition) :
    CompileError → Prop
  | blankField (hblank : c.Blank) :
      FailsWith options family index c (.invalidCondition index c.field .blankField)
  | noValue (hblank : ¬ c.Blank) (hvalue : c.value = none) :
      FailsWith options family index c (.invalidCondition index c.field .noValue)
  | fieldNotFound {literal names segment} (hblank : ¬ c.Blank) (hvalue : c.value = some literal)
      (hspells : Spells c.field names) (hlost : LostAt family Family.root names segment) :
      FailsWith options family index c (.fieldNotFound segment c.field)
  | recordField {literal inner} (hblank : ¬ c.Blank) (hvalue : c.value = some literal)
      (hleads : c.PathLeadsTo family (.record inner)) :
      FailsWith options family index c (.unsupportedOperator c.operator c.field .record)
  | literalMismatch {literal type} (hblank : ¬ c.Blank) (hvalue : c.value = some literal)
      (hleads : c.PathLeadsTo family (.scalar type)) (hfit : literal.fit? options type = none) :
      FailsWith options family index c (.typeMismatch c.field type (.literal literal))
  | containsMismatch {literal type operand} (hblank : ¬ c.Blank) (hvalue : c.value = some literal)
      (hleads : c.PathLeadsTo family (.scalar type))
      (hfit : literal.fit? options type = some operand) (hoperator : c.operator = .contains)
      (htype : type ≠ .string) :
      FailsWith options family index c (.typeMismatch c.field .string (.field type))
  | operatorMismatch {literal type operand} (hblank : ¬ c.Blank) (hvalue : c.value = some literal)
      (hleads : c.PathLeadsTo family (.scalar type))
      (hfit : literal.fit? options type = some operand) (hoperator : c.operator ≠ .contains)
      (hsupports : ¬ type.Supports c.operator) :
      FailsWith options family index c (.unsupportedOperator c.operator c.field (.scalar type))

end Condition

namespace RuleSet

/-- A rule set with a connector and conditions, all of them well formed. -/
structure WellFormed (options : CompileOptions) (family : Family) (rules : RuleSet) : Prop where
  connector : rules.connector ≠ none
  conditions_ne_nil : rules.conditions ≠ []
  conditions : ∀ c ∈ rules.conditions, c.WellFormed options family

/-- What is wrong with a rule set: there is no connector, or there is one but no condition,
or a condition is at fault and all those before it are well formed. -/
inductive FailsWith (options : CompileOptions) (family : Family) (rules : RuleSet) :
    CompileError → Prop
  | noConnector (hconnector : rules.connector = none) :
      FailsWith options family rules (.invalidRuleSet .noConnector)
  | noConditions (hconnector : rules.connector ≠ none) (hconditions : rules.conditions = []) :
      FailsWith options family rules (.invalidRuleSet .noConditions)
  | condition {before c after e} (hconnector : rules.connector ≠ none)
      (hconditions : rules.conditions = before ++ c :: after)
      (hbefore : ∀ c' ∈ before, c'.WellFormed options family)
      (hfails : c.FailsWith options family before.length e) :
      FailsWith options family rules e

end RuleSet

variable {options : CompileOptions} {family : Family}

/-! ## Blank paths -/

/-- Nothing is left of a text exactly when all of it is blank. -/
theorem strip_eq_nil_iff {cs : List Char} : Text.strip cs = [] ↔ ∀ c ∈ cs, Text.isBlank c := by
  rw [Text.strip, List.reverse_eq_nil_iff, List.dropWhile_eq_nil_iff]
  constructor
  · intro h
    by_contra hall
    have hne : cs.dropWhile Text.isBlank ≠ [] := by rwa [ne_eq, List.dropWhile_eq_nil_iff]
    have hfirst := List.head_dropWhile_not Text.isBlank hne
    rw [h _ (List.mem_reverse.2 (List.head_mem hne))] at hfirst
    cases hfirst
  · intro h c hc
    exact h c ((List.dropWhile_suffix Text.isBlank).subset (List.mem_reverse.1 hc))

/-! ## Tests -/

/-- A type has an operator when a test can be made with it. -/
theorem ofOperand?_eq_none_iff {route : List Nat} {op : Operator} {operand : Literal} :
    Test.ofOperand? route op operand = none ↔ ¬ operand.kind.Supports op := by
  cases operand <;> cases op <;>
    simp [Test.ofOperand?, Literal.kind, ScalarType.Supports, NumberComparison.ofOperator?,
      BoolComparison.ofOperator?, StringComparison.ofOperator?]

theorem compileScalar_eq {α β : Type} {type : ScalarType} {c : Condition} {literal : Literal}
    {route : List Nat} {operand? : Option α} {comparison? : Option β} {make : β → α → Test}
    {wrap : α → Literal}
    (hwrap : ∀ operand, Test.ofOperand? route c.operator (wrap operand) =
      comparison?.map fun comparison => make comparison operand) :
    compileScalar type c literal operand? comparison? make =
      match operand?.map wrap with
      | none => .error (.typeMismatch c.field type (.literal literal))
      | some operand =>
        match Test.ofOperand? route c.operator operand with
        | none => .error (operatorError c.operator c.field (.scalar type))
        | some test => .ok test := by
  cases operand? with
  | none => rfl
  | some operand =>
    rw [Option.map_some]
    simp only [hwrap]
    cases comparison? <;> rfl

/-- First the literal is fitted to the type, then the operator. -/
theorem compileTest_eq {c : Condition} {literal : Literal} {type : ScalarType}
    {route : List Nat} :
    compileTest options c literal type route =
      match literal.fit? options type with
      | none => .error (.typeMismatch c.field type (.literal literal))
      | some operand =>
        match Test.ofOperand? route c.operator operand with
        | none => .error (operatorError c.operator c.field (.scalar type))
        | some test => .ok test := by
  cases type <;> exact compileScalar_eq fun _ => rfl

/-- A test is at fault where the literal does not fit the type, or else the operator. -/
theorem compileTest_eq_error_iff {c : Condition} {literal : Literal} {type : ScalarType}
    {route : List Nat} {e : CompileError} :
    compileTest options c literal type route = .error e ↔
      literal.fit? options type = none ∧ e = .typeMismatch c.field type (.literal literal) ∨
        ∃ operand, literal.fit? options type = some operand ∧ ¬ type.Supports c.operator ∧
          e = operatorError c.operator c.field (.scalar type) := by
  rw [compileTest_eq]
  cases hfit : literal.fit? options type with
  | none => simp [eq_comm]
  | some operand =>
    have hkind := Literal.kind_of_fit? hfit
    cases htest : Test.ofOperand? route c.operator operand with
    | none =>
      have hnot := ofOperand?_eq_none_iff.1 htest
      rw [hkind] at hnot
      simp [htest, hnot, eq_comm]
    | some test =>
      have hsupports : type.Supports c.operator := by
        by_contra hnot
        have hnone : Test.ofOperand? route c.operator operand = none :=
          ofOperand?_eq_none_iff.2 (by rwa [hkind])
        rw [htest] at hnone
        cases hnone
      simp [htest, hsupports]

/-- What the error for an operator is where the type of a single value does not have it. -/
theorem operatorError_scalar {op : Operator} {path : String} {type : ScalarType} :
    operatorError op path (.scalar type) =
      if op = .contains then .typeMismatch path .string (.field type)
      else .unsupportedOperator op path (.scalar type) := rfl

/-- A test is refused on account of its literal where the literal does not fit the type. -/
theorem compileTest_eq_typeMismatch_iff {c : Condition} {literal : Literal} {type : ScalarType}
    {route : List Nat} :
    compileTest options c literal type route =
        .error (.typeMismatch c.field type (.literal literal)) ↔
      literal.fit? options type = none := by
  rw [compileTest_eq_error_iff]
  constructor
  · rintro (⟨hfit, -⟩ | ⟨operand, -, -, herror⟩)
    · exact hfit
    · rw [operatorError_scalar] at herror
      split at herror <;> cases herror
  · intro hfit
    exact .inl ⟨hfit, rfl⟩

/-- If literals fit the type in one way, a test is refused where that way gives nothing. -/
theorem compileTest_eq_typeMismatch_iff_of_fit? {c : Condition} {literal : Literal}
    {type : ScalarType} {route : List Nat} {α : Type} {reading : Option α} {operand : α → Literal}
    (hfit : literal.fit? options type = reading.map operand) :
    compileTest options c literal type route =
        .error (.typeMismatch c.field type (.literal literal)) ↔
      ¬ ∃ value, reading = some value := by
  rw [compileTest_eq_typeMismatch_iff, hfit, Option.map_eq_none_iff,
    Option.eq_none_iff_forall_ne_some, not_exists]

/-! ## Conditions -/

theorem Condition.pathLeadsTo_iff {c : Condition} {kind : FieldKind} :
    c.PathLeadsTo family kind ↔
      ∃ route, Path.resolve family Family.root (segments c.field) = .ok ⟨kind, route⟩ := by
  rw [exists_resolve_eq_ok_iff]
  constructor
  · rintro ⟨names, hspells, hleads⟩
    rwa [segments_eq_iff.2 hspells]
  · intro hleads
    exact ⟨segments c.field, segments_eq_iff.1 rfl, hleads⟩

/-- A path leads to fields of one kind only. -/
theorem Condition.PathLeadsTo.unique {c : Condition} {kind kind' : FieldKind}
    (h : c.PathLeadsTo family kind) (h' : c.PathLeadsTo family kind') : kind = kind' := by
  obtain ⟨route, hpath⟩ := pathLeadsTo_iff.1 h
  obtain ⟨route', hpath'⟩ := pathLeadsTo_iff.1 h'
  rw [hpath] at hpath'
  cases hpath'
  rfl

theorem Condition.strip_ne_nil {c : Condition} (h : ¬ c.Blank) : Text.strip c.field.toList ≠ [] :=
  fun hstrip => h (strip_eq_nil_iff.1 hstrip)

theorem compileCondition_of_leads {index : Nat} {c : Condition} {literal : Literal}
    {type : ScalarType} {e : CompileError} (hblank : ¬ c.Blank) (hvalue : c.value = some literal)
    (hleads : c.PathLeadsTo family (.scalar type))
    (htest : ∀ route, compileTest options c literal type route = .error e) :
    compileCondition options family index c = .error e := by
  obtain ⟨route, hpath⟩ := Condition.pathLeadsTo_iff.1 hleads
  rw [compileCondition_of_value (Condition.strip_ne_nil hblank) hvalue, resolvePath_eq_ok_iff.2 hpath]
  exact Except.map_eq_error_iff.2 (htest route)

/-- What is wrong with a condition is the error that it is refused with. -/
theorem Condition.FailsWith.compileCondition {index : Nat} {c : Condition} {e : CompileError}
    (h : c.FailsWith options family index e) :
    compileCondition options family index c = .error e := by
  cases h with
  | blankField hblank =>
    rw [RecordFilter.compileCondition, if_pos (strip_eq_nil_iff.2 hblank)]
  | noValue hblank hvalue =>
    rw [RecordFilter.compileCondition, if_neg (strip_ne_nil hblank), hvalue]
  | fieldNotFound hblank hvalue hspells hlost =>
    rw [← segments_eq_iff.2 hspells] at hlost
    rw [compileCondition_of_value (Condition.strip_ne_nil hblank) hvalue, resolvePath_eq_error_iff.2 ⟨_, hlost, rfl⟩]
  | recordField hblank hvalue hleads =>
    obtain ⟨route, hpath⟩ := Condition.pathLeadsTo_iff.1 hleads
    rw [compileCondition_of_value (Condition.strip_ne_nil hblank) hvalue, resolvePath_eq_ok_iff.2 hpath]
    rfl
  | literalMismatch hblank hvalue hleads hfit =>
    exact compileCondition_of_leads hblank hvalue hleads fun route =>
      compileTest_eq_error_iff.2 (.inl ⟨hfit, rfl⟩)
  | containsMismatch hblank hvalue hleads hfit hop htype =>
    refine compileCondition_of_leads hblank hvalue hleads fun route =>
      compileTest_eq_error_iff.2 (.inr ⟨_, hfit, ?_, ?_⟩)
    · rwa [hop]
    · rw [operatorError_scalar, if_pos hop]
  | operatorMismatch hblank hvalue hleads hfit hop hsupports =>
    refine compileCondition_of_leads hblank hvalue hleads fun route =>
      compileTest_eq_error_iff.2 (.inr ⟨_, hfit, hsupports, ?_⟩)
    rw [operatorError_scalar, if_neg hop]

/-- A condition is at fault when one of its stages is. -/
theorem compileCondition_eq_error_iff {index : Nat} {c : Condition} {e : CompileError} :
    compileCondition options family index c = .error e ↔ c.FailsWith options family index e := by
  refine ⟨fun h => ?_, Condition.FailsWith.compileCondition⟩
  by_cases hblank : c.Blank
  · have hfails : c.FailsWith options family index
        (.invalidCondition index c.field .blankField) := .blankField hblank
    rw [hfails.compileCondition] at h
    cases h
    exact hfails
  cases hvalue : c.value with
  | none =>
    have hfails : c.FailsWith options family index
        (.invalidCondition index c.field .noValue) := .noValue hblank hvalue
    rw [hfails.compileCondition] at h
    cases h
    exact hfails
  | some literal =>
    rw [compileCondition_of_value (Condition.strip_ne_nil hblank) hvalue] at h
    split at h
    · next e' hpath =>
      cases h
      obtain ⟨segment, hlost, rfl⟩ := resolvePath_eq_error_iff.1 hpath
      exact .fieldNotFound hblank hvalue (segments_eq_iff.1 rfl) hlost
    · next inner route hpath =>
      cases h
      exact .recordField hblank hvalue
        (Condition.pathLeadsTo_iff.2 ⟨route, resolvePath_eq_ok_iff.1 hpath⟩)
    · next type route hpath =>
      have hleads : c.PathLeadsTo family (.scalar type) :=
        Condition.pathLeadsTo_iff.2 ⟨route, resolvePath_eq_ok_iff.1 hpath⟩
      have htest := Except.map_eq_error_iff.1 h
      rcases compileTest_eq_error_iff.1 htest with ⟨hfit, rfl⟩ | ⟨operand, hfit, hsupports, rfl⟩
      · exact .literalMismatch hblank hvalue hleads hfit
      · rw [operatorError_scalar]
        split
        · next hop =>
          refine .containsMismatch hblank hvalue hleads hfit hop ?_
          rwa [hop] at hsupports
        · next hop => exact .operatorMismatch hblank hvalue hleads hfit hop hsupports

/-- A condition compiles exactly when it is well formed. -/
theorem Condition.exists_compilesTo_iff {c : Condition} :
    (∃ compiled, c.CompilesTo options family compiled) ↔ c.WellFormed options family := by
  constructor
  · rintro ⟨compiled, hblank, -, -, literal, type, route, hvalue, hpath, htest⟩
    obtain ⟨operand, hfit, htest⟩ := compileTest_eq_ok_iff.1 htest
    refine ⟨fun h => hblank (strip_eq_nil_iff.2 h), literal, type, operand, hvalue,
      pathLeadsTo_iff.2 ⟨route, hpath⟩, hfit, ?_⟩
    by_contra hnot
    rw [← Literal.kind_of_fit? hfit] at hnot
    rw [ofOperand?_eq_none_iff.2 hnot] at htest
    cases htest
  · rintro ⟨hblank, literal, type, operand, hvalue, hleads, hfit, hsupports⟩
    obtain ⟨route, hpath⟩ := pathLeadsTo_iff.1 hleads
    have hkind := Literal.kind_of_fit? hfit
    cases htest : Test.ofOperand? route c.operator operand with
    | none =>
      rw [ofOperand?_eq_none_iff, hkind] at htest
      exact absurd hsupports htest
    | some test =>
      exact ⟨⟨c.field, c.operator, test⟩, fun h => hblank (strip_eq_nil_iff.1 h), rfl, rfl,
        literal, type, route, hvalue, hpath, compileTest_eq_ok_iff.2 ⟨operand, hfit, htest⟩⟩

/-- A condition that is at fault is not well formed. -/
theorem Condition.FailsWith.not_wellFormed {index : Nat} {c : Condition} {e : CompileError}
    (h : c.FailsWith options family index e) : ¬ c.WellFormed options family := by
  intro hwell
  obtain ⟨compiled, hcompiled⟩ := Condition.exists_compilesTo_iff.2 hwell
  have hok : RecordFilter.compileCondition options family index c = .ok compiled :=
    compileCondition_eq_ok_iff.2 hcompiled
  rw [h.compileCondition] at hok
  cases hok

/-- The first item of a list that is at fault is the one in front, or it is the first of the
others, with one more sound item before it. -/
theorem exists_first_cons_iff {α : Type} (Sound : α → Prop) (Faulty : Nat → α → Prop) (a : α)
    (as : List α) :
    (∃ before c after, a :: as = before ++ c :: after ∧ (∀ c' ∈ before, Sound c') ∧
        Faulty before.length c) ↔
      Faulty 0 a ∨ Sound a ∧ ∃ before c after, as = before ++ c :: after ∧
        (∀ c' ∈ before, Sound c') ∧ Faulty (before.length + 1) c := by
  constructor
  · rintro ⟨before, c, after, has, hbefore, hc⟩
    cases before with
    | nil =>
      obtain ⟨rfl, -⟩ := List.cons.inj has
      exact .inl hc
    | cons b before =>
      obtain ⟨rfl, rfl⟩ := List.cons.inj has
      obtain ⟨ha, hbefore⟩ := List.forall_mem_cons.1 hbefore
      exact .inr ⟨ha, before, c, after, rfl, hbefore, hc⟩
  · rintro (ha | ⟨ha, before, c, after, rfl, hbefore, hc⟩)
    · exact ⟨[], a, as, rfl, List.forall_mem_nil Sound, ha⟩
    · exact ⟨a :: before, c, after, rfl, List.forall_mem_cons.2 ⟨ha, hbefore⟩, hc⟩

/-- Conditions are refused with the error of the first one that is at fault.  The induction
is on the conditions; one that is well formed is passed over. -/
theorem compileConditions_eq_error_iff {start : Nat} {cs : List Condition} {e : CompileError} :
    compileConditions options family start cs = .error e ↔
      ∃ before c after, cs = before ++ c :: after ∧
        (∀ c' ∈ before, c'.WellFormed options family) ∧
          c.FailsWith options family (start + before.length) e := by
  induction cs generalizing start with
  | nil => simp [compileConditions]
  | cons first cs ih =>
    refine Iff.trans ?_ (exists_first_cons_iff _
      (fun i (c : Condition) => c.FailsWith options family (start + i) e) first cs).symm
    rw [compileConditions]
    simp only [Nat.add_zero]
    cases hfirst : compileCondition options family start first with
    | error e' =>
      have hill := (compileCondition_eq_error_iff.1 hfirst).not_wellFormed
      rw [← compileCondition_eq_error_iff, hfirst]
      simp only [hill, false_and, or_false, Except.error.injEq]
    | ok compiled =>
      have hwell := Condition.exists_compilesTo_iff.1
        ⟨compiled, compileCondition_eq_ok_iff.1 hfirst⟩
      have hsound : ¬ first.FailsWith options family start e := fun h => h.not_wellFormed hwell
      simp only [Except.map_eq_error_iff, ih, hsound, hwell, true_and, false_or, Nat.add_assoc,
        Nat.add_comm 1]

/-- Compiled conditions keep the paths and operators of those that they come from. -/
theorem map_field_operator_eq {cs : List Condition} {compiled : List CompiledCondition}
    (h : List.Forall₂ (Condition.CompilesTo options family) cs compiled) :
    compiled.map (fun k => (k.field, k.operator)) = cs.map fun c => (c.field, c.operator) := by
  induction h with
  | nil => rfl
  | cons hc _ ih => rw [List.map_cons, List.map_cons, hc.field_eq, hc.operator_eq, ih]

/-! ## Rule sets -/

/-- A rule set compiles exactly when it is well formed. -/
theorem RuleSet.exists_compile_eq_ok_iff {rules : RuleSet} :
    (∃ p, rules.compile options family = .ok p) ↔ rules.WellFormed options family := by
  have hconditions : (∃ compiled,
      List.Forall₂ (Condition.CompilesTo options family) rules.conditions compiled) ↔
        ∀ c ∈ rules.conditions, c.WellFormed options family := by
    simp only [exists_forall₂_iff, Condition.exists_compilesTo_iff]
  constructor
  · rintro ⟨p, hp⟩
    obtain ⟨hconnector, hne, hcompiled⟩ := compile_eq_ok_iff.1 hp
    exact ⟨by simp [hconnector], hne, hconditions.1 ⟨_, hcompiled⟩⟩
  · rintro ⟨hconnector, hne, hwell⟩
    obtain ⟨connector, hconnector⟩ := Option.ne_none_iff_exists'.1 hconnector
    obtain ⟨compiled, hcompiled⟩ := hconditions.2 hwell
    exact ⟨⟨connector, compiled⟩, compile_eq_ok_iff.2 ⟨hconnector, hne, hcompiled⟩⟩

/-- What is wrong with a rule set is the error that it is refused with. -/
theorem RuleSet.FailsWith.compile {rules : RuleSet} {e : CompileError}
    (h : rules.FailsWith options family e) : rules.compile options family = .error e := by
  cases h with
  | noConnector hconnector => simp only [RuleSet.compile, hconnector]
  | noConditions hconnector hconditions =>
    obtain ⟨connector, hconnector⟩ := Option.ne_none_iff_exists'.1 hconnector
    simp only [RuleSet.compile, hconnector, hconditions]
  | @condition before c after _ hconnector hconditions hbefore hfails =>
    obtain ⟨connector, hconnector⟩ := Option.ne_none_iff_exists'.1 hconnector
    have hne : rules.conditions ≠ [] := by simp [hconditions]
    rw [← Nat.zero_add before.length] at hfails
    rw [compile_of_connector hconnector hne, Except.map_eq_error_iff]
    exact compileConditions_eq_error_iff.2 ⟨before, c, after, hconditions, hbefore, hfails⟩

/-- A rule set is refused exactly when something is wrong with it. -/
theorem RuleSet.compile_eq_error_iff {rules : RuleSet} {e : CompileError} :
    rules.compile options family = .error e ↔ rules.FailsWith options family e := by
  refine ⟨fun h => ?_, RuleSet.FailsWith.compile⟩
  obtain ⟨connector?, conditions⟩ := rules
  cases connector? with
  | none =>
    cases h
    exact .noConnector rfl
  | some connector =>
    cases conditions with
    | nil =>
      cases h
      exact .noConditions (Option.some_ne_none connector) rfl
    | cons c cs =>
      rw [compile_of_connector rfl (List.cons_ne_nil c cs), Except.map_eq_error_iff,
        compileConditions_eq_error_iff] at h
      obtain ⟨before, c', after, hcs, hbefore, hc'⟩ := h
      rw [Nat.zero_add] at hc'
      exact .condition (Option.some_ne_none connector) hcs hbefore hc'

/-- A rule set compiles exactly when it is well formed, and to a predicate with its
connector and, in the same order, the paths and operators of its conditions.  Otherwise it
is refused with what is wrong with it first. -/
theorem RuleSet.compile_outcome (options : CompileOptions) (family : Family) (rules : RuleSet) :
    ((∃ p, rules.compile options family = .ok p) ↔ rules.WellFormed options family) ∧
      (∀ p, rules.compile options family = .ok p →
        some p.connector = rules.connector ∧
          p.conditions.map (fun compiled => (compiled.field, compiled.operator)) =
            rules.conditions.map fun c => (c.field, c.operator)) ∧
      ∀ e, rules.compile options family = .error e ↔ rules.FailsWith options family e := by
  refine ⟨exists_compile_eq_ok_iff, ?_, fun e => compile_eq_error_iff⟩
  intro p hp
  obtain ⟨hconnector, -, hcompiled⟩ := compile_eq_ok_iff.1 hp
  exact ⟨hconnector.symm, map_field_operator_eq hcompiled⟩

end RecordFilter
