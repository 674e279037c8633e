import Mathlib
import RecordFilter.Proofs.CompileOutcome

/-!
# Strict and lenient string fields

The options decide one thing, which is what becomes of a literal other than a string on a
string field.  Lenient options take its text, strict options refuse it.

* `Literal.fit?_lenient`: a literal that fits under strict options fits under lenient ones,
  with the same value.  So a condition compiles to the same (`Condition.CompilesTo.lenient`).
* `Condition.FailsWith.relies_of_wellFormed`: a condition that only strict options refuse
  `ReliesOnText`, and is refused for that.

The order in which errors are found is the same under both options, but the first error need
not be.  A rule set which strict options refuse at one condition may have another fault
behind it, and then lenient options refuse it too (`RuleSet.compile_strict_refines`).
-/

namespace RecordFilter

/-- Options that take the text of every literal on a string field. -/
def CompileOptions.lenient : CompileOptions := ⟨.stringify⟩

/-- Options that take only strings on a string field. -/
def CompileOptions.strict : CompileOptions := ⟨.strict⟩

variable {family : Family}

/-! ## Literals -/

/-- A literal that fits a type under strict options fits it under lenient ones. -/
theorem Literal.fit?_lenient {literal operand : Literal} {type : ScalarType}
    (h : literal.fit? .strict type = some operand) : literal.fit? .lenient type = some operand := by
  cases type with
  | int | float | bool => exact h
  | string =>
    cases literal with
    | string s => exact h
    | bool _ | int _ | float _ => cases h

/-- Strict options refuse no more than literals other than strings, on string fields. -/
theorem Literal.of_fit?_strict_eq_none {literal operand : Literal} {type : ScalarType}
    (hstrict : literal.fit? .strict type = none)
    (hlenient : literal.fit? .lenient type = some operand) :
    type = .string ∧ literal.kind ≠ .string := by
  cases type with
  | int | float | bool =>
    -- only string fields look at the options
    have hsame := hstrict.symm.trans hlenient
    cases hsame
  | string =>
    refine ⟨rfl, fun hkind => ?_⟩
    cases literal with
    | string s => cases hstrict
    | bool _ | int _ | float _ => cases hkind

/-- A literal other than a string does not fit a string field under strict options. -/
theorem Literal.fit?_strict_string {literal : Literal} (h : literal.kind ≠ .string) :
    literal.fit? .strict .string = none := by
  cases literal with
  | string s => exact absurd rfl h
  | bool _ | int _ | float _ => rfl

/-! ## Conditions -/

/-- A condition on a string field whose literal is not a string. -/
structure Condition.ReliesOnText (family : Family) (c : Condition) (literal : Literal) : Prop where
  leads : c.PathLeadsTo family (.scalar .string)
  value : c.value = some literal
  kind_ne : literal.kind ≠ .string

/-- What a condition compiles to under strict options, it compiles to under lenient ones. -/
theorem Condition.CompilesTo.lenient {c : Condition} {compiled : CompiledCondition}
    (h : c.CompilesTo .strict family compiled) : c.CompilesTo .lenient family compiled := by
  obtain ⟨hblank, hfield, hoperator, literal, type, route, hvalue, hpath, htest⟩ := h
  obtain ⟨operand, hfit, hmake⟩ := compileTest_eq_ok_iff.1 htest
  have htest' : compileTest .lenient c literal type route = .ok compiled.test :=
    compileTest_eq_ok_iff.2 ⟨operand, Literal.fit?_lenient hfit, hmake⟩
  exact ⟨hblank, hfield, hoperator, literal, type, route, hvalue, hpath, htest'⟩

/-- A condition that relies on the text of its literal is not well formed under strict
options. -/
theorem Condition.ReliesOnText.not_wellFormed {c : Condition} {literal : Literal}
    (h : c.ReliesOnText family literal) : ¬ c.WellFormed .strict family := by
  rintro ⟨-, literal', type, operand, hvalue, hleads, hfit, -⟩
  obtain rfl : literal = literal' := Option.some.inj (h.value.symm.trans hvalue)
  cases hleads.unique h.leads
  rw [Literal.fit?_strict_string h.kind_ne] at hfit
  cases hfit

/-- What strict options have against a condition that is well formed under lenient ones.  Of
the stages of a condition, only the fit of the literal depends on the options. -/
theorem Condition.FailsWith.relies_of_wellFormed {c : Condition} {index : Nat} {e : CompileError}
    (h : c.FailsWith .strict family index e) (hwell : c.WellFormed .lenient family) :
    ∃ literal, c.ReliesOnText family literal ∧
      e = .typeMismatch c.field .string (.literal literal) := by
  have ⟨hblank', literal', type', operand', hvalue', hleads', hfit', hsupports'⟩ := hwell
  cases h with
  | blankField hblank => exact absurd hblank hblank'
  | noValue _ hvalue =>
    rw [hvalue] at hvalue'
    cases hvalue'
  | fieldNotFound hblank hvalue hspells hlost =>
    have hlenient : c.FailsWith .lenient family index _ :=
      .fieldNotFound hblank hvalue hspells hlost
    exact absurd hwell hlenient.not_wellFormed
  | recordField _ _ hleads => cases hleads.unique hleads'
  | @literalMismatch literal type _ hvalue hleads hfit =>
    rw [hvalue] at hvalue'
    cases hvalue'
    cases hleads.unique hleads'
    obtain ⟨rfl, hkind⟩ := Literal.of_fit?_strict_eq_none hfit hfit'
    exact ⟨_, ⟨hleads, hvalue, hkind⟩, rfl⟩
  | containsMismatch _ _ hleads _ hoperator htype =>
    cases hleads.unique hleads'
    rw [hoperator] at hsupports'
    exact absurd hsupports' htype
  | operatorMismatch _ _ hleads _ _ hsupports =>
    cases hleads.unique hleads'
    exact absurd hsupports' hsupports

/-! ## Rule sets -/

theorem RuleSet.compile_lenient {rules : RuleSet} {p : Predicate}
    (h : rules.compile .strict family = .ok p) : rules.compile .lenient family = .ok p := by
  obtain ⟨hconnector, hne, hcompiled⟩ := compile_eq_ok_iff.1 h
  have hcompiled' := hcompiled.imp fun _ _ hc => hc.lenient
  exact compile_eq_ok_iff.2 ⟨hconnector, hne, hcompiled'⟩

/-- Strict options give the same predicate as lenient ones, or none.  A rule set that only
strict options refuse has a condition on a string field whose literal is not a string, and
is refused for the first such condition.  A rule set that lenient options refuse is refused
by strict ones. -/
theorem RuleSet.compile_strict_refines (family : Family) (rules : RuleSet) :
    (∀ p, rules.compile .strict family = .ok p → rules.compile .lenient family = .ok p) ∧
      (∀ p e, rules.compile .lenient family = .ok p → rules.compile .strict family = .error e →
        ∃ before c after literal, rules.conditions = before ++ c :: after ∧
          (∀ c' ∈ before, ∀ literal', ¬ c'.ReliesOnText family literal') ∧
          c.ReliesOnText family literal ∧
          e = .typeMismatch c.field .string (.literal literal)) ∧
      ∀ e, rules.compile .lenient family = .error e →
        ∃ e', rules.compile .strict family = .error e' := by
  refine ⟨fun p => compile_lenient, ?_, ?_⟩
  · intro p e hlenient hstrict
    have hwell : rules.WellFormed .lenient family := exists_compile_eq_ok_iff.1 ⟨p, hlenient⟩
    cases compile_eq_error_iff.1 hstrict with
    | noConnector hconnector => exact absurd hconnector hwell.connector
    | noConditions _ hconditions => exact absurd hconditions hwell.conditions_ne_nil
    | @condition before c after _ _ hconditions hbefore hfails =>
      have hc : c.WellFormed .lenient family := by
        apply hwell.conditions
        rw [hconditions]
        exact List.mem_append_right before List.mem_cons_self
      obtain ⟨literal, hrelies, he⟩ := hfails.relies_of_wellFormed hc
      refine ⟨before, c, after, literal, hconditions, ?_, hrelies, he⟩
      intro c' hc' literal' hrelies'
      exact hrelies'.not_wellFormed (hbefore c' hc')
  · intro e hlenient
    cases hstrict : rules.compile .strict family with
    | error e' => exact ⟨e', rfl⟩
    | ok p =>
      rw [compile_lenient hstrict] at hlenient
      cases hlenient

/-- Tickets with a code, a price and the ticket that they replace, if there is one. -/
def tickets : Family :=
  [[⟨"Code", .scalar .string⟩, ⟨"Price", .scalar .int⟩, ⟨"Replaces", .record 0⟩]]

/-- The literal of the first condition is a string and spells a number; the second and the
last condition rely on the text of a literal. -/
def ticketRules : RuleSet :=
  .allOf [⟨"Price", .lessThan, some (.string "30")⟩,
    ⟨"Replaces.Code", .contains, some (.int 40)⟩, ⟨"Code", .notEqual, some (.bool true)⟩]

/-- The rules without the conditions that rely on the text of a literal. -/
def priceRules : RuleSet :=
  .allOf [⟨"Price", .lessThan, some (.string "30")⟩]

/-- The rules with a condition behind them whose path leads nowhere. -/
def lostTicketRules : RuleSet :=
  ticketRules.push ⟨"Seat", .equal, some (.int 1)⟩

theorem RuleSet.compile_strict_tickets :
    priceRules.compile .lenient tickets =
        .ok ⟨.and, [⟨"Price", .lessThan, .int [1] .lessThan 30⟩]⟩ ∧
      (∃ before c after literal, ticketRules.conditions = before ++ c :: after ∧
        (∀ c' ∈ before, ∀ literal', ¬ c'.ReliesOnText tickets literal') ∧
        c.ReliesOnText tickets literal ∧
        CompileError.typeMismatch "Replaces.Code" .string (.literal (.int 40)) =
          .typeMismatch c.field .string (.literal literal)) ∧
      ∃ e, lostTicketRules.compile .strict tickets = .error e := by
  have hprice : priceRules.compile .strict tickets =
      .ok ⟨.and, [⟨"Price", .lessThan, .int [1] .lessThan 30⟩]⟩ := by
    decide +kernel
  have hlenient : ticketRules.compile .lenient tickets =
      .ok ⟨.and, [⟨"Price", .lessThan, .int [1] .lessThan 30⟩,
        ⟨"Replaces.Code", .contains, .string [2, 0] .contains "40"⟩,
        ⟨"Code", .notEqual, .string [0] .notEqual "true"⟩]⟩ := by
    decide +kernel
  have hstrict : ticketRules.compile .strict tickets =
      .error (.typeMismatch "Replaces.Code" .string (.literal (.int 40))) := by
    decide +kernel
  have hlost : lostTicketRules.compile .lenient tickets =
      .error (.fieldNotFound "Seat" "Seat") := by
    decide +kernel
  exact ⟨(RuleSet.compile_strict_refines tickets priceRules).1 _ hprice,
    (RuleSet.compile_strict_refines tickets ticketRules).2.1 _ _ hlenient hstrict,
    (RuleSet.compile_strict_refines tickets lostTicketRules).2.2 _ hlost⟩

end RecordFilter
