import Mathlib
import RecordFilter.Proofs.Compile
import RecordFilter.Proofs.Json.FiniteLiterals
import RecordFilter.Proofs.Json.RoundTrip

/-!
# Floats that come from a text are finite

Every float in a decoded rule set is finite, so nothing is lost when the rule set is written
again.  Compiling does not add other floats: a whole number rounds to a finite float, and a
string with the name of an infinity, or with a number too large, does not fit a field.

* `Literal.isFinite_of_fit?`: one case for each kind of literal.
* `RuleSet.ofJson_toJson_of_isFinite`: what is written is read again.
* `RuleSet.isFinite_of_ofJson`: from the text to the rule set, the predicate and the text
  that is written.
-/

namespace RecordFilter

open Number Json Reader Text

/-! ## Compiling -/

variable {options : CompileOptions} {family : Family}

/-- A finite literal is finite as a value of any type.  Strings are the case in which the
check is made here and not when the text was decoded. -/
theorem Literal.isFinite_of_fit? {literal operand : Literal} {scalar : ScalarType}
    (h : literal.fit? options scalar = some operand) (hliteral : literal.isFinite) :
    operand.isFinite := by
  cases scalar with
  | int | bool | string =>
    obtain ⟨_, -, rfl⟩ := Option.map_eq_some_iff.1 h
    rfl
  | float =>
    obtain ⟨x, hx, rfl⟩ := Option.map_eq_some_iff.1 h
    cases literal with
    | bool b => cases hx
    | int n =>
      cases hx
      have hlow := n.minValue_le_toInt
      have hhigh := n.toInt_le
      have hmin : Int64.minValue.toInt = -2 ^ 63 := by decide
      have hmax : Int64.maxValue.toInt = 2 ^ 63 - 1 := by decide
      refine Binary64.isFinite_ofInt ?_
      unfold UInt64.size
      omega
    | float y =>
      cases hx
      exact hliteral
    | string s =>
      obtain ⟨d, -, hd⟩ := Option.bind_eq_some_iff.1 hx
      unfold finite? at hd
      split at hd
      · next hfinite =>
        cases hd
        exact hfinite
      · cases hd

theorem Test.operand_of_ofOperand? {route : List Nat} {op : Operator} {operand : Literal}
    {test : Test} (h : Test.ofOperand? route op operand = some test) : test.operand = operand := by
  cases operand <;> obtain ⟨_, -, rfl⟩ := Option.map_eq_some_iff.1 h <;> rfl

theorem Condition.CompilesTo.isFinite_operand {c : Condition} {compiled : CompiledCondition}
    (h : c.CompilesTo options family compiled) (hc : c.IsFinite) :
    compiled.test.operand.isFinite := by
  obtain ⟨literal, type, route, hvalue, -, htest⟩ := h.exists_test
  obtain ⟨operand, hfit, hoperand⟩ := compileTest_eq_ok_iff.1 htest
  rw [Test.operand_of_ofOperand? hoperand]
  exact Literal.isFinite_of_fit? hfit (hc literal hvalue)

/-- The operands of a predicate are finite if the literals of its rule set are. -/
theorem RuleSet.isFinite_operand_of_compile {rules : RuleSet} {p : Predicate}
    (h : rules.compile options family = .ok p) (hrules : ∀ c ∈ rules.conditions, c.IsFinite) :
    ∀ compiled ∈ p.conditions, compiled.test.operand.isFinite := by
  obtain ⟨-, -, hconditions⟩ := compile_eq_ok_iff.1 h
  generalize rules.conditions = conditions at hrules hconditions
  generalize p.conditions = compiled at hconditions
  induction hconditions with
  | nil => exact List.forall_mem_nil _
  | cons hc _ ih =>
    rw [List.forall_mem_cons] at hrules ⊢
    exact ⟨hc.isFinite_operand hrules.1, ih hrules.2⟩

/-! ## Writing -/

/-- A rule set whose floats are finite and read back is read as it was written. -/
theorem RuleSet.ofJson_toJson_of_isFinite [Dialect] {rules : RuleSet}
    (hfinite : ∀ c ∈ rules.conditions, c.IsFinite)
    (hreads : ∀ c ∈ rules.conditions, ∀ x, c.value = some (.float x) → ReadsBack x) :
    RuleSet.ofJson rules.toJson = .ok rules := by
  have hvalues : ∀ c ∈ rules.conditions,
      Returns (readValue 124) (bytesOf ((c.value.map Literal.json).getD "null".toList))
        (.ok c.value) := by
    intro c hc
    cases hvalue : c.value with
    | none => exact readValue_returns_null 124
    | some literal =>
      have hsaved : literal.saved? = some literal := by
        cases literal with
        | float x => exact if_pos (hfinite c hc _ hvalue)
        | _ => rfl
      have hreturns := literal.readValue_returns 124 fun x hx _ =>
        hreads c hc x (hvalue.trans (congrArg some hx))
      rwa [hsaved] at hreturns
  have hconditions := readConditions_returns 124 Condition.field Condition.operator
    (fun c => (c.value.map Literal.json).getD "null".toList) (fun c => .ok c.value)
    rules.conditions hvalues
  have hmap : rules.conditions.mapM (fun c => (Except.ok c.value).map fun v =>
      (⟨c.field, c.operator, v⟩ : Condition)) = (.ok rules.conditions : Except Fault _) :=
    List.mapM_pure.trans (congrArg Except.ok (List.map_id' rules.conditions))
  rw [RuleSet.ofJson_eq_ofBytes, RuleSet.toJson, utf8_ofList, RuleSet.ofBytes]
  refine (readRuleSet_returns 126 rules.connector hconditions).complete.trans ?_
  rw [hmap]
  rfl

/-! ## Decoding and then compiling or writing -/

theorem RuleSet.conditions_isFinite_of_ofJson [Dialect] {text : String} {rules : RuleSet}
    (h : RuleSet.ofJson text = .ok rules) : ∀ c ∈ rules.conditions, c.IsFinite := by
  rw [ofJson_eq_ofBytes] at h
  obtain ⟨rest, hread, -⟩ := complete_eq_ok_iff.1 h
  exact ensures_readRuleSet maxDepth _ rules rest hread

/-- Every float of a rule set that was decoded is finite.  If the texts of its floats read
back, the rule set is the same after it has been written and read, and is written the same
again.  Every float that it is compiled to compare with is finite, also when it is compiled
right from the text. -/
theorem RuleSet.isFinite_of_ofJson [Dialect] {text : String} {rules : RuleSet}
    (h : RuleSet.ofJson text = .ok rules) :
    (∀ c ∈ rules.conditions, ∀ x, c.value = some (.float x) → x.isFinite) ∧
      ((∀ c ∈ rules.conditions, ∀ x, c.value = some (.float x) → ReadsBack x) →
        RuleSet.ofJson rules.toJson = .ok rules ∧
          ∀ again, RuleSet.ofJson rules.toJson = .ok again → again.toJson = rules.toJson) ∧
      (∀ options family p, rules.compile options family = .ok p →
        ∀ compiled ∈ p.conditions, ∀ x, compiled.test.operand = .float x → x.isFinite) ∧
      ∀ family p, Predicate.ofJson family text = .ok p →
        ∀ compiled ∈ p.conditions, ∀ x, compiled.test.operand = .float x → x.isFinite := by
  have hfinite := conditions_isFinite_of_ofJson h
  have hcompiled : ∀ options family p, rules.compile options family = .ok p →
      ∀ compiled ∈ p.conditions, ∀ x, compiled.test.operand = .float x → x.isFinite := by
    intro options family p hp compiled hmem x hx
    have hoperand := isFinite_operand_of_compile hp hfinite compiled hmem
    rwa [hx] at hoperand
  refine ⟨fun c hc x hx => hfinite c hc (.float x) hx, fun hreads => ?_, hcompiled, ?_⟩
  · have hsame := ofJson_toJson_of_isFinite hfinite hreads
    refine ⟨hsame, fun again hagain => ?_⟩
    rw [hsame] at hagain
    cases hagain
    rfl
  · intro family p hp
    rw [Predicate.ofJson, h] at hp
    cases hcompile : rules.compile {} family with
    | error e =>
      simp only [hcompile] at hp
      cases hp
    | ok q =>
      simp only [hcompile] at hp
      cases hp
      exact hcompiled {} family p hcompile

def rates : Family := [[⟨"Rate", .scalar .float⟩]]

/-- A float, a string with the text of a float, and a whole number too large for an integer
literal. -/
def rateText : String :=
  "[\"And\",[[\"Rate\",\"GreaterThan\",-1.5e0],[\"Rate\",\"LessThan\",\"3e2\"]," ++
    "[\"Rate\",\"NotEqual\",18446744073709551615]]]"

def rateRules : RuleSet :=
  .allOf [⟨"Rate", .greaterThan, some (.float (.ofRatio true 3 2))⟩,
    ⟨"Rate", .lessThan, some (.string "3e2")⟩,
    ⟨"Rate", .notEqual, some (.float (.ofInt (2 ^ 64)))⟩]

def ratePredicate : Predicate :=
  ⟨.and, [⟨"Rate", .greaterThan, .float [0] .greaterThan (.ofRatio true 3 2)⟩,
    ⟨"Rate", .lessThan, .float [0] .lessThan (.ofInt 300)⟩,
    ⟨"Rate", .notEqual, .float [0] .notEqual (.ofInt (2 ^ 64))⟩]⟩

theorem RuleSet.isFinite_rateRules :
    RuleSet.ofJson rateText = .ok rateRules ∧
      (∀ c ∈ rateRules.conditions, ∀ x, c.value = some (.float x) → ReadsBack x) ∧
      Predicate.ofJson rates rateText = .ok ratePredicate ∧
      RuleSet.ofJson rateRules.toJson = .ok rateRules ∧
      ∀ compiled ∈ ratePredicate.conditions, ∀ x,
        compiled.test.operand = .float x → x.isFinite := by
  have hread : RuleSet.ofJson rateText = .ok rateRules := by decide +kernel
  have hcompile : Predicate.ofJson rates rateText = .ok ratePredicate := by decide +kernel
  have hreads : ∀ c ∈ rateRules.conditions, ∀ x, c.value = some (.float x) → ReadsBack x := by
    intro c hc x hx
    simp only [rateRules, allOf, List.mem_cons, List.not_mem_nil, or_false] at hc
    rcases hc with rfl | rfl | rfl <;> cases hx
    · exact ⟨.float (.ofRatio true 3 2), by decide +kernel, rfl⟩
    · exact ⟨.float (.ofInt (2 ^ 64)), by decide +kernel, rfl⟩
  obtain ⟨-, hwritten, -, hoperands⟩ := RuleSet.isFinite_of_ofJson hread
  exact ⟨hread, hreads, hcompile, (hwritten hreads).1, hoperands rates ratePredicate hcompile⟩

end RecordFilter
