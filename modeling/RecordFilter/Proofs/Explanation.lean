import Mathlib
import RecordFilter.Proofs.Compile

/-!
# Explanations, condition by condition

A predicate answers a record in two ways.  `accepts` stops at the first condition that
settles the answer, and `explain` tests every condition and keeps what came of each.  The
outcome of a condition is here compared with a third answer: that of the rule set which has
this condition and no other.

* `Condition.CompilesTo.passesAlone_eq`: such a rule set compiles when its condition does,
  and it accepts the records which the test of the condition passes, whatever connector it
  has.
* `outcomes_eq_of_forall₂`: the outcomes are those of the conditions alone, numbered in the
  order in which they stand.
* `explain_eq_passesAlone`: the report as a whole.
-/

namespace RecordFilter

variable {options : CompileOptions} {family : Family}

/-- Whether a rule set of one condition compiles and accepts a record. -/
def Condition.passesAlone (options : CompileOptions) (family : Family) (connector : Connector)
    (record : Record) (c : Condition) : Bool :=
  match (⟨some connector, [c]⟩ : RuleSet).compile options family with
  | .ok p => p.accepts record
  | .error _ => false

/-- A condition that compiles in a rule set compiles alone. -/
theorem Condition.CompilesTo.compile_alone {c : Condition} {compiled : CompiledCondition}
    (h : c.CompilesTo options family compiled) (connector : Connector) :
    (⟨some connector, [c]⟩ : RuleSet).compile options family = .ok ⟨connector, [compiled]⟩ :=
  RuleSet.compile_eq_ok_iff.2 ⟨rfl, List.cons_ne_nil c [], .cons h .nil⟩

/-- Alone, a condition accepts what its test passes. -/
theorem Condition.CompilesTo.passesAlone_eq {c : Condition} {compiled : CompiledCondition}
    (h : c.CompilesTo options family compiled) (connector : Connector) (record : Record) :
    c.passesAlone options family connector record = compiled.test.passes record := by
  rw [passesAlone, h.compile_alone connector]
  cases connector with
  | and => exact Bool.and_true (compiled.test.passes record)
  | or => exact Bool.or_false (compiled.test.passes record)

/-- The outcomes of compiled conditions, told by the conditions they came from.  The induction
is on the conditions; the number of the first one goes up by one at each step. -/
theorem outcomes_eq_of_forall₂ {conditions : List Condition} {compiled : List CompiledCondition}
    (h : List.Forall₂ (Condition.CompilesTo options family) conditions compiled)
    (connector : Connector) (record : Record) (start : Nat) :
    Predicate.outcomes record start compiled =
      (conditions.zipIdx start).map fun (c, i) =>
        ⟨i, c.field, c.operator, c.passesAlone options family connector record⟩ := by
  induction h generalizing start with
  | nil => rfl
  | cons hc hcs ih =>
    rw [Predicate.outcomes, List.zipIdx_cons, List.map_cons, ih, hc.field_eq, hc.operator_eq,
      ← hc.passesAlone_eq connector record]

/-- The matched fields of outcomes that are numbered conditions. -/
theorem map_field_filter_outcomes (passes : Condition → Bool) (conditions : List Condition)
    (start : Nat) :
    (((conditions.zipIdx start).map fun (c, i) =>
        (⟨i, c.field, c.operator, passes c⟩ : Outcome)).filter Outcome.matched).map
          Outcome.field =
      (conditions.filter passes).map Condition.field := by
  induction conditions generalizing start with
  | nil => rfl
  | cons c conditions ih =>
    rw [List.zipIdx_cons, List.map_cons, List.filter_cons, List.filter_cons]
    cases hpasses : passes c with
    | true => simpa [hpasses] using ih (start + 1)
    | false => simpa [hpasses] using ih (start + 1)

/-- A report has the answer of the predicate for its result.  It has one outcome for each
condition of the rule set, in order: its place, its path, its operator, and whether the
condition alone, which compiles with either connector, accepts the record.  The matched
fields are the paths of the conditions that do, one for each. -/
theorem explain_eq_passesAlone {rules : RuleSet} {p : Predicate}
    (h : rules.compile options family = .ok p) (record : Record) :
    (p.explain record).result = p.accepts record ∧
      (p.explain record).outcomes.length = rules.conditions.length ∧
      ∀ connector : Connector,
        (∀ c ∈ rules.conditions, ∃ alone,
          (⟨some connector, [c]⟩ : RuleSet).compile options family = .ok alone) ∧
        ((p.explain record).outcomes = rules.conditions.zipIdx.map fun (c, i) =>
          ⟨i, c.field, c.operator, c.passesAlone options family connector record⟩) ∧
        (p.explain record).matchedFields =
          (rules.conditions.filter (Condition.passesAlone options family connector record)).map
            Condition.field := by
  obtain ⟨-, -, hconditions⟩ := RuleSet.compile_eq_ok_iff.1 h
  have houtcomes : ∀ connector, (p.explain record).outcomes =
      rules.conditions.zipIdx.map fun (c, i) =>
        ⟨i, c.field, c.operator, c.passesAlone options family connector record⟩ :=
    fun connector => outcomes_eq_of_forall₂ hconditions connector record 0
  refine ⟨p.result_explain record, ?_, fun connector => ⟨?_, houtcomes connector, ?_⟩⟩
  · rw [houtcomes .and, List.length_map, List.length_zipIdx]
  · intro c hc
    obtain ⟨compiled, hcompiled⟩ := exists_forall₂_iff.1 ⟨_, hconditions⟩ c hc
    exact ⟨_, hcompiled.compile_alone connector⟩
  · rw [Report.matchedFields, houtcomes connector]
    exact map_field_filter_outcomes _ rules.conditions 0

/-- Doors with a width, a label and the door behind them, if there is one. -/
def doors : Family :=
  [[⟨"Width", .scalar .int⟩, ⟨"Label", .scalar .string⟩, ⟨"Behind", .record 0⟩]]

/-- A door with no door behind it. -/
def lastDoor : Record :=
  [.int 2, .string "A7", .absent]

/-- Of the four conditions the second meets an absent record in `lastDoor` and the third
fails; the other two have one path. -/
def doorRules : RuleSet :=
  .anyOf [⟨"Label", .contains, some (.int 7)⟩, ⟨"Behind.Width", .notEqual, some (.int 3)⟩,
    ⟨"Width", .greaterThan, some (.string "2")⟩, ⟨"Label", .equal, some (.string "A7")⟩]

/-- What `doorRules` compiles to. -/
def doorPredicate : Predicate :=
  ⟨.or, [⟨"Label", .contains, .string [1] .contains "7"⟩,
    ⟨"Behind.Width", .notEqual, .int [2, 0] .notEqual 3⟩,
    ⟨"Width", .greaterThan, .int [0] .greaterThan 2⟩,
    ⟨"Label", .equal, .string [1] .equal "A7"⟩]⟩

theorem explain_doorPredicate :
    doorRules.compile {} doors = .ok doorPredicate ∧
      (doorPredicate.explain lastDoor).result = doorPredicate.accepts lastDoor ∧
      (doorPredicate.explain lastDoor).matchedFields = ["Label", "Label"] := by
  have hcompile : doorRules.compile {} doors = .ok doorPredicate := by decide +kernel
  obtain ⟨hresult, -, halone⟩ := explain_eq_passesAlone hcompile lastDoor
  refine ⟨hcompile, hresult, ?_⟩
  rw [(halone .and).2.2]
  decide +kernel

end RecordFilter
