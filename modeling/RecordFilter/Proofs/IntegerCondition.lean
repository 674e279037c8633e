import Mathlib
import RecordFilter.Proofs.CompileCorrect
import RecordFilter.Proofs.IntegerOperand
import RecordFilter.Proofs.Json.Document
import RecordFilter.Proofs.Json.UncheckedStrings

/-!
# Whole numbers in conditions on `int` fields

A rule set of one condition on an `int` field is read and compiled.  `compile_int_eq_ok_iff`
and `accepts_int_iff` say what it compiles to and which records that accepts;
`WholeNumeral.document` is the text with a whole number as the literal, and
`ofJson_wholeNumeral` puts reading, compiling and testing together.

The numbers just below the 64-bit range are the ones to look at: they compile, to the least
number of the range (`belowLeast`).
-/

namespace RecordFilter

open Number Json Reader Text

/-- A text is made a predicate by decoding it and compiling what it denotes. -/
theorem Predicate.ofJson_eq_ok_iff_compile [Dialect] {family : Family} {text : String}
    {p : Predicate} :
    ofJson family text = .ok p ↔
      ∃ rules, RuleSet.ofJson text = .ok rules ∧ rules.compile {} family = .ok p := by
  unfold ofJson
  cases RuleSet.ofJson text with
  | error fault => simp
  | ok rules => simp [Except.mapError_eq_ok_iff]

/-! ## One condition on an `int` field -/

/-- Whether two whole numbers compare as an operator asks. -/
def Operator.Compares : Operator → Int → Int → Prop
  | .equal, a, b => a = b
  | .notEqual, a, b => a ≠ b
  | .greaterThan, a, b => b < a
  | .lessThan, a, b => a < b
  | .contains, _, _ => False

theorem holdsInt_iff_compares {op : Operator} {comparison : NumberComparison} {a b : Int64}
    (h : NumberComparison.ofOperator? op = some comparison) :
    comparison.holdsInt a b = true ↔ op.Compares a.toInt b.toInt := by
  cases op <;> cases h <;>
    simp [NumberComparison.holdsInt, Operator.Compares, Int64.lt_iff_toInt_lt, Int64.toInt_inj]

section IntField

variable {options : CompileOptions} {family : Family} {field : String} {route : List Nat}

theorem compile_int_eq_ok_iff (hblank : strip field.toList ≠ [])
    (hresolve : Path.resolve family Family.root (Path.segments field) = .ok ⟨.scalar .int, route⟩)
    {connector : Connector} {op : Operator} {literal : Literal} {p : Predicate} :
    RuleSet.compile ⟨some connector, [⟨field, op, some literal⟩]⟩ options family = .ok p ↔
      ∃ n comparison, literal.toInt? = some n ∧ NumberComparison.ofOperator? op = some comparison ∧
        p = ⟨connector, [⟨field, op, .int route comparison n⟩]⟩ := by
  rw [RuleSet.compile_oneCondition_eq_ok_iff hblank hresolve, Literal.fit?]
  constructor
  · intro h
    obtain ⟨_, test, hfit, htest, rfl⟩ := h
    obtain ⟨n, hn, rfl⟩ := Option.map_eq_some_iff.1 hfit
    obtain ⟨comparison, hcomparison, rfl⟩ := Option.map_eq_some_iff.1 htest
    exact ⟨n, comparison, hn, hcomparison, rfl⟩
  · intro h
    obtain ⟨n, comparison, hn, hcomparison, rfl⟩ := h
    refine ⟨.int n, _, ?_, ?_, rfl⟩
    · rw [hn]
      rfl
    · rw [Test.ofOperand?, hcomparison]
      rfl

/-- A predicate of one condition on an `int` field accepts the records whose field is there
and compares as asked. -/
theorem accepts_int_iff
    (hresolve : Path.resolve family Family.root (Path.segments field) = .ok ⟨.scalar .int, route⟩)
    {connector : Connector} {op : Operator} {comparison : NumberComparison} {operand : Int64}
    (hcomparison : NumberComparison.ofOperator? op = some comparison) (record : Record) :
    (⟨connector, [⟨field, op, .int route comparison operand⟩]⟩ : Predicate).accepts record = true ↔
      ∃ n, Reads family Family.root record (Path.segments field) .int (.int n) ∧
        op.Compares n.toInt operand.toInt := by
  have haccepts :
      (⟨connector, [⟨field, op, .int route comparison operand⟩]⟩ : Predicate).accepts record =
        (Test.int route comparison operand).passes record := by
    cases connector <;> simp [Predicate.accepts]
  have hread : ∀ n, Reads family Family.root record (Path.segments field) .int (.int n) ↔
      (record.read route).int? = some n := by
    intro n
    rw [reads_iff_of_resolve hresolve]
    cases record.read route <;> simp [FieldValue.literal?, FieldValue.int?]
  rw [haccepts, Test.passes, Option.any_eq_true]
  simp only [hread, holdsInt_iff_compares hcomparison]

end IntField

end RecordFilter

namespace RecordFilter.Json.WholeNumeral

open Number Reader Text

/-! ## Reading the rule set -/

/-- What a numeral is read as. -/
def outcome (w : WholeNumeral) : Except Fault NumberValue :=
  match w.token.value? with
  | some v => .ok v
  | none => .error .malformed

theorem readNumber_returns (w : WholeNumeral) : Returns readNumber (bytesOf w.text) w.outcome := by
  intro rest hrest
  rw [readNumber, bind_of_ok (w.read_returns rest hrest), outcome]
  cases w.token.value? <;> rfl

/-- The rule set of one condition, with the numeral as its value. -/
def document (connector : Connector) (field : String) (op : Operator) (w : WholeNumeral) : String :=
  String.ofList (ruleSetText (some connector) [conditionText field op w.text])

theorem ofJson_document [Dialect] (connector : Connector) (field : String) (op : Operator)
    (w : WholeNumeral) :
    RuleSet.ofJson (document connector field op w) =
      w.outcome.map fun v => ⟨some connector, [⟨field, op, some (Literal.ofNumber v)⟩]⟩ := by
  have hvalue := readValue_returns_number 124 w.leads w.readNumber_returns
  rw [RuleSet.ofJson_eq_ofBytes, document, utf8_ofList,
    ofBytes_oneCondition (some connector) field op hvalue]
  cases w.outcome <;> rfl

/-! ## Compiling it -/

section Compile

variable {family : Family} {field : String} {route : List Nat} {op : Operator}

theorem predicate_ofJson_eq_ok_iff [Dialect] (hblank : strip field.toList ≠ [])
    (hresolve : Path.resolve family Family.root (Path.segments field) = .ok ⟨.scalar .int, route⟩)
    (connector : Connector) (w : WholeNumeral) {p : Predicate} :
    Predicate.ofJson family (document connector field op w) = .ok p ↔
      ∃ n comparison, w.operand? = some n ∧ NumberComparison.ofOperator? op = some comparison ∧
        p = ⟨connector, [⟨field, op, .int route comparison n⟩]⟩ := by
  rw [Predicate.ofJson_eq_ok_iff_compile, ofJson_document, outcome, operand?]
  cases w.token.value? with
  | none => simp [Except.map_eq_ok_iff]
  | some v =>
    simp only [Except.map, Except.ok.injEq, exists_eq_left', Option.bind_some]
    exact compile_int_eq_ok_iff hblank hresolve

theorem exists_predicate_ofJson_iff [Dialect] (hblank : strip field.toList ≠ [])
    (hresolve : Path.resolve family Family.root (Path.segments field) = .ok ⟨.scalar .int, route⟩)
    (hop : op ≠ .contains) (connector : Connector) (w : WholeNumeral) :
    (∃ p, Predicate.ofJson family (document connector field op w) = .ok p) ↔
      -2 ^ 63 - 1024 ≤ w.value ∧ w.value ≤ 2 ^ 63 - 1 := by
  constructor
  · intro h
    obtain ⟨p, hp⟩ := h
    obtain ⟨n, _, hn, -, -⟩ := (predicate_ofJson_eq_ok_iff hblank hresolve connector w).1 hp
    rw [operand?_eq] at hn
    split at hn
    · assumption
    · cases hn
  · intro hrange
    have hoperand := w.operand?_eq
    rw [if_pos hrange] at hoperand
    have hcomparison : ∃ comparison, NumberComparison.ofOperator? op = some comparison := by
      cases op with
      | contains => exact absurd rfl hop
      | _ => exact ⟨_, rfl⟩
    obtain ⟨comparison, hcomparison⟩ := hcomparison
    exact ⟨_, (predicate_ofJson_eq_ok_iff hblank hresolve connector w).2
      ⟨_, comparison, hoperand, hcomparison, rfl⟩⟩

theorem accepts_of_predicate_ofJson [Dialect] (hblank : strip field.toList ≠ [])
    (hresolve : Path.resolve family Family.root (Path.segments field) = .ok ⟨.scalar .int, route⟩)
    {connector : Connector} {w : WholeNumeral} {p : Predicate}
    (hp : Predicate.ofJson family (document connector field op w) = .ok p) (record : Record) :
    p.accepts record = true ↔
      ∃ n, Reads family Family.root record (Path.segments field) .int (.int n) ∧
        op.Compares n.toInt (max w.value (-2 ^ 63)) := by
  obtain ⟨operand, comparison, hoperand, hcomparison, rfl⟩ :=
    (predicate_ofJson_eq_ok_iff hblank hresolve connector w).1 hp
  have htoInt : operand.toInt = max w.value (-2 ^ 63) := by
    rw [operand?_eq] at hoperand
    split at hoperand
    · next hrange =>
      rw [← Option.some.inj hoperand]
      exact Int64.toInt_ofInt_of_le (by omega) (by omega)
    · cases hoperand
  rw [accepts_int_iff hresolve hcomparison, htoInt]

end Compile

end RecordFilter.Json.WholeNumeral

namespace RecordFilter

open Number Json Reader Text

/-- A whole number as the value of a condition on an `int` field, with an operator that
numbers have.  The rule set compiles if the number is at least `-2 ^ 63 - 1024` and at most
`2 ^ 63 - 1`, and not otherwise; then the field is compared with the number, or with
`-2 ^ 63` if the number is less. -/
theorem ofJson_wholeNumeral [Dialect] {family : Family} {field : String} {route : List Nat}
    {op : Operator} (hblank : strip field.toList ≠ [])
    (hresolve : Path.resolve family Family.root (Path.segments field) = .ok ⟨.scalar .int, route⟩)
    (hop : op ≠ .contains) (connector : Connector) (w : WholeNumeral) :
    ((∃ p, Predicate.ofJson family (w.document connector field op) = .ok p) ↔
      -2 ^ 63 - 1024 ≤ w.value ∧ w.value ≤ 2 ^ 63 - 1) ∧
    ∀ p, Predicate.ofJson family (w.document connector field op) = .ok p → ∀ record,
      p.accepts record = true ↔
        ∃ n, Reads family Family.root record (Path.segments field) .int (.int n) ∧
          op.Compares n.toInt (max w.value (-2 ^ 63)) :=
  ⟨WholeNumeral.exists_predicate_ofJson_iff hblank hresolve hop connector w,
    fun _ hp record => WholeNumeral.accepts_of_predicate_ofJson hblank hresolve hp record⟩

def counters : Family := [[⟨"Count", .scalar .int⟩]]

/-- One less than the least 64-bit number. -/
def belowLeast : WholeNumeral :=
  ⟨true, [9, 2, 2, 3, 3, 7, 2, 0, 3, 6, 8, 5, 4, 7, 7, 5, 8, 0, 9], by decide, by decide,
    fun _ h => by cases h⟩

theorem belowLeast_value : belowLeast.value = -2 ^ 63 - 1 := by decide

/-- A numeral below the range compiles, and the predicate accepts a record whose field is
another number. -/
theorem ofJson_belowLeast :
    ¬ ((∃ p, Predicate.ofJson counters (belowLeast.document .and "Count" .equal) = .ok p) ↔
      -2 ^ 63 ≤ belowLeast.value ∧ belowLeast.value ≤ 2 ^ 63 - 1) ∧
    ∃ p, Predicate.ofJson counters (belowLeast.document .and "Count" .equal) = .ok p ∧
      p.accepts [.int Int64.minValue] = true ∧ Int64.minValue.toInt ≠ belowLeast.value := by
  have hcompiles : Predicate.ofJson counters (belowLeast.document .and "Count" .equal) =
      .ok ⟨.and, [⟨"Count", .equal, .int [0] .equal Int64.minValue⟩]⟩ := by
    decide +kernel
  refine ⟨fun h => ?_, ⟨_, hcompiles, by decide +kernel, by decide⟩⟩
  have hrange := h.1 ⟨_, hcompiles⟩
  rw [belowLeast_value] at hrange
  omega

theorem ofJson_wholeNumeral_belowLeast :
    strip "Count".toList ≠ [] ∧
    Path.resolve counters Family.root (Path.segments "Count") = .ok ⟨.scalar .int, [0]⟩ ∧
    Operator.equal ≠ .contains ∧
    (∃ p, Predicate.ofJson counters (belowLeast.document .and "Count" .equal) = .ok p ∧
      ∀ record, p.accepts record = true ↔
        ∃ n, Reads counters Family.root record (Path.segments "Count") .int (.int n) ∧
          n.toInt = -2 ^ 63) := by
  have hblank : strip "Count".toList ≠ [] := by decide
  have hresolve : Path.resolve counters Family.root (Path.segments "Count") =
      .ok ⟨.scalar .int, [0]⟩ := by decide +kernel
  have hop : Operator.equal ≠ .contains := by decide
  have hmain := ofJson_wholeNumeral hblank hresolve hop .and belowLeast
  have hrange : -2 ^ 63 - 1024 ≤ belowLeast.value ∧ belowLeast.value ≤ 2 ^ 63 - 1 := by
    rw [belowLeast_value]
    omega
  obtain ⟨p, hp⟩ := hmain.1.2 hrange
  have hoperand : max belowLeast.value (-2 ^ 63) = -2 ^ 63 := by
    rw [belowLeast_value]
    omega
  have haccepts := hmain.2 p hp
  rw [hoperand] at haccepts
  exact ⟨hblank, hresolve, hop, p, hp, haccepts⟩

end RecordFilter
