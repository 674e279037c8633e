import RecordFilter.Coercion
import RecordFilter.CompileError
import RecordFilter.Path
import RecordFilter.Predicate

/-!
# Compiling rule sets

A rule set is compiled against a family of record types.  Compilation checks, in this order, that there
is a connector and a condition; then, condition by condition, that the path is not blank, that there is
a literal, that the path leads to a single value, that the literal fits the type of that value, and
that the operator is one that the type has.  The first check that fails is the error.
-/

namespace RecordFilter

open Number

/-! ## Conditions -/

/-- The error for an operator that a type of field does not have.  Asking whether a single value other
than a string contains something is a mistake about the type of the field. -/
def operatorError (op : Operator) (path : String) : FieldType → CompileError
  | .scalar type =>
    if op = .contains then .typeMismatch path .string (.field type)
    else .unsupportedOperator op path (.scalar type)
  | .record => .unsupportedOperator op path .record

/-- Fits a literal to the type of a field and then an operator to the same type. -/
def compileScalar {α β : Type} (type : ScalarType) (c : Condition) (literal : Literal)
    (operand? : Option α) (comparison? : Option β) (test : β → α → Test) :
    Except CompileError Test :=
  match operand?, comparison? with
  | none, _ => .error (.typeMismatch c.field type (.literal literal))
  | some _, none => .error (operatorError c.operator c.field (.scalar type))
  | some operand, some comparison => .ok (test comparison operand)

/-- The test of a condition on the value of a given type at the end of a route. -/
def compileTest (options : CompileOptions) (c : Condition) (literal : Literal) (type : ScalarType)
    (route : List Nat) : Except CompileError Test :=
  match type with
  | .int =>
    compileScalar .int c literal literal.toInt? (NumberComparison.ofOperator? c.operator)
      (Test.int route)
  | .float =>
    compileScalar .float c literal literal.toFloat? (NumberComparison.ofOperator? c.operator)
      (Test.float route)
  | .bool =>
    compileScalar .bool c literal literal.toBool? (BoolComparison.ofOperator? c.operator)
      (Test.bool route)
  | .string =>
    compileScalar .string c literal (literal.toString? options.stringCoercion)
      (StringComparison.ofOperator? c.operator) (Test.string route)

/-- Where the path of a condition leads. -/
def resolvePath (family : Family) (path : String) : Except CompileError Path.Target :=
  (Path.resolve family Family.root (Path.segments path)).mapError fun segment =>
    .fieldNotFound segment path

/-- Compiles the condition at a given place of a rule set. -/
def compileCondition (options : CompileOptions) (family : Family) (index : Nat) (c : Condition) :
    Except CompileError CompiledCondition :=
  if Text.strip c.field.toList = [] then .error (.invalidCondition index c.field .blankField)
  else
    match c.value with
    | none => .error (.invalidCondition index c.field .noValue)
    | some literal =>
      match resolvePath family c.field with
      | .error e => .error e
      | .ok ⟨.record _, _⟩ => .error (operatorError c.operator c.field .record)
      | .ok ⟨.scalar type, route⟩ =>
        (compileTest options c literal type route).map fun test => ⟨c.field, c.operator, test⟩

/-- Compiles conditions in order, the first of them standing at a given place. -/
def compileConditions (options : CompileOptions) (family : Family) :
    Nat → List Condition → Except CompileError (List CompiledCondition)
  | _, [] => .ok []
  | index, c :: cs =>
    match compileCondition options family index c with
    | .error e => .error e
    | .ok compiled => (compileConditions options family (index + 1) cs).map (compiled :: ·)

/-! ## Rule sets -/

/-- Compiles a rule set against the root type of a family. -/
def RuleSet.compile (rules : RuleSet) (options : CompileOptions) (family : Family) :
    Except CompileError Predicate :=
  match rules.connector, rules.conditions with
  | none, _ => .error (.invalidRuleSet .noConnector)
  | some _, [] => .error (.invalidRuleSet .noConditions)
  | some connector, c :: cs =>
    (compileConditions options family 0 (c :: cs)).map fun compiled => ⟨connector, compiled⟩

end RecordFilter
