import Mathlib
import RecordFilter.Proofs.IntegerCondition
import RecordFilter.Proofs.Number.Denotation
import RecordFilter.Proofs.OperatorLaws

/-!
# Thresholds

A condition on a number field compares the value with a threshold, which may be written as a whole
number or as a float.  What such a condition passes is settled by the number alone: the larger the
threshold the less `GreaterThan` passes and the more `LessThan` does, and thresholds that denote one
number pass the same records, however they are written.

A threshold is turned into an operand of the type of the field first.  For `int` fields that is
exact; for `float` fields a whole number is rounded, which keeps the order and leaves floats where
they are.  `Literal.position_mono` says so for both types, `Operator.relates_iff_compares` that an
operator compares nothing but positions, and `thresholds_ordered` puts the two together.
-/

namespace RecordFilter

open Number RecordFilter.Path

/-! ## Positions -/

namespace Literal

/-- The number that a literal denotes; truth values and texts denote none. -/
def number? : Literal → Option (WithBot (WithTop ℚ))
  | .int n => some ((n.toInt : ℚ) : WithTop ℚ)
  | .float x => x.number?
  | .bool _ | .string _ => none

/-- The place of a number among the values of its type. -/
def position : Literal → Int
  | .int n => n.toInt
  | .float x => x.rank
  | .bool _ | .string _ => 0

variable {options : CompileOptions} {type : ScalarType} {literal a b operand p q : Literal}
  {x y : WithBot (WithTop ℚ)}

/-- An operand of an `int` field is the number of the literal. -/
theorem position_of_fit?_int (hnumber : literal.number? = some x)
    (hfit : literal.fit? options .int = some operand) :
    operand.isNaN = false ∧ x = ((operand.position : ℚ) : WithTop ℚ) := by
  obtain ⟨n, hn, rfl⟩ := Option.map_eq_some_iff.1 hfit
  refine ⟨rfl, ?_⟩
  cases literal with
  | int m =>
    cases hn
    exact (Option.some.inj hnumber).symm
  | float z =>
    obtain ⟨i, hi, hrange⟩ := Option.bind_eq_some_iff.1 hn
    have hdenotes := Binary64.number?_of_toInt? hi
    obtain rfl := Option.some.inj (hnumber.symm.trans hdenotes)
    rw [int64?] at hrange
    split at hrange
    · next hbounds =>
      obtain rfl := Option.some.inj hrange
      rw [position, Int64.toInt_ofInt_of_le hbounds.1 (Int.lt_add_one_of_le hbounds.2)]
    · cases hrange
  | bool b => cases hnumber
  | string s => cases hnumber

/-- An operand of a `float` field stands where the double nearest to the number does. -/
theorem position_of_fit?_float (hnumber : literal.number? = some x)
    (hfit : literal.fit? options .float = some operand) :
    operand.isNaN = false ∧ operand.position = (Binary64.closest x).rank := by
  obtain ⟨z, hz, rfl⟩ := Option.map_eq_some_iff.1 hfit
  cases literal with
  | int m =>
    obtain rfl := Option.some.inj hz
    obtain rfl := Option.some.inj hnumber
    have hclosest := Binary64.closest_intCast m.toInt
    rw [← hclosest]
    exact ⟨Binary64.isNaN_closest _, rfl⟩
  | float w =>
    obtain rfl := Option.some.inj hz
    obtain ⟨hnan, hrank⟩ := Binary64.rank_closest_of_number? hnumber
    exact ⟨hnan, hrank.symm⟩
  | bool b => cases hnumber
  | string s => cases hnumber

theorem isNaN_of_fit? (htype : type = .int ∨ type = .float) (hnumber : literal.number? = some x)
    (hfit : literal.fit? options type = some operand) : operand.isNaN = false := by
  obtain rfl | rfl := htype
  · exact (position_of_fit?_int hnumber hfit).1
  · exact (position_of_fit?_float hnumber hfit).1

/-- Literals keep their order when they become operands of a number field. -/
theorem position_mono (htype : type = .int ∨ type = .float) (hx : a.number? = some x)
    (hy : b.number? = some y) (hp : a.fit? options type = some p)
    (hq : b.fit? options type = some q) (hle : x ≤ y) : p.position ≤ q.position := by
  obtain rfl | rfl := htype
  · obtain ⟨-, rfl⟩ := position_of_fit?_int hx hp
    obtain ⟨-, rfl⟩ := position_of_fit?_int hy hq
    have hcast : (p.position : ℚ) ≤ q.position := WithTop.coe_le_coe.1 (WithBot.coe_le_coe.1 hle)
    exact_mod_cast hcast
  · rw [(position_of_fit?_float hx hp).2, (position_of_fit?_float hy hq).2]
    exact Binary64.rank_closest_mono hle

end Literal

/-! ## Operators on positions -/

/-- On numbers an operator compares places. -/
theorem Operator.relates_iff_compares (op : Operator) {value operand : Literal}
    (hkind : value.kind = operand.kind) (htype : operand.kind = .int ∨ operand.kind = .float)
    (hvalue : value.isNaN = false) (hoperand : operand.isNaN = false) :
    op.Relates value operand ↔ op.Compares value.position operand.position := by
  cases operand with
  | int b =>
    cases value with
    | int a =>
      cases op <;> simp [Relates, Compares, Literal.equal, Literal.position, Int64.toInt_inj,
        Int64.lt_iff_toInt_lt]
    | _ => cases hkind
  | float z =>
    cases value with
    | float w =>
      have hw : w.isNaN = false := hvalue
      have hz : z.isNaN = false := hoperand
      cases op <;> simp [Relates, Compares, Literal.equal, Literal.position, Binary64.equal,
        Binary64.less, hw, hz]
    | _ => cases hkind
  | bool b => simp [Literal.kind] at htype
  | string s => simp [Literal.kind] at htype

/-! ## Conditions -/

section Conditions

variable {options : CompileOptions} {family : Family} {connector : Connector} {path : String}
  {type : ScalarType} {a b p q : Literal} {x y : WithBot (WithTop ℚ)} {op op' : Operator}

/-- A literal that compiles in a condition on a number compiles with every comparison of numbers. -/
theorem Condition.WellFormed.comparing_number {literal : Literal}
    (hwell : (op.comparing path literal).WellFormed options family)
    (hleads : (op.comparing path literal).PathLeadsTo family (.scalar type))
    (htype : type = .int ∨ type = .float) (other : Operator) (hother : other ≠ .contains) :
    (other.comparing path literal).WellFormed options family := by
  refine hwell.comparing other fun type' hleads' => ?_
  cases hleads.unique hleads'
  cases other with
  | equal | notEqual => trivial
  | greaterThan | lessThan => exact htype
  | contains => exact absurd rfl hother

/-- What passes a condition passes the one with another threshold, if the comparison holds of the
other threshold wherever it holds of the first. -/
theorem Condition.Holds.of_compares {record : Record}
    (hholds : (op.comparing path b).Holds options family record)
    (hleads : (op.comparing path b).PathLeadsTo family (.scalar type))
    (htype : type = .int ∨ type = .float) (hx : a.number? = some x) (hy : b.number? = some y)
    (hp : a.fit? options type = some p) (hq : b.fit? options type = some q)
    (hcompares : ∀ i, op.Compares i q.position → op.Compares i p.position) :
    (op.comparing path a).Holds options family record := by
  obtain ⟨names, type', value, literal, operand, hspells, hreads, hliteral, hfit, hrelates⟩ :=
    hholds
  obtain rfl : b = literal := Option.some.inj hliteral
  cases hleads.unique ⟨names, hspells, hreads.leadsTo⟩
  obtain rfl : q = operand := Option.some.inj (hq.symm.trans hfit)
  have hpkind := Literal.kind_of_fit? hp
  have hqkind := Literal.kind_of_fit? hq
  refine (holds_iff_relates hspells hreads hp).2 ?_
  cases hvalue : value.isNaN with
  | true =>
    have hop : op = .notEqual :=
      (op.relates_iff_of_isNaN (hreads.kind_eq.trans hqkind.symm) (.inl hvalue)).1 hrelates
    exact (op.relates_iff_of_isNaN (hreads.kind_eq.trans hpkind.symm) (.inl hvalue)).2 hop
  | false =>
    have hplaces : op.Compares value.position q.position :=
      (op.relates_iff_compares (hreads.kind_eq.trans hqkind.symm) (by rwa [hqkind]) hvalue
        (Literal.isNaN_of_fit? htype hy hq)).1 hrelates
    exact (op.relates_iff_compares (hreads.kind_eq.trans hpkind.symm) (by rwa [hpkind]) hvalue
      (Literal.isNaN_of_fit? htype hx hp)).2 (hcompares _ hplaces)

/-- Conditions whose thresholds stand at one place pass the same records. -/
theorem Condition.holds_iff_of_position_eq {record : Record}
    (hleads : (op.comparing path a).PathLeadsTo family (.scalar type))
    (htype : type = .int ∨ type = .float) (hx : a.number? = some x) (hy : b.number? = some y)
    (hp : a.fit? options type = some p) (hq : b.fit? options type = some q)
    (hposition : p.position = q.position) :
    (op.comparing path a).Holds options family record ↔
      (op.comparing path b).Holds options family record := by
  constructor
  · intro hholds
    refine hholds.of_compares hleads htype hy hx hq hp fun i hi => ?_
    rwa [← hposition]
  · intro hholds
    refine hholds.of_compares hleads htype hx hy hp hq fun i hi => ?_
    rwa [hposition]

/-- Two literals that denote numbers compile, each with some comparison, in conditions on one number
field.  Then they compile with every comparison of numbers.  If the number of `a` is not above that
of `b`, what is greater than `b` is greater than `a`, and what is less than `a` is less than `b`.  If
the two numbers are one, the conditions pass the same records. -/
theorem thresholds_ordered (htype : type = .int ∨ type = .float)
    (hleads : (op.comparing path a).PathLeadsTo family (.scalar type))
    (hx : a.number? = some x) (hy : b.number? = some y)
    (ha : (op.comparing path a).CompilesAlone options family connector)
    (hb : (op'.comparing path b).CompilesAlone options family connector) :
    (x ≤ y → ∀ record : Record,
      ((Operator.greaterThan.comparing path b).passesAlone options family connector record = true →
        (Operator.greaterThan.comparing path a).passesAlone options family connector record =
          true) ∧
      ((Operator.lessThan.comparing path a).passesAlone options family connector record = true →
        (Operator.lessThan.comparing path b).passesAlone options family connector record =
          true)) ∧
    ∀ op : Operator, op ≠ .contains →
      (op.comparing path a).CompilesAlone options family connector ∧
      (op.comparing path b).CompilesAlone options family connector ∧
      (x = y → ∀ record : Record,
        (op.comparing path a).passesAlone options family connector record =
          (op.comparing path b).passesAlone options family connector record) := by
  have hwella := Condition.compilesAlone_iff.1 ha
  have hwellb := Condition.compilesAlone_iff.1 hb
  obtain ⟨p, hp⟩ := hwella.exists_fit hleads
  obtain ⟨q, hq⟩ := hwellb.exists_fit hleads
  have hwell : ∀ op : Operator, op ≠ .contains →
      (op.comparing path a).WellFormed options family ∧
        (op.comparing path b).WellFormed options family := fun op hop =>
    ⟨hwella.comparing_number hleads htype op hop, hwellb.comparing_number hleads htype op hop⟩
  refine ⟨fun hle record => ?_, fun op hop => ?_⟩
  · have hposition := Literal.position_mono htype hx hy hp hq hle
    obtain ⟨hgreatera, hgreaterb⟩ := hwell .greaterThan (by decide)
    obtain ⟨hlessa, hlessb⟩ := hwell .lessThan (by decide)
    rw [Condition.passesAlone_iff_holds hgreatera, Condition.passesAlone_iff_holds hgreaterb,
      Condition.passesAlone_iff_holds hlessa, Condition.passesAlone_iff_holds hlessb]
    constructor
    · intro hholds
      exact hholds.of_compares hleads htype hx hy hp hq fun i hi => lt_of_le_of_lt hposition hi
    · intro hholds
      exact hholds.of_compares hleads htype hy hx hq hp fun i hi => lt_of_lt_of_le hi hposition
  · obtain ⟨hopa, hopb⟩ := hwell op hop
    refine ⟨Condition.compilesAlone_iff.2 hopa, Condition.compilesAlone_iff.2 hopb, ?_⟩
    intro heq record
    have hposition : p.position = q.position :=
      le_antisymm (Literal.position_mono htype hx hy hp hq heq.le)
        (Literal.position_mono htype hy hx hq hp heq.ge)
    rw [Bool.eq_iff_iff, Condition.passesAlone_iff_holds hopa, Condition.passesAlone_iff_holds hopb]
    exact Condition.holds_iff_of_position_eq hleads htype hx hy hp hq hposition

/-- A whole number that is no double, against the double above it; and one that is, against
itself. -/
theorem thresholds_ordered_weights :
    ((Operator.greaterThan.comparing "Weight" (.float (.ofInt 9007199254740994))).passesAlone {}
        weights .or weighed = true →
      (Operator.greaterThan.comparing "Weight" (.int 9007199254740993)).passesAlone {} weights .or
        weighed = true) ∧
    (Operator.notEqual.comparing "Weight" (.int 9007199254740992)).passesAlone {} weights .or
        weighed =
      (Operator.notEqual.comparing "Weight" (.float (.ofInt 9007199254740992))).passesAlone {}
        weights .or weighed := by
  have hresolve : Path.resolve weights Family.root ["Weight"] = .ok ⟨.scalar .float, [0]⟩ := by
    decide +kernel
  have hspells : Spells "Weight" ["Weight"] := segments_eq_iff.1 (by decide +kernel)
  have hleads : ∀ n, (Operator.equal.comparing "Weight" (.int n)).PathLeadsTo weights
      (.scalar .float) := fun n => ⟨_, hspells, exists_resolve_eq_ok_iff.1 ⟨_, hresolve⟩⟩
  have hcompiles : ∀ literal operand, literal.fit? {} .float = some (.float operand) →
      (Operator.equal.comparing "Weight" literal).CompilesAlone {} weights .or := by
    intro literal operand hfit
    exact ⟨_, (RuleSet.compile_oneCondition_eq_ok_iff (by decide +kernel) hresolve).2
      ⟨_, _, hfit, rfl, rfl⟩⟩
  have hnumber : ∀ n, (Binary64.ofInt n).toInt? = some n →
      (Literal.float (.ofInt n)).number? = some ((n : ℚ) : WithTop ℚ) := fun n hn =>
    Binary64.number?_of_toInt? hn
  constructor
  · refine ((thresholds_ordered (.inr rfl) (hleads 9007199254740993) rfl
      (hnumber 9007199254740994 (by decide +kernel)) (hcompiles _ _ rfl)
      (hcompiles _ _ rfl)).1 ?_ weighed).1
    exact WithBot.coe_le_coe.2 (WithTop.coe_le_coe.2 (by decide +kernel))
  · exact ((thresholds_ordered (.inr rfl) (hleads 9007199254740992) rfl
      (hnumber 9007199254740992 (by decide +kernel)) (hcompiles _ _ rfl)
      (hcompiles _ _ rfl)).2 .notEqual (by decide)).2.2 (by decide +kernel) weighed

end Conditions

end RecordFilter
