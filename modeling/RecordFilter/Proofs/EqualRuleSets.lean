import Mathlib
import RecordFilter.Proofs.FiniteFloats
import RecordFilter.Proofs.OperatorLaws
import RecordFilter.Proofs.StringCoercion

/-!
# Equal rule sets

Rule sets that compare equal need not be the same: zero and minus zero are equal floats.  Such
literals fit the same types.  As operands they cannot be told apart by any comparison, with one
exception: where a string field takes the text of a literal, their texts differ.

* `Literal.eq_or_zeros_of_equal`: no other literals are equal without being the same.
* `Condition.passesAlone_eq_of_equal`: equal conditions pass the same records, unless they are
  `ZerosAsText`.
* `RuleSet.FailsAt.of_equal`: equal rule sets are at fault in the same place, with errors that are
  `Alike`.

`RuleSet.compile_of_equal` says what this makes of compilation.
-/

namespace RecordFilter

open Number RecordFilter.Path

/-! ## Literals -/

namespace Literal

/-- Two floats that are zero, of opposite signs. -/
inductive Zeros : Literal → Literal → Prop
  | of (negative : Bool) : Zeros (.float ⟨negative, 0⟩) (.float ⟨!negative, 0⟩)

variable {options : CompileOptions} {type : ScalarType} {a b : Literal}

theorem Zeros.symm (h : a.Zeros b) : b.Zeros a := by
  obtain ⟨negative⟩ := h
  have hzeros := Zeros.of (!negative)
  rwa [Bool.not_not] at hzeros

/-- Literals that compare equal are the same, or zeros of opposite signs. -/
theorem eq_or_zeros_of_equal (h : a.equal b = true) : a = b ∨ a.Zeros b := by
  cases a <;> cases b <;> simp only [equal, beq_iff_eq, Bool.false_eq_true] at h
  case float.float x y =>
    obtain ⟨negative, magnitude⟩ := x
    obtain ⟨negative', magnitude'⟩ := y
    simp only [Binary64.equal, Bool.and_eq_true, beq_iff_eq, Binary64.rank] at h
    have hrank := h.2
    by_cases hsign : negative = negative'
    · subst hsign
      have hmagnitude : magnitude.toNat = magnitude'.toNat := by
        split at hrank <;> omega
      rw [BitVec.eq_of_toNat_eq hmagnitude]
      exact .inl rfl
    · obtain rfl : negative' = !negative := by rwa [Bool.eq_not_iff, ne_eq, eq_comm]
      have hzero : magnitude.toNat = 0 ∧ magnitude'.toNat = 0 := by
        cases negative <;> simp at hrank <;> omega
      obtain rfl : magnitude = 0 := BitVec.eq_of_toNat_eq hzero.1
      obtain rfl : magnitude' = 0 := BitVec.eq_of_toNat_eq hzero.2
      exact .inr (.of negative)
  all_goals exact .inl (by rw [h])

/-- As a value of an `int` field, a float that is zero has no sign. -/
theorem toInt?_zero (negative : Bool) : (Literal.float ⟨negative, 0⟩).toInt? = some 0 := by
  cases negative <;> decide

/-- Zeros fit the same types. -/
theorem Zeros.fit?_eq_none_iff (h : a.Zeros b) :
    a.fit? options type = none ↔ b.fit? options type = none := by
  obtain ⟨negative⟩ := h
  cases type with
  | int => rw [fit?, fit?, toInt?_zero, toInt?_zero]
  | float | bool => simp [fit?, toFloat?, toBool?]
  | string => cases hcoercion : options.stringCoercion <;> simp [fit?, toString?, hcoercion]

theorem Zeros.exists_fit? {p : Literal} (h : a.Zeros b) (hp : a.fit? options type = some p) :
    ∃ q, b.fit? options type = some q := by
  rw [← Option.ne_none_iff_exists', ne_eq, ← h.fit?_eq_none_iff, hp]
  exact Option.some_ne_none p

/-- Zeros that fit a type become operands that are zeros or the same, unless their texts are
taken. -/
theorem Zeros.of_fit? {p q : Literal} (h : a.Zeros b) (hp : a.fit? options type = some p)
    (hq : b.fit? options type = some q)
    (hnot : ¬ (options.stringCoercion = .stringify ∧ type = .string)) : p = q ∨ p.Zeros q := by
  obtain ⟨negative⟩ := h
  cases type with
  | int =>
    rw [fit?, toInt?_zero] at hp hq
    exact .inl (Option.some.inj (hp.symm.trans hq))
  | float =>
    cases hp
    cases hq
    exact .inr (.of negative)
  | bool => cases hp
  | string =>
    have hstrict : options.stringCoercion = .strict := by
      cases hcoercion : options.stringCoercion with
      | stringify => exact absurd ⟨hcoercion, rfl⟩ hnot
      | strict => rfl
    simp [fit?, toString?, hstrict] at hp

/-- The text of a float that is zero. -/
def zeroText (negative : Bool) : String :=
  if negative then "-0" else "0"

theorem fit?_string_zero (negative : Bool) (h : options.stringCoercion = .stringify) :
    fit? options (.float ⟨negative, 0⟩) .string = some (.string (zeroText negative)) := by
  rw [fit?, h]
  cases negative <;> decide

end Literal

/-- No comparison tells zeros apart. -/
theorem Operator.relates_iff_of_zeros (op : Operator) {value p q : Literal} (h : p.Zeros q) :
    op.Relates value p ↔ op.Relates value q := by
  obtain ⟨negative⟩ := h
  have hrank : ∀ s, (⟨s, 0#63⟩ : Binary64).rank = 0 := by decide
  have hnan : ∀ s, (⟨s, 0#63⟩ : Binary64).isNaN = false := by decide
  cases value <;> cases op <;>
    simp [Relates, Literal.equal, Binary64.equal, Binary64.less, hrank, hnan]

/-! ## Conditions -/

section Conditions

variable {options : CompileOptions} {family : Family} {connector : Connector} {path : String}
  {a b : Literal} {op : Operator} {c c' : Condition} {record : Record}

/-- Two conditions on a string field under options that take the texts of literals, with zeros of
opposite signs for literals. -/
structure Condition.ZerosAsText (options : CompileOptions) (family : Family) (c c' : Condition) :
    Prop where
  stringify : options.stringCoercion = .stringify
  leads : c.PathLeadsTo family (.scalar .string)
  zeros : ∃ a b, c.value = some a ∧ c'.value = some b ∧ a.Zeros b

/-- Conditions that compare equal are the same, or zeros of opposite signs are all that differs. -/
theorem Condition.eq_or_zeros_of_equal (h : c.equal c' = true) :
    c = c' ∨ ∃ path op a b, a.Zeros b ∧ c = Operator.comparing op path a ∧
      c' = Operator.comparing op path b := by
  obtain ⟨path, op, value⟩ := c
  obtain ⟨path', op', value'⟩ := c'
  simp only [equal, Bool.and_eq_true, beq_iff_eq] at h
  obtain ⟨⟨rfl, rfl⟩, hvalue⟩ := h
  cases value with
  | none =>
    cases value' with
    | none => exact .inl rfl
    | some b => cases hvalue
  | some a =>
    cases value' with
    | none => cases hvalue
    | some b =>
      obtain rfl | hzeros := Literal.eq_or_zeros_of_equal hvalue
      · exact .inl rfl
      · exact .inr ⟨path, op, a, b, hzeros, rfl, rfl⟩

theorem Condition.field_eq_of_equal (h : c.equal c' = true) :
    c.field = c'.field ∧ c.operator = c'.operator := by
  simp only [equal, Bool.and_eq_true, beq_iff_eq] at h
  exact h.1

theorem Condition.WellFormed.of_zeros (h : a.Zeros b)
    (hwell : (op.comparing path a).WellFormed options family) :
    (op.comparing path b).WellFormed options family := by
  obtain ⟨hblank, literal, type, operand, hvalue, hleads, hfit, hsupports⟩ := hwell
  obtain rfl : a = literal := Option.some.inj hvalue
  obtain ⟨operand', hfit'⟩ := h.exists_fit? hfit
  exact ⟨hblank, b, type, operand', rfl, hleads, hfit', hsupports⟩

theorem Condition.wellFormed_iff_of_equal (h : c.equal c' = true) :
    c.WellFormed options family ↔ c'.WellFormed options family := by
  obtain rfl | ⟨path, op, a, b, hzeros, rfl, rfl⟩ := eq_or_zeros_of_equal h
  · rfl
  · exact ⟨.of_zeros hzeros, .of_zeros hzeros.symm⟩

theorem Condition.Holds.of_zeros (h : a.Zeros b)
    (hwell : (op.comparing path b).WellFormed options family)
    (hnot : ¬ (op.comparing path a).ZerosAsText options family (op.comparing path b))
    (hholds : (op.comparing path a).Holds options family record) :
    (op.comparing path b).Holds options family record := by
  obtain ⟨names, type, value, literal, p, hspells, hreads, hvalue, hp, hrelates⟩ := hholds
  obtain rfl : a = literal := Option.some.inj hvalue
  obtain ⟨q, hq⟩ := hwell.exists_fit ⟨names, hspells, hreads.leadsTo⟩
  have hexcept : ¬ (options.stringCoercion = .stringify ∧ type = .string) := by
    rintro ⟨hstringify, rfl⟩
    exact hnot ⟨hstringify, ⟨names, hspells, hreads.leadsTo⟩, a, b, rfl, rfl, h⟩
  refine ⟨names, type, value, b, q, hspells, hreads, rfl, hq, ?_⟩
  obtain rfl | hzeros := h.of_fit? hp hq hexcept
  · exact hrelates
  · exact (op.relates_iff_of_zeros hzeros).1 hrelates

theorem Condition.ZerosAsText.symm (h : c.ZerosAsText options family c')
    (hfield : c.field = c'.field) : c'.ZerosAsText options family c := by
  obtain ⟨hstringify, hleads, a, b, ha, hb, hzeros⟩ := h
  rw [PathLeadsTo, hfield] at hleads
  exact ⟨hstringify, hleads, b, a, hb, ha, hzeros.symm⟩

/-- Equal conditions pass the same records, unless they compare with the texts of zeros. -/
theorem Condition.passesAlone_eq_of_equal (h : c.equal c' = true)
    (hnot : ¬ c.ZerosAsText options family c') :
    c.passesAlone options family connector record =
      c'.passesAlone options family connector record := by
  have hiff : c.WellFormed options family ↔ c'.WellFormed options family :=
    wellFormed_iff_of_equal h
  obtain rfl | ⟨path, op, a, b, hzeros, rfl, rfl⟩ := eq_or_zeros_of_equal h
  · rfl
  rw [Bool.eq_iff_iff]
  constructor
  · intro hpasses
    have hwell := wellFormed_of_passesAlone hpasses
    have hholds := (passesAlone_iff_holds hwell).1 hpasses
    exact (passesAlone_iff_holds (hiff.1 hwell)).2 (hholds.of_zeros hzeros (hiff.1 hwell) hnot)
  · intro hpasses
    have hwell := wellFormed_of_passesAlone hpasses
    have hholds := (passesAlone_iff_holds hwell).1 hpasses
    exact (passesAlone_iff_holds (hiff.2 hwell)).2
      (hholds.of_zeros hzeros.symm (hiff.2 hwell) fun htext => hnot (htext.symm rfl))

/-- The operand of a compiled condition is the literal, as a value of the type of the field. -/
theorem Condition.CompilesTo.operand_eq {k : CompiledCondition} {type : ScalarType}
    {operand : Literal} (h : c.CompilesTo options family k)
    (hleads : c.PathLeadsTo family (.scalar type)) (hvalue : c.value = some a)
    (hfit : a.fit? options type = some operand) : k.test.operand = operand := by
  obtain ⟨literal, type', route, hliteral, hresolve, htest⟩ := h.exists_test
  obtain rfl := Option.some.inj (hvalue.symm.trans hliteral)
  cases hleads.unique (pathLeadsTo_iff.2 ⟨route, hresolve⟩)
  obtain ⟨operand', hfit', hoperand⟩ := compileTest_eq_ok_iff.1 htest
  rw [Test.operand_of_ofOperand? hoperand]
  exact Option.some.inj (hfit'.symm.trans hfit)

/-! ## Errors -/

/-- Errors that are the same, but for a literal in them and another one that equals it. -/
inductive CompileError.Alike : CompileError → CompileError → Prop
  | refl (e : CompileError) : Alike e e
  | literal {field type a b} (h : a.equal b = true) :
      Alike (.typeMismatch field type (.literal a)) (.typeMismatch field type (.literal b))

/-- Equal conditions are at fault for the same reason. -/
theorem Condition.FailsWith.of_equal {index : Nat} {e : CompileError} (h : c.equal c' = true)
    (hfails : c.FailsWith options family index e) :
    ∃ e', c'.FailsWith options family index e' ∧ e.Alike e' := by
  obtain rfl | ⟨path, op, a, b, hzeros, rfl, rfl⟩ := eq_or_zeros_of_equal h
  · exact ⟨e, hfails, .refl e⟩
  cases hfails with
  | blankField hblank => exact ⟨_, .blankField hblank, .refl _⟩
  | noValue _ hvalue => cases hvalue
  | fieldNotFound hblank _ hspells hlost =>
    exact ⟨_, .fieldNotFound hblank rfl hspells hlost, .refl _⟩
  | recordField hblank _ hleads => exact ⟨_, .recordField hblank rfl hleads, .refl _⟩
  | literalMismatch hblank hvalue hleads hfit =>
    obtain rfl := Option.some.inj hvalue
    have hequal : a.equal b = true := by
      simpa [equal, Operator.comparing] using h
    exact ⟨_, .literalMismatch hblank rfl hleads (hzeros.fit?_eq_none_iff.1 hfit), .literal hequal⟩
  | containsMismatch hblank hvalue hleads hfit hoperator htype =>
    obtain rfl := Option.some.inj hvalue
    obtain ⟨operand', hfit'⟩ := hzeros.exists_fit? hfit
    exact ⟨_, .containsMismatch hblank rfl hleads hfit' hoperator htype, .refl _⟩
  | operatorMismatch hblank hvalue hleads hfit hoperator hsupports =>
    obtain rfl := Option.some.inj hvalue
    obtain ⟨operand', hfit'⟩ := hzeros.exists_fit? hfit
    exact ⟨_, .operatorMismatch hblank rfl hleads hfit' hoperator hsupports, .refl _⟩

end Conditions

/-! ## Rule sets -/

namespace RuleSet

variable {options : CompileOptions} {family : Family} {a b : RuleSet}

/-- Where a rule set is at fault, and with what error: in a condition, or as a whole. -/
inductive FailsAt (options : CompileOptions) (family : Family) (rules : RuleSet) :
    Option Nat → CompileError → Prop
  | whole {fault} (h : rules.FailsWith options family (.invalidRuleSet fault)) :
      FailsAt options family rules none (.invalidRuleSet fault)
  | condition {before c after e} (hconnector : rules.connector ≠ none)
      (hconditions : rules.conditions = before ++ c :: after)
      (hbefore : ∀ c' ∈ before, c'.WellFormed options family)
      (hfails : c.FailsWith options family before.length e) :
      FailsAt options family rules (some before.length) e

theorem failsWith_iff_exists_failsAt {rules : RuleSet} {e : CompileError} :
    rules.FailsWith options family e ↔ ∃ place, rules.FailsAt options family place e := by
  constructor
  · intro h
    cases h with
    | noConnector hconnector => exact ⟨none, .whole (.noConnector hconnector)⟩
    | noConditions hconnector hconditions =>
      exact ⟨none, .whole (.noConditions hconnector hconditions)⟩
    | condition hconnector hconditions hbefore hfails =>
      exact ⟨_, .condition hconnector hconditions hbefore hfails⟩
  · rintro ⟨place, h⟩
    cases h with
    | whole h => exact h
    | condition hconnector hconditions hbefore hfails =>
      exact .condition hconnector hconditions hbefore hfails

/-- A condition that is not well formed stands behind no more than the well-formed ones. -/
theorem length_le_of_not_wellFormed {before before' after after' : List Condition}
    {c c' : Condition} (h : before ++ c :: after = before' ++ c' :: after')
    (hbefore' : ∀ k ∈ before', k.WellFormed options family) (hc : ¬ c.WellFormed options family) :
    before'.length ≤ before.length := by
  by_contra hlt
  have hat : (before' ++ c' :: after')[before.length]? = some c := by
    rw [← h, List.getElem?_append_right (Nat.le_refl _), Nat.sub_self, List.getElem?_cons_zero]
  rw [List.getElem?_append_left (by omega)] at hat
  exact hc (hbefore' c (List.mem_of_getElem? hat))

/-- A rule set is at fault in one place. -/
theorem FailsAt.place_unique {rules : RuleSet} {place place' : Option Nat} {e e' : CompileError}
    (h : rules.FailsAt options family place e) (h' : rules.FailsAt options family place' e') :
    place = place' := by
  have herror := compile_eq_error_iff.2 (failsWith_iff_exists_failsAt.2 ⟨place, h⟩)
  have herror' := compile_eq_error_iff.2 (failsWith_iff_exists_failsAt.2 ⟨place', h'⟩)
  obtain rfl := Except.error.inj (herror.symm.trans herror')
  cases h with
  | whole _ =>
    cases h' with
    | whole _ => rfl
    | condition _ _ _ hc => cases hc
  | condition _ hsplit hbefore hc =>
    cases h' with
    | whole _ => cases hc
    | condition _ hsplit' hbefore' hc' =>
      have hsame := hsplit.symm.trans hsplit'
      rw [le_antisymm (length_le_of_not_wellFormed hsame.symm hbefore hc'.not_wellFormed)
        (length_le_of_not_wellFormed hsame hbefore' hc.not_wellFormed)]

theorem equal_iff : a.equal b = true ↔ a.connector = b.connector ∧
    List.Forall₂ (fun c c' => Condition.equal c c' = true) a.conditions b.conditions := by
  have hconditions : ∀ as bs, equalConditions as bs = true ↔
      List.Forall₂ (fun c c' => Condition.equal c c' = true) as bs := by
    intro as
    induction as with
    | nil =>
      intro bs
      cases bs <;> simp [equalConditions]
    | cons c as ih =>
      intro bs
      cases bs <;> simp [equalConditions, ih]
  rw [equal, Bool.and_eq_true, beq_iff_eq, hconditions]

theorem forall_wellFormed_of_equal {as bs : List Condition}
    (h : List.Forall₂ (fun c c' => Condition.equal c c' = true) as bs)
    (hwell : ∀ c ∈ as, c.WellFormed options family) : ∀ c ∈ bs, c.WellFormed options family := by
  induction h with
  | nil => exact hwell
  | cons hc _ ih =>
    rw [List.forall_mem_cons] at hwell ⊢
    exact ⟨(Condition.wellFormed_iff_of_equal hc).1 hwell.1, ih hwell.2⟩

theorem WellFormed.of_equal (h : a.equal b = true) (hwell : a.WellFormed options family) :
    b.WellFormed options family := by
  obtain ⟨hconnector, hconditions⟩ := equal_iff.1 h
  refine ⟨hconnector ▸ hwell.connector, ?_, forall_wellFormed_of_equal hconditions hwell.conditions⟩
  intro hnil
  rw [hnil, List.forall₂_nil_right_iff] at hconditions
  exact hwell.conditions_ne_nil hconditions

/-- What a list is related to, item by item, is parted where the list is. -/
theorem exists_append_of_forall₂ {α β : Type} {R : α → β → Prop} {before after : List α} {x : α}
    {ys : List β} (h : List.Forall₂ R (before ++ x :: after) ys) :
    ∃ before' y after', ys = before' ++ y :: after' ∧ List.Forall₂ R before before' ∧ R x y := by
  induction before generalizing ys with
  | nil =>
    obtain ⟨y, after', hy, -, rfl⟩ := List.forall₂_cons_left_iff.1 h
    exact ⟨[], y, after', rfl, .nil, hy⟩
  | cons first before ih =>
    obtain ⟨first', ys', hfirst, hrest, rfl⟩ := List.forall₂_cons_left_iff.1 h
    obtain ⟨before', y, after', rfl, hbefore, hy⟩ := ih hrest
    exact ⟨first' :: before', y, after', rfl, .cons hfirst hbefore, hy⟩

/-- Equal rule sets are at fault in the same place, for the same reason. -/
theorem FailsAt.of_equal {place : Option Nat} {e : CompileError} (h : a.equal b = true)
    (hfails : a.FailsAt options family place e) :
    ∃ e', b.FailsAt options family place e' ∧ e.Alike e' := by
  obtain ⟨hconnector, hconditions⟩ := equal_iff.1 h
  cases hfails with
  | whole hwhole =>
    refine ⟨_, .whole ?_, .refl _⟩
    cases hwhole with
    | noConnector hnone => exact .noConnector (hconnector ▸ hnone)
    | noConditions hsome hnil =>
      rw [hnil, List.forall₂_nil_left_iff] at hconditions
      exact .noConditions (hconnector ▸ hsome) hconditions
    | condition _ _ _ hc => cases hc
  | condition hsome hsplit hbefore hc =>
    rw [hsplit] at hconditions
    obtain ⟨before', c', after', hsplit', hbefore', hequal⟩ := exists_append_of_forall₂ hconditions
    obtain ⟨e', hc', halike⟩ := hc.of_equal hequal
    rw [hbefore'.length_eq] at hc' ⊢
    exact ⟨e', .condition (hconnector ▸ hsome) hsplit'
      (forall_wellFormed_of_equal hbefore' hbefore) hc', halike⟩

/-- In a place of both rule sets stand conditions that compare with the texts of zeros. -/
def ZerosAsTextAt (options : CompileOptions) (family : Family) (a b : RuleSet) (i : Nat) : Prop :=
  ∃ c c', a.conditions[i]? = some c ∧ b.conditions[i]? = some c' ∧
    c.ZerosAsText options family c'

theorem rel_getElem?_of_forall₂ {α β : Type} {R : α → β → Prop} {xs : List α} {ys : List β}
    (h : List.Forall₂ R xs ys) (i : Nat) : Option.Rel R xs[i]? ys[i]? := by
  induction h generalizing i with
  | nil => exact .none
  | cons hhead _ ih =>
    cases i with
    | zero => exact .some hhead
    | succ i => exact ih i

theorem getElem?_outcomes {p : Predicate} (h : a.compile options family = .ok p) (record : Record)
    (i : Nat) : (p.explain record).outcomes[i]? = a.conditions[i]?.map fun c =>
      ⟨i, c.field, c.operator, c.passesAlone options family .and record⟩ := by
  obtain ⟨-, -, hcompiled⟩ := compile_eq_ok_iff.1 h
  rw [Predicate.explain, outcomes_eq_of_forall₂ hcompiled .and record 0, List.getElem?_map,
    List.getElem?_zipIdx, Option.map_map]
  simp [Function.comp_def]

/-- Equal conditions in one place fare alike, unless they compare with the texts of zeros. -/
theorem getElem?_outcomes_of_equal {p q : Predicate} (h : a.equal b = true)
    (hp : a.compile options family = .ok p) (hq : b.compile options family = .ok q) {i : Nat}
    (hnot : ¬ ZerosAsTextAt options family a b i) (record : Record) :
    (p.explain record).outcomes[i]? = (q.explain record).outcomes[i]? := by
  rw [getElem?_outcomes hp, getElem?_outcomes hq]
  have hrel := rel_getElem?_of_forall₂ (equal_iff.1 h).2 i
  generalize hc : a.conditions[i]? = c at hrel
  generalize hc' : b.conditions[i]? = c' at hrel
  cases hrel with
  | none => rfl
  | @some c c' hequal =>
    have htext : ¬ c.ZerosAsText options family c' := fun htext => hnot ⟨c, c', hc, hc', htext⟩
    have hpasses : c.passesAlone options family .and record =
        c'.passesAlone options family .and record :=
      Condition.passesAlone_eq_of_equal hequal htext
    obtain ⟨hfield, hoperator⟩ := Condition.field_eq_of_equal hequal
    rw [Option.map_some, Option.map_some, hpasses, hfield, hoperator]

/-- Reports that agree place by place are the same, and so are the answers. -/
theorem explain_eq_of_getElem?_outcomes {p q : Predicate} {record : Record}
    (hconnector : p.connector = q.connector)
    (h : ∀ i : Nat, (p.explain record).outcomes[i]? = (q.explain record).outcomes[i]?) :
    p.accepts record = q.accepts record ∧ p.explain record = q.explain record := by
  have houtcomes : (p.explain record).outcomes = (q.explain record).outcomes := List.ext_getElem? h
  have hexplain : p.explain record = q.explain record := by
    change (⟨p.connector.join ((p.explain record).outcomes.map Outcome.matched),
      (p.explain record).outcomes⟩ : Report) = ⟨q.connector.join
        ((q.explain record).outcomes.map Outcome.matched), (q.explain record).outcomes⟩
    rw [houtcomes, hconnector]
  refine ⟨?_, hexplain⟩
  rw [← p.result_explain, ← q.result_explain, hexplain]

/-- Where conditions compare with the texts of zeros, these are `0` and `-0`. -/
theorem exists_operand_of_zerosAsTextAt {p q : Predicate} (h : a.equal b = true)
    (hp : a.compile options family = .ok p) (hq : b.compile options family = .ok q) {i : Nat}
    (hzeros : ZerosAsTextAt options family a b i) :
    ∃ k k' negative, p.conditions[i]? = some k ∧ q.conditions[i]? = some k' ∧
      k.test.operand = .string (Literal.zeroText negative) ∧
      k'.test.operand = .string (Literal.zeroText !negative) := by
  obtain ⟨c, c', hc, hc', hstringify, hleads, x, y, hx, hy, ⟨negative⟩⟩ := hzeros
  have hequal := rel_getElem?_of_forall₂ (equal_iff.1 h).2 i
  have hk := rel_getElem?_of_forall₂ (compile_eq_ok_iff.1 hp).2.2 i
  have hk' := rel_getElem?_of_forall₂ (compile_eq_ok_iff.1 hq).2.2 i
  rw [hc, hc'] at hequal
  rw [hc] at hk
  rw [hc'] at hk'
  generalize hat : p.conditions[i]? = k at hk ⊢
  generalize hat' : q.conditions[i]? = k' at hk' ⊢
  obtain ⟨hequal⟩ := hequal
  obtain ⟨hk⟩ := hk
  obtain ⟨hk'⟩ := hk'
  have hleads' : c'.PathLeadsTo family (.scalar .string) := by
    rwa [Condition.PathLeadsTo, ← (Condition.field_eq_of_equal hequal).1]
  exact ⟨_, _, negative, rfl, rfl,
    hk.operand_eq hleads hx (Literal.fit?_string_zero _ hstringify),
    hk'.operand_eq hleads' hy (Literal.fit?_string_zero _ hstringify)⟩

/-- Rule sets that compare equal compile or fail together.  If they fail, then in one place and with
errors that are alike.  If they compile, their conditions fare alike on every record, except in places
where both are compared with the texts of zeros, which are the operands `0` and `-0` there.  Without
such places, and always under strict options, the two predicates accept and explain alike. -/
theorem compile_of_equal (options : CompileOptions) (family : Family) (h : a.equal b = true) :
    (∀ e, a.compile options family = .error e →
      ∃ e' place, b.compile options family = .error e' ∧ e.Alike e' ∧
        a.FailsAt options family place e ∧ b.FailsAt options family place e') ∧
    ∀ p, a.compile options family = .ok p →
      ∃ q, b.compile options family = .ok q ∧ p.connector = q.connector ∧
        (∀ i, ¬ ZerosAsTextAt options family a b i → ∀ record : Record,
          (p.explain record).outcomes[i]? = (q.explain record).outcomes[i]?) ∧
        (∀ i, ZerosAsTextAt options family a b i →
          ∃ k k' negative, p.conditions[i]? = some k ∧ q.conditions[i]? = some k' ∧
            k.test.operand = .string (Literal.zeroText negative) ∧
            k'.test.operand = .string (Literal.zeroText !negative)) ∧
        (options.stringCoercion = .strict ∨ (∀ i, ¬ ZerosAsTextAt options family a b i) →
          ∀ record, p.accepts record = q.accepts record ∧
            p.explain record = q.explain record) := by
  refine ⟨fun e he => ?_, fun p hp => ?_⟩
  · obtain ⟨place, hplace⟩ := failsWith_iff_exists_failsAt.1 (compile_eq_error_iff.1 he)
    obtain ⟨e', hplace', halike⟩ := hplace.of_equal h
    have he' : b.compile options family = .error e' :=
      compile_eq_error_iff.2 (failsWith_iff_exists_failsAt.2 ⟨place, hplace'⟩)
    exact ⟨e', place, he', halike, hplace, hplace'⟩
  · have hwell := exists_compile_eq_ok_iff.1 ⟨p, hp⟩
    obtain ⟨q, hq⟩ := exists_compile_eq_ok_iff.2 (hwell.of_equal h)
    have hconnector : some p.connector = some q.connector :=
      (compile_eq_ok_iff.1 hp).1.symm.trans ((equal_iff.1 h).1.trans (compile_eq_ok_iff.1 hq).1)
    have houtcomes := fun i (hnot : ¬ ZerosAsTextAt options family a b i) record =>
      getElem?_outcomes_of_equal h hp hq hnot record
    refine ⟨q, hq, Option.some.inj hconnector, houtcomes,
      fun i => exists_operand_of_zerosAsTextAt h hp hq, ?_⟩
    intro hnone record
    refine explain_eq_of_getElem?_outcomes (Option.some.inj hconnector) fun i => ?_
    refine houtcomes i ?_ record
    rintro ⟨c, c', hc, hc', htext⟩
    cases hnone with
    | inl hstrict => cases hstrict.symm.trans htext.stringify
    | inr hnone => exact hnone i ⟨c, c', hc, hc', htext⟩

end RuleSet

/-- Samples with a label, a charge and a count. -/
def samples : Family :=
  [[⟨"Label", .scalar .string⟩, ⟨"Charge", .scalar .float⟩, ⟨"Count", .scalar .int⟩]]

/-- No charge and no count, zero being written with a sign or without. -/
def unchargedRules (negative : Bool) : RuleSet :=
  .allOf [⟨"Charge", .equal, some (.float ⟨negative, 0⟩)⟩,
    ⟨"Count", .equal, some (.float ⟨negative, 0⟩)⟩]

/-- The rules with a condition before them that compares a label with zero. -/
def labelledRules (negative : Bool) : RuleSet :=
  .anyOf [⟨"Label", .notEqual, some (.float ⟨negative, 0⟩)⟩,
    ⟨"Charge", .equal, some (.float ⟨negative, 0⟩)⟩]

theorem RuleSet.compile_of_equal_samples :
    (∃ p q, (unchargedRules false).compile .strict samples = .ok p ∧
      (unchargedRules true).compile .strict samples = .ok q ∧
      ∀ record, p.accepts record = q.accepts record ∧ p.explain record = q.explain record) ∧
    (∃ p q, (labelledRules false).compile .lenient samples = .ok p ∧
      (labelledRules true).compile .lenient samples = .ok q ∧
      ∀ record, (p.explain record).outcomes[1]? = (q.explain record).outcomes[1]?) ∧
    (∃ e e' place, (labelledRules false).compile .strict samples = .error e ∧
      (labelledRules true).compile .strict samples = .error e' ∧ e.Alike e' ∧
      (labelledRules false).FailsAt .strict samples place e ∧
      (labelledRules true).FailsAt .strict samples place e') := by
  have huncharged : (unchargedRules false).compile .strict samples =
      .ok ⟨.and, [⟨"Charge", .equal, .float [1] .equal ⟨false, 0⟩⟩,
        ⟨"Count", .equal, .int [2] .equal 0⟩]⟩ := by
    decide +kernel
  have hlabelled : (labelledRules false).compile .lenient samples =
      .ok ⟨.or, [⟨"Label", .notEqual, .string [0] .notEqual "0"⟩,
        ⟨"Charge", .equal, .float [1] .equal ⟨false, 0⟩⟩]⟩ := by
    decide +kernel
  have hrefused : (labelledRules false).compile .strict samples =
      .error (.typeMismatch "Label" .string (.literal (.float ⟨false, 0⟩))) := by
    decide +kernel
  have hequal : (unchargedRules false).equal (unchargedRules true) = true ∧
      (labelledRules false).equal (labelledRules true) = true := by
    decide +kernel
  have hresolve : resolvePath samples "Charge" = .ok ⟨.scalar .float, [1]⟩ := by decide +kernel
  refine ⟨?_, ?_, ?_⟩
  · obtain ⟨q, hq, -, -, -, hagree⟩ := (compile_of_equal .strict samples hequal.1).2 _ huncharged
    exact ⟨_, q, huncharged, hq, hagree (.inl rfl)⟩
  · obtain ⟨q, hq, -, houtcomes, -⟩ := (compile_of_equal .lenient samples hequal.2).2 _ hlabelled
    refine ⟨_, q, hlabelled, hq, houtcomes 1 ?_⟩
    rintro ⟨c, c', hc, -, -, hleads, -⟩
    obtain rfl := Option.some.inj hc
    cases hleads.unique (Condition.pathLeadsTo_iff.2 ⟨_, resolvePath_eq_ok_iff.1 hresolve⟩)
  · obtain ⟨e', place, he', halike, hplace, hplace'⟩ :=
      (compile_of_equal .strict samples hequal.2).1 _ hrefused
    exact ⟨_, e', place, hrefused, he', halike, hplace, hplace'⟩

end RecordFilter
