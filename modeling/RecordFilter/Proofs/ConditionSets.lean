import Mathlib
import RecordFilter.Proofs.CompileOutcome
import RecordFilter.Proofs.Explanation

/-!
# Conditions in any order, and conditions behind conditions

Compilation stops at the first condition that is at fault, and a predicate tests its
conditions in order.  Neither shows in which rule sets compile or in what is accepted: both
depend on which conditions there are, and not on their order or on how often they stand
there (`RuleSet.wellFormed_congr`, `Predicate.accepts_eq_of_mem_iff`).  Which error is
reported does depend on the order.

Two lists of conditions, one behind the other, compile to the conditions of both
(`RuleSet.compile_append`), and are explained one behind the other
(`Predicate.outcomes_append`).
-/

namespace RecordFilter

variable {options : CompileOptions} {family : Family}

/-! ## Which conditions there are -/

/-- A condition compiles to one thing only. -/
theorem Condition.CompilesTo.unique {c : Condition} {compiled compiled' : CompiledCondition}
    (h : c.CompilesTo options family compiled) (h' : c.CompilesTo options family compiled') :
    compiled = compiled' := by
  have hcompile : compileCondition options family 0 c = .ok compiled :=
    compileCondition_eq_ok_iff.2 h
  rw [compileCondition_eq_ok_iff.2 h'] at hcompile
  exact (Except.ok.inj hcompile).symm

/-- The compiled conditions of a list are what the conditions in it compile to. -/
theorem mem_compiled_iff {cs : List Condition} {compiled : List CompiledCondition}
    (h : List.Forall₂ (Condition.CompilesTo options family) cs compiled) {k : CompiledCondition} :
    k ∈ compiled ↔ ∃ c ∈ cs, c.CompilesTo options family k := by
  induction h with
  | nil => simp
  | cons hc _ ih =>
    rw [List.mem_cons, ih, List.exists_mem_cons_iff]
    constructor
    · rintro (rfl | hrest)
      · exact .inl hc
      · exact .inr hrest
    · rintro (hk | hrest)
      · exact .inl (hk.unique hc)
      · exact .inr hrest

/-- Whether a rule set is well formed depends on which conditions it has. -/
theorem RuleSet.wellFormed_congr {connector : Option Connector} {as bs : List Condition}
    (h : ∀ c, c ∈ as ↔ c ∈ bs) :
    (⟨connector, as⟩ : RuleSet).WellFormed options family ↔
      (⟨connector, bs⟩ : RuleSet).WellFormed options family := by
  have hnil : as = [] ↔ bs = [] := by
    simp only [List.eq_nil_iff_forall_not_mem, h]
  constructor
  · rintro ⟨hconnector, hne, hwell⟩
    exact ⟨hconnector, fun hbs => hne (hnil.2 hbs), fun c hc => hwell c ((h c).2 hc)⟩
  · rintro ⟨hconnector, hne, hwell⟩
    exact ⟨hconnector, fun has => hne (hnil.1 has), fun c hc => hwell c ((h c).1 hc)⟩

/-- What a predicate accepts depends on which conditions it has. -/
theorem Predicate.accepts_eq_of_mem_iff {p q : Predicate} (hconnector : p.connector = q.connector)
    (h : ∀ k, k ∈ p.conditions ↔ k ∈ q.conditions) (record : Record) :
    p.accepts record = q.accepts record := by
  rw [Bool.eq_iff_iff, accepts, accepts, hconnector]
  cases q.connector with
  | and => simp only [List.all_eq_true, h]
  | or => simp only [List.any_eq_true, h]

/-- Rule sets with the same connector and the same conditions, up to order and repetition,
accept the same records. -/
theorem RuleSet.accepts_eq_of_mem_iff {connector : Option Connector} {as bs : List Condition}
    (h : ∀ c, c ∈ as ↔ c ∈ bs) {p q : Predicate}
    (hp : (⟨connector, as⟩ : RuleSet).compile options family = .ok p)
    (hq : (⟨connector, bs⟩ : RuleSet).compile options family = .ok q) (record : Record) :
    p.accepts record = q.accepts record := by
  obtain ⟨hpconnector, -, has⟩ := compile_eq_ok_iff.1 hp
  obtain ⟨hqconnector, -, hbs⟩ := compile_eq_ok_iff.1 hq
  have hconnector : p.connector = q.connector :=
    Option.some.inj (hpconnector.symm.trans hqconnector)
  refine Predicate.accepts_eq_of_mem_iff hconnector ?_ record
  intro k
  rw [mem_compiled_iff has, mem_compiled_iff hbs]
  simp only [h]

/-! ## Conditions behind conditions -/

/-- The outcome of a condition that stands behind some others. -/
def Outcome.behind (count : Nat) (outcome : Outcome) : Outcome :=
  { outcome with index := count + outcome.index }

namespace Predicate

theorem outcomes_add (record : Record) (count start : Nat) (cs : List CompiledCondition) :
    outcomes record (count + start) cs = (outcomes record start cs).map (Outcome.behind count) := by
  induction cs generalizing start with
  | nil => rfl
  | cons c cs ih =>
    rw [outcomes, outcomes, List.map_cons, Nat.add_assoc, ih]
    rfl

/-- Conditions behind others are numbered from where those end. -/
theorem outcomes_append (record : Record) (start : Nat) (as bs : List CompiledCondition) :
    outcomes record start (as ++ bs) =
      outcomes record start as ++ (outcomes record start bs).map (Outcome.behind as.length) := by
  rw [← outcomes_add]
  induction as generalizing start with
  | nil => rw [List.nil_append, List.length_nil, Nat.zero_add, outcomes, List.nil_append]
  | cons a as ih =>
    rw [List.cons_append, outcomes, outcomes, ih, List.cons_append, List.length_cons,
      Nat.add_right_comm as.length 1 start, Nat.add_assoc as.length start 1]

/-- All of the conditions of two lists hold when all of each hold. -/
theorem accepts_append_and (ps qs : List CompiledCondition) (record : Record) :
    (⟨.and, ps ++ qs⟩ : Predicate).accepts record =
      ((⟨.and, ps⟩ : Predicate).accepts record && (⟨.and, qs⟩ : Predicate).accepts record) :=
  List.all_append

/-- One of the conditions of two lists holds when one of either holds. -/
theorem accepts_append_or (ps qs : List CompiledCondition) (record : Record) :
    (⟨.or, ps ++ qs⟩ : Predicate).accepts record =
      ((⟨.or, ps⟩ : Predicate).accepts record || (⟨.or, qs⟩ : Predicate).accepts record) :=
  List.any_append

end Predicate

namespace RuleSet

/-- Two lists of conditions make a well-formed rule set when both of them do. -/
theorem wellFormed_append_iff {connector : Option Connector} {as bs : List Condition}
    (has : as ≠ []) (hbs : bs ≠ []) :
    (⟨connector, as ++ bs⟩ : RuleSet).WellFormed options family ↔
      (⟨connector, as⟩ : RuleSet).WellFormed options family ∧
        (⟨connector, bs⟩ : RuleSet).WellFormed options family := by
  constructor
  · rintro ⟨hconnector, -, hwell⟩
    obtain ⟨hwellAs, hwellBs⟩ := List.forall_mem_append.1 hwell
    exact ⟨⟨hconnector, has, hwellAs⟩, hconnector, hbs, hwellBs⟩
  · rintro ⟨⟨hconnector, -, hwellAs⟩, -, -, hwellBs⟩
    exact ⟨hconnector, List.append_ne_nil_of_left_ne_nil has bs,
      List.forall_mem_append.2 ⟨hwellAs, hwellBs⟩⟩

/-- The conditions of two lists compile to those of the first and then those of the second. -/
theorem compile_append {connector : Option Connector} {as bs : List Condition} {p q : Predicate}
    (hp : (⟨connector, as⟩ : RuleSet).compile options family = .ok p)
    (hq : (⟨connector, bs⟩ : RuleSet).compile options family = .ok q) :
    (⟨connector, as ++ bs⟩ : RuleSet).compile options family =
      .ok ⟨p.connector, p.conditions ++ q.conditions⟩ := by
  obtain ⟨hconnector, hne, has⟩ := compile_eq_ok_iff.1 hp
  obtain ⟨-, -, hbs⟩ := compile_eq_ok_iff.1 hq
  exact compile_eq_ok_iff.2
    ⟨hconnector, List.append_ne_nil_of_left_ne_nil hne bs, List.rel_append has hbs⟩

/-- Rule sets with the same conditions, up to order and repetition, both compile or both do
not, and accept the same records.  A rule set with the conditions of two others behind one
another compiles when both of these do; it accepts what both accept, or what one of them
accepts, as the connector says, and its outcomes are those of the first and then those of
the second, numbered on. -/
theorem compile_regrouped (options : CompileOptions) (family : Family)
    (connector : Option Connector) :
    (∀ as bs : List Condition, (∀ c, c ∈ as ↔ c ∈ bs) →
        ((∃ p, (⟨connector, as⟩ : RuleSet).compile options family = .ok p) ↔
          ∃ q, (⟨connector, bs⟩ : RuleSet).compile options family = .ok q) ∧
        ∀ p q, (⟨connector, as⟩ : RuleSet).compile options family = .ok p →
          (⟨connector, bs⟩ : RuleSet).compile options family = .ok q →
            ∀ record, p.accepts record = q.accepts record) ∧
      ∀ as bs : List Condition, as ≠ [] → bs ≠ [] →
        ((∃ r, (⟨connector, as ++ bs⟩ : RuleSet).compile options family = .ok r) ↔
          (∃ p, (⟨connector, as⟩ : RuleSet).compile options family = .ok p) ∧
            ∃ q, (⟨connector, bs⟩ : RuleSet).compile options family = .ok q) ∧
        ∀ p q r, (⟨connector, as⟩ : RuleSet).compile options family = .ok p →
          (⟨connector, bs⟩ : RuleSet).compile options family = .ok q →
          (⟨connector, as ++ bs⟩ : RuleSet).compile options family = .ok r →
            ∀ record,
              (connector = some .and → r.accepts record = (p.accepts record && q.accepts record)) ∧
              (connector = some .or → r.accepts record = (p.accepts record || q.accepts record)) ∧
              (r.explain record).outcomes = (p.explain record).outcomes ++
                (q.explain record).outcomes.map (Outcome.behind as.length) := by
  refine ⟨fun as bs h => ⟨?_, ?_⟩, fun as bs has hbs => ⟨?_, ?_⟩⟩
  · rw [exists_compile_eq_ok_iff, exists_compile_eq_ok_iff]
    exact wellFormed_congr h
  · intro p q hp hq record
    exact accepts_eq_of_mem_iff h hp hq record
  · rw [exists_compile_eq_ok_iff, exists_compile_eq_ok_iff, exists_compile_eq_ok_iff]
    exact wellFormed_append_iff has hbs
  · intro p q r hp hq hr record
    rw [compile_append hp hq] at hr
    obtain rfl := Except.ok.inj hr
    obtain ⟨hpconnector, -, hcompiled⟩ := compile_eq_ok_iff.1 hp
    obtain ⟨hqconnector, -, -⟩ := compile_eq_ok_iff.1 hq
    obtain ⟨pconnector, ps⟩ := p
    obtain ⟨qconnector, qs⟩ := q
    simp only at hpconnector hqconnector hcompiled
    refine ⟨?_, ?_, ?_⟩
    · rintro rfl
      cases hpconnector
      cases hqconnector
      exact Predicate.accepts_append_and ps qs record
    · rintro rfl
      cases hpconnector
      cases hqconnector
      exact Predicate.accepts_append_or ps qs record
    · rw [hcompiled.length_eq]
      exact Predicate.outcomes_append record 0 ps qs

/-- A condition on the label of a door. -/
def labelled : Condition := ⟨"Label", .contains, some (.int 7)⟩

/-- A condition on the width of the door behind it, if there is one. -/
def wideBehind : Condition := ⟨"Behind.Width", .notEqual, some (.int 3)⟩

/-- In any order and however often, one of the two conditions holds for `lastDoor`; behind
the other one, the second condition has number 1. -/
theorem compile_regrouped_doors :
    (∃ p, (⟨some .or, [labelled, wideBehind, labelled]⟩ : RuleSet).compile {} doors = .ok p ∧
        p.accepts lastDoor = true) ∧
      ∃ r, (⟨some .or, [labelled] ++ [wideBehind]⟩ : RuleSet).compile {} doors = .ok r ∧
        (r.explain lastDoor).outcomes =
          [⟨0, "Label", .contains, true⟩, ⟨1, "Behind.Width", .notEqual, false⟩] := by
  have hlabelled : (⟨some .or, [labelled]⟩ : RuleSet).compile {} doors =
      .ok ⟨.or, [⟨"Label", .contains, .string [1] .contains "7"⟩]⟩ := by decide +kernel
  have hbehind : (⟨some .or, [wideBehind]⟩ : RuleSet).compile {} doors =
      .ok ⟨.or, [⟨"Behind.Width", .notEqual, .int [2, 0] .notEqual 3⟩]⟩ := by decide +kernel
  have hswapped : (⟨some .or, [wideBehind, labelled]⟩ : RuleSet).compile {} doors =
      .ok ⟨.or, [⟨"Behind.Width", .notEqual, .int [2, 0] .notEqual 3⟩,
        ⟨"Label", .contains, .string [1] .contains "7"⟩]⟩ := by decide +kernel
  obtain ⟨hsame, hbehindOne⟩ := compile_regrouped {} doors (some .or)
  have hmem : ∀ c, c ∈ [labelled, wideBehind, labelled] ↔ c ∈ [wideBehind, labelled] := by
    intro c
    simp only [List.mem_cons, List.not_mem_nil, or_false]
    tauto
  constructor
  · obtain ⟨hcompiles, haccepts⟩ := hsame _ _ hmem
    obtain ⟨p, hp⟩ := hcompiles.2 ⟨_, hswapped⟩
    refine ⟨p, hp, ?_⟩
    rw [haccepts _ _ hp hswapped]
    decide +kernel
  · obtain ⟨hcompiles, hanswers⟩ :=
      hbehindOne [labelled] [wideBehind] (List.cons_ne_nil _ _) (List.cons_ne_nil _ _)
    obtain ⟨r, hr⟩ := hcompiles.2 ⟨⟨_, hlabelled⟩, ⟨_, hbehind⟩⟩
    refine ⟨r, hr, ?_⟩
    rw [(hanswers _ _ _ hlabelled hbehind hr lastDoor).2.2]
    decide +kernel

end RuleSet

end RecordFilter
