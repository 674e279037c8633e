import Mathlib
import RecordFilter.Proofs.Json.Decoding
import RecordFilter.Proofs.Json.Ensures
import RecordFilter.Proofs.Json.Magnitude

/-!
# Literals that were decoded are finite

JSON has no text for an infinity or for a value that is not a number, and a number that is
too large is an error.  So a literal that is a float is a finite one wherever it stands in a
text.  `ensures_readRuleSet` says so of rule sets; there is one statement for each reader
that has a literal in what it returns.
-/

namespace RecordFilter

open Json Reader

/-- A condition whose literal, if it has one, is finite. -/
def Condition.IsFinite (c : Condition) : Prop :=
  ∀ literal, c.value = some literal → literal.isFinite

namespace Json

/-- Members of a condition among which no literal is other than finite. -/
def ConditionMembers.IsFinite (members : ConditionMembers) : Prop :=
  ∀ literal, members.value = some (some literal) → literal.isFinite

/-- Members of a rule set among which no condition is other than finite. -/
def RuleSetMembers.IsFinite (members : RuleSetMembers) : Prop :=
  ∀ conditions, members.conditions = some conditions → ∀ c ∈ conditions, c.IsFinite

theorem ensures_readNumber : Ensures readNumber fun v => (Literal.ofNumber v).isFinite := by
  refine ensures_bind fun t => ?_
  cases hvalue : t.value? with
  | none => exact ensures_throw _
  | some v => exact ensures_pure (Numeral.isFinite_ofNumber_of_value? hvalue)

/-- A tree that is a literal is a finite one.  Only a value that was announced as a number is
read as one. -/
theorem ensures_tree (depth : Nat) :
    Ensures (Tree.read depth) fun tree =>
      ∀ literal, Literal.ofTree? tree = some literal → literal.isFinite := by
  intro input tree rest hok literal hliteral
  rw [Tree.read_eq_lead_bind] at hok
  obtain ⟨kind, middle, -, hread⟩ := bind_eq_ok_iff.1 hok
  have hkind := Tree.announcement_of_readAs hread
  cases tree with
  | bool b =>
    cases hliteral
    rfl
  | string s =>
    cases hliteral
    rfl
  | number v =>
    cases hliteral
    obtain rfl : Lead.number = kind := hkind
    rw [Tree.readAs, map_eq_bind] at hread
    obtain ⟨v', after, hnumber, hpure⟩ := bind_eq_ok_iff.1 hread
    cases hpure
    exact ensures_readNumber _ _ _ hnumber
  | null | array _ | object _ => cases hliteral

theorem ensures_readLiteral (depth : Nat) :
    Ensures (readLiteral depth) fun literal => literal.isFinite := by
  refine (ensures_tree depth).bind fun tree htree => ?_
  cases hliteral : Literal.ofTree? tree with
  | none => exact ensures_throw _
  | some literal => exact ensures_pure (htree literal hliteral)

theorem ensures_readValue (depth : Nat) :
    Ensures (readValue depth) fun value => ∀ literal, value = some literal → literal.isFinite := by
  refine ensures_bind fun kind => ?_
  split
  · exact ensures_bind fun _ => ensures_pure nofun
  · exact (ensures_readLiteral depth).map_some

/-- A member that is read once has what its value has. -/
theorem ensures_readOnce {α : Type} {value : Reader α} {P : α → Prop} (h : Ensures value P)
    (name : String) (before : Option α) :
    Ensures (readOnce name before value) fun read => ∀ a, read = some a → P a := by
  unfold readOnce
  split
  · exact ensures_throw _
  · exact ensures_bind fun _ => h.map_some

/-- Of the members of a condition, only the value has a literal. -/
theorem ConditionMembers.ensures_read [Dialect] (depth : Nat) {before : ConditionMembers}
    (hbefore : before.IsFinite) :
    Ensures (ConditionMembers.read depth before) ConditionMembers.IsFinite := by
  refine ensures_bind fun member => ?_
  cases member with
  | field => exact ensures_bind fun _ => ensures_pure hbefore
  | operator => exact ensures_bind fun _ => ensures_pure hbefore
  | value =>
    refine (ensures_readOnce (ensures_readValue depth) "value" before.value).bind ?_
    exact fun value hvalue => ensures_pure fun literal hsome => hvalue _ hsome literal rfl

theorem ConditionMembers.ensures_condition (members : ConditionMembers)
    (hmembers : members.IsFinite) : Ensures members.condition Condition.IsFinite := by
  unfold ConditionMembers.condition
  split
  · refine ensures_pure fun literal hvalue => hmembers literal ?_
    show members.value = some (some literal)
    cases hread : members.value with
    | none =>
      rw [hread] at hvalue
      cases hvalue
    | some value =>
      rw [hread] at hvalue
      exact congrArg some hvalue
  · exact ensures_throw _

theorem ensures_readCondition [Dialect] (depth : Nat) :
    Ensures (readCondition depth) Condition.IsFinite := by
  refine ensures_bind fun kind => ?_
  split
  · refine ensures_enter (fun depth => ?_) depth
    refine ensures_bind fun another => ?_
    split
    · refine ensures_bind fun field => ensures_bind fun another => ?_
      split
      · refine ensures_bind fun operator => ensures_bind fun another => ?_
        have hclose : ∀ value : Option Literal,
            (∀ literal, value = some literal → literal.isFinite) →
              Ensures (closeArray >>= fun _ => pure ⟨field, operator, value⟩)
                Condition.IsFinite := by
          intro value hvalue
          refine ensures_bind fun _ => ?_
          exact ensures_pure hvalue
        dsimp only
        split
        · exact (ensures_readValue depth).bind hclose
        · exact (ensures_pure nofun).bind hclose
      · exact ensures_throw _
    · exact ensures_throw _
  · refine ensures_enter (fun depth => ?_) depth
    have hnone : ({} : ConditionMembers).IsFinite := fun literal h => by cases h
    exact (ensures_members (fun _ => ConditionMembers.ensures_read depth) hnone).bind
      fun members hmembers => members.ensures_condition hmembers
  · exact ensures_unexpected _

theorem ensures_readConditions [Dialect] (depth : Nat) :
    Ensures (readConditions depth) fun conditions => ∀ c ∈ conditions, c.IsFinite := by
  refine ensures_bind fun kind => ?_
  split
  · exact ensures_enter (fun depth => (ensures_readCondition depth).elements) depth
  · exact ensures_unexpected _

/-- Of the members of a rule set, only the conditions have literals. -/
theorem RuleSetMembers.ensures_read [Dialect] (depth : Nat) {before : RuleSetMembers}
    (hbefore : before.IsFinite) :
    Ensures (RuleSetMembers.read depth before) RuleSetMembers.IsFinite := by
  refine ensures_bind fun member => ?_
  cases member with
  | connector => exact ensures_bind fun _ => ensures_pure hbefore
  | conditions =>
    refine (ensures_readOnce (ensures_readConditions depth) "conditions" before.conditions).bind ?_
    exact fun conditions hconditions => ensures_pure hconditions

theorem ensures_readRuleSet [Dialect] (depth : Nat) :
    Ensures (readRuleSet depth) fun rules => ∀ c ∈ rules.conditions, c.IsFinite := by
  refine ensures_bind fun kind => ?_
  split
  · refine ensures_enter (fun depth => ?_) depth
    refine ensures_bind fun another => ?_
    split
    · refine ensures_bind fun connector => ensures_bind fun another => ?_
      have hclose : ∀ conditions : List Condition, (∀ c ∈ conditions, c.IsFinite) →
          Ensures (closeArray >>= fun _ => pure ⟨connector, conditions⟩)
            fun rules : RuleSet => ∀ c ∈ rules.conditions, c.IsFinite := by
        intro conditions hconditions
        refine ensures_bind fun _ => ?_
        exact ensures_pure hconditions
      dsimp only
      split
      · exact (ensures_readConditions depth).bind hclose
      · exact (ensures_pure (List.forall_mem_nil _)).bind hclose
    · exact ensures_bind fun _ => ensures_pure (List.forall_mem_nil _)
  · refine ensures_enter (fun depth => Ensures.map ?_) depth
    intro input members rest hok c hc
    have hnone : ({} : RuleSetMembers).IsFinite := fun conditions h => by cases h
    have hmembers : members.IsFinite :=
      ensures_members (fun _ => RuleSetMembers.ensures_read depth) hnone input members rest hok
    cases hread : members.conditions with
    | none =>
      rw [RuleSetMembers.ruleSet, hread] at hc
      cases hc
    | some conditions =>
      rw [RuleSetMembers.ruleSet, hread] at hc
      exact hmembers conditions hread c hc
  · exact ensures_unexpected _

end Json

end RecordFilter
