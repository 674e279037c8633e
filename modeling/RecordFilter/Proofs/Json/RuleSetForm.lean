import Mathlib
import RecordFilter.Proofs.Json.Members

/-!
# Rule sets are decoded by their form

The readers of a rule set and of its parts decode by the form that the values must have.
The members of an object fill slots, one for each member that there is.  A slot may be
filled once, so when all members have been read it holds what `atMostOne?` says.
-/

namespace RecordFilter.Json

open Reader

variable {α β κ σ : Type} {depth : Nat}

/-! ## Strings, connectors and literals -/

theorem Tree.text?_eq_none {tree : Tree} (h : tree.announcement ≠ .string) : tree.text? = none := by
  cases tree with
  | string s => exact absurd rfl h
  | _ => rfl

theorem decodes_stringOr (expected : String) : Decodes depth (stringOr expected) Tree.text? := by
  refine decodes_of_lead fun kind => ?_
  cases kind with
  | string => exact decodesAs_quotedText
  | _ =>
    refine (fails_unexpected expected).decodesAs fun tree hkind => Tree.text?_eq_none ?_
    rw [hkind]
    decide

/-- The connector that a string names, where the empty string stands for none. -/
def connectorNamed? (name : String) : Option (Option Connector) :=
  if name = "" then some none else (Connector.ofName? name).map some

theorem yields_connectorNamed? (name : String) :
    Yields (if name = "" then pure none
      else some <$> named Connector.ofName? (Connector.all.map Connector.name) name)
      (connectorNamed? name) := by
  unfold connectorNamed?
  split
  · exact yields_pure none
  · exact (yields_named _ _ name).map some

theorem decodes_readConnectorOrNone : Decodes depth readConnectorOrNone Connector.orNone? := by
  refine decodes_of_lead fun kind => ?_
  cases kind with
  | null => exact decodesAs_null rfl
  | _ =>
    refine ((decodes_stringOr _).bind yields_connectorNamed?).decodesAs fun tree hkind => ?_
    cases tree with
    | null => cases hkind
    | _ => rfl

theorem yields_literal (tree : Tree) :
    Yields (match Literal.ofTree? tree with
      | some literal => pure literal
      | none => throw (.mismatch .notLiteral) : Reader Literal) (Literal.ofTree? tree) := by
  cases h : Literal.ofTree? tree with
  | none => exact fun input a rest => by simp
  | some literal => exact yields_pure literal

theorem decodes_readLiteral : Decodes depth (readLiteral depth) Literal.ofTree? :=
  (decodes_read depth).bind yields_literal

theorem decodes_readValue : Decodes depth (readValue depth) Literal.orNull? := by
  refine decodes_of_lead fun kind => ?_
  cases kind with
  | null => exact decodesAs_null rfl
  | _ =>
    refine (decodes_readLiteral.map some).decodesAs fun tree hkind => ?_
    cases tree with
    | null => cases hkind
    | _ => rfl

/-! ## Operators -/

/-- The `null` that the value of a named member must be. -/
def Tree.unit? : Tree → Option Unit
  | .null => some ()
  | .bool _ | .number _ | .string _ | .array _ | .object _ => none

theorem Tree.unit?_eq_some_iff {tree : Tree} : tree.unit? = some () ↔ tree = .null := by
  cases tree <;> simp [Tree.unit?]

theorem decodes_readUnit : Decodes depth readUnit Tree.unit? := by
  refine decodes_of_lead fun kind => ?_
  cases kind with
  | null =>
    have hnull : DecodesAs depth .null (nullWord >>= fun _ => pure ()) Tree.unit? :=
      decodesAs_null rfl
    rwa [bind_pure] at hnull
  | _ =>
    refine (fails_unexpected "unit").decodesAs fun tree hkind => ?_
    cases tree with
    | null => cases hkind
    | _ => rfl

/-- A string is read from the byte behind its opening quote. -/
theorem quotedText_eq_ok_iff_read {input rest : List UInt8} {s : String} :
    quotedText input = .ok (s, rest) ↔
      ∃ tail, input.dropWhile isSpace = '"'.toUInt8 :: tail ∧
        StringToken.read tail = .ok (s, rest) := by
  simp only [quotedText, unit_bind_eq_ok_iff, symbol_eq_ok_iff]

theorem dropWhile_isSpace_quote (tail : List UInt8) :
    ('"'.toUInt8 :: tail).dropWhile isSpace = '"'.toUInt8 :: tail :=
  List.dropWhile_cons_of_neg (by decide)

/-- A name may be read without asking whether there is another member. -/
theorem quotedText_eq_ok_iff {input rest : List UInt8} {s : String} :
    quotedText input = .ok (s, rest) ↔
      ∃ middle, anotherMember true input = .ok (true, middle) ∧ quotedText middle = .ok (s, rest) := by
  simp only [quotedText_eq_ok_iff_read, separates_anotherMember.first_iff]
  constructor
  · rintro ⟨tail, hdrop, hread⟩
    exact ⟨_, ⟨_, tail, hdrop, rfl, rfl⟩, tail, dropWhile_isSpace_quote tail, hread⟩
  · rintro ⟨_, ⟨_, tail, hdrop, rfl, rfl⟩, tail', htail, hread⟩
    rw [dropWhile_isSpace_quote, List.cons_inj_right] at htail
    exact ⟨tail, hdrop, htail ▸ hread⟩

/-- Where a string is expected, strings are read as they are elsewhere. -/
theorem stringOr_eq_ok_iff {expected : String} {input rest : List UInt8} {s : String} :
    stringOr expected input = .ok (s, rest) ↔ quotedText input = .ok (s, rest) := by
  rw [stringOr, bind_eq_ok_iff, quotedText_eq_ok_iff_read]
  constructor
  · rintro ⟨kind, _, hlead, hok⟩
    obtain ⟨b, tail, hdrop, hkind, rfl⟩ := lead_eq_ok_iff.1 hlead
    cases kind with
    | string =>
      obtain ⟨tail', htail, hread⟩ := quotedText_eq_ok_iff_read.1 hok
      rw [← hdrop, List.dropWhile_idempotent] at htail
      exact ⟨tail', htail, hread⟩
    | _ => exact absurd hok (fails_unexpected expected _ s rest)
  · rintro ⟨tail, hdrop, hread⟩
    refine ⟨.string, _, lead_eq_ok_iff.2 ⟨_, tail, hdrop, by decide, rfl⟩, ?_⟩
    exact quotedText_eq_ok_iff_read.2 ⟨tail, dropWhile_isSpace_quote tail, hread⟩

/-- Whatever a key that is no string is refused for, the keys that are taken are the strings. -/
theorem readKey_eq_ok_iff [Dialect] {input rest : List UInt8} {s : String} :
    readKey input = .ok (s, rest) ↔ quotedText input = .ok (s, rest) := by
  unfold readKey
  cases Dialect.keyFault with
  | malformed => exact Iff.rfl
  | mismatch => exact stringOr_eq_ok_iff

theorem closeObject_eq_ok_iff (first : Bool) {input rest : List UInt8} :
    closeObject input = .ok ((), rest) ↔
      ∃ middle, anotherMember first input = .ok (false, middle) ∧
        closeObject middle = .ok ((), rest) :=
  separates_anotherMember.symbol_eq_ok_iff (by decide) first

theorem decodesMembers_readOperator [Dialect] (names : List String) :
    DecodesMembers depth (do
        let op ← named Operator.ofName? names (← readKey)
        colon
        readUnit
        closeObject
        pure op)
      fun members => Operator.ofTree? (.object members) := by
  intro input op rest
  constructor
  · intro hok
    obtain ⟨name, _, hname, hnamed⟩ := bind_eq_ok_iff.1 hok
    obtain ⟨_, afterName, hyield, hmember⟩ := bind_eq_ok_iff.1 hnamed
    obtain ⟨hop, rfl⟩ := (yields_named _ _ _ _ _ _).1 hyield
    obtain ⟨afterColon, hcolon, hvalue⟩ := unit_bind_eq_ok_iff.1 hmember
    obtain ⟨afterValue, hunit, hend⟩ := unit_bind_eq_ok_iff.1 hvalue
    obtain ⟨_, hclose, hpure⟩ := unit_bind_eq_ok_iff.1 hend
    cases hpure
    obtain ⟨tree, htree, hnull⟩ := (decodes_readUnit _ _ _).1 hunit
    obtain ⟨start, hanother, hname⟩ := quotedText_eq_ok_iff.1 (readKey_eq_ok_iff.1 hname)
    obtain ⟨last, hnone, hclose⟩ := (closeObject_eq_ok_iff false).1 hclose
    obtain rfl : tree = .null := Tree.unit?_eq_some_iff.1 hnull
    have hmember : Tree.readNamed depth start = .ok ((name, .null), afterValue) := by
      rw [Tree.readNamed, bind_of_ok hname, bind_of_ok hcolon, bind_of_ok htree]
      rfl
    exact ⟨[(name, .null)], .item hanother hmember (.done hnone hclose), hop⟩
  · rintro ⟨members, hsequence, hop⟩
    obtain ⟨name, rfl, hop⟩ := Operator.ofTree?_object_eq_some_iff.1 hop
    obtain ⟨start, afterValue, hanother, hmember, hsequence⟩ := sequence_cons_iff.1 hsequence
    have hclose := (closeObject_eq_ok_iff false).2 (sequence_nil_iff.1 hsequence)
    obtain ⟨_, afterName, hname, hnamed⟩ := bind_eq_ok_iff.1 hmember
    obtain ⟨afterColon, hcolon, hvalue⟩ := unit_bind_eq_ok_iff.1 hnamed
    obtain ⟨_, _, htree, hpure⟩ := bind_eq_ok_iff.1 hvalue
    cases hpure
    have hunit := (decodes_readUnit _ _ _).2 ⟨.null, htree, rfl⟩
    have hname := readKey_eq_ok_iff.2 (quotedText_eq_ok_iff.2 ⟨start, hanother, hname⟩)
    rw [bind_of_ok hname, bind_of_ok ((yields_named _ _ _ _ _ _).2 ⟨hop, rfl⟩), bind_of_ok hcolon,
      bind_of_ok hunit, bind_of_ok hclose]
    rfl

theorem decodes_readOperator [Dialect] : Decodes depth (readOperator depth) Operator.ofTree? := by
  refine decodes_of_lead fun kind => ?_
  cases kind with
  | string =>
    refine (decodesAs_quotedText.bind fun name => yields_named _ _ name).congr fun tree hkind => ?_
    cases tree with
    | string name => rfl
    | bool b => cases b <;> cases hkind
    | _ => cases hkind
  | object => exact decodesAs_object fun depth => decodesMembers_readOperator _
  | _ =>
    refine (fails_throw _).decodesAs fun tree hkind => ?_
    cases tree with
    | string | object => cases hkind
    | _ => rfl

/-! ## Conditions -/

theorem ConditionMember.forall_iff {p : ConditionMember → Prop} :
    (∀ member, p member) ↔ p .field ∧ p .operator ∧ p .value :=
  ⟨fun h => ⟨h .field, h .operator, h .value⟩,
    fun ⟨hfield, hoperator, hvalue⟩ member => by cases member <;> assumption⟩

namespace ConditionMembers

/-- What the value of each member of a condition is decoded to. -/
abbrev Value : ConditionMember → Type
  | .field => String
  | .operator => Operator
  | .value => Option Literal

/-- How the value of each member of a condition is decoded. -/
def decode? : (member : ConditionMember) → Tree → Option (Value member)
  | .field => Tree.text?
  | .operator => Operator.ofTree?
  | .value => Literal.orNull?

/-- The slots of a condition. -/
def slots : Slots ConditionMember ConditionMembers where
  Value := Value
  get members
    | .field => members.field
    | .operator => members.operator
    | .value => members.value
  set members
    | .field, field => { members with field }
    | .operator, operator => { members with operator }
    | .value, value => { members with value }
  get_set_self members member value := by cases member <;> rfl
  get_set_other members member value other h := by
    cases member <;> cases other <;> first | rfl | exact absurd rfl h
  ext members members' h := by
    obtain ⟨field, operator, value⟩ := members
    obtain ⟨field', operator', value'⟩ := members'
    obtain ⟨rfl, rfl, rfl⟩ := ConditionMember.forall_iff.1 h
    rfl

/-- Takes the value of a member that goes by a known name. -/
def readValueOf [Dialect] (depth : Nat) (before : ConditionMembers) :
    ConditionMember → Reader ConditionMembers
  | .field => do
    let field ← readOnce "field" before.field (stringOr "a string")
    pure { before with field }
  | .operator => do
    let operator ← readOnce "operator" before.operator (readOperator depth)
    pure { before with operator }
  | .value => do
    let value ← readOnce "value" before.value (readValue depth)
    pure { before with value }

theorem read_eq [Dialect] (depth : Nat) : read depth = fun before =>
    readMemberName ConditionMember.spellings >>= readValueOf depth before := by
  funext before
  refine bind_congr fun member => ?_
  cases member <;> rfl

theorem fills [Dialect] (depth : Nat) : slots.Fills decode? depth (readValueOf depth) := by
  intro before member input after rest
  cases member with
  | field => exact readOnce_bind_eq_ok_iff (decodes_stringOr _) fun field => { before with field }
  | operator =>
    exact readOnce_bind_eq_ok_iff decodes_readOperator fun operator => { before with operator }
  | value => exact readOnce_bind_eq_ok_iff decodes_readValue fun value => { before with value }

theorem members_eq_ok_iff [Dialect] {after : ConditionMembers} {input rest : List UInt8} :
    members (read depth) {} input = .ok (after, rest) ↔
      ∃ members, Sequence anotherMember closeObject (Tree.readNamed depth) true input members rest ∧
        onlyNamed ["Field", "field", "Operator", "operator", "Value", "value"] members ∧
        atMostOne? ["Field", "field"] Tree.text? members = some after.field ∧
        atMostOne? ["Operator", "operator"] Operator.ofTree? members = some after.operator ∧
        atMostOne? ["Value", "value"] Literal.orNull? members = some after.value := by
  have htakes := takes_read depth
  rw [read_eq] at htakes ⊢
  rw [(fills depth).members htakes (by decide) (ConditionMember.forall_iff.2 ⟨rfl, rfl, rfl⟩)]
  simp only [ConditionMember.forall_iff]
  rfl

theorem decodesMembers_condition [Dialect] (depth : Nat) :
    DecodesMembers depth (members (ConditionMembers.read depth) {} >>= condition)
      Condition.ofMembers? := by
  intro input c rest
  simp only [bind_eq_ok_iff, members_eq_ok_iff]
  constructor
  · rintro ⟨⟨field, operator, value⟩, _, ⟨members, hsequence, honly, hfield, hoperator, hvalue⟩, h⟩
    cases operator with
    | none => cases h
    | some operator =>
      cases h
      refine ⟨members, hsequence, ?_⟩
      rw [Condition.ofMembers?, if_pos honly, hfield, hoperator, hvalue]
      rfl
  · rintro ⟨members, hsequence, hform⟩
    rw [Condition.ofMembers?] at hform
    split at hform
    · next honly =>
      simp only [Option.bind_eq_bind, Option.bind_eq_some_iff, Option.map_eq_some_iff] at hform
      obtain ⟨field, hfield, operator, hoperator, value, hvalue, operator, rfl, rfl⟩ := hform
      exact ⟨⟨field, some operator, value⟩, rest,
        ⟨members, hsequence, honly, hfield, hoperator, hvalue⟩, rfl⟩
    · cases hform

end ConditionMembers

/-- What becomes of an element that may be left out, with nothing behind it. -/
def lastOr (decode? : Tree → Option α) (default : α) (make : α → β) : List Tree → Option β
  | [] => some (make default)
  | [tree] => (decode? tree).map make
  | _ :: _ :: _ => none

theorem decodesElements_last {r : Reader α} {decode? : Tree → Option α}
    (h : Decodes depth r decode?) (default : α) (make : α → β) :
    DecodesElements depth false (do
        let a ← if ← anotherElement false then r else pure default
        closeArray
        pure (make a))
      (lastOr decode? default make) := by
  have hclose : ∀ a, DecodesElements depth false (closeArray >>= fun _ => pure (make a))
      fun trees => if trees = [] then some (make a) else none := fun a =>
    decodesElements_close (make a) rfl fun _ _ => rfl
  refine decodesElements_of_another (h.more hclose fun tree trees => ?_) fun input b rest => ?_
  · cases trees with
    | nil => cases h : decode? tree <;> simp [lastOr, h]
    | cons second trees => simp [lastOr]
  · simp only [pure_bind, unit_bind_eq_ok_iff, pure_apply, lastOr, Except.ok.injEq, Prod.mk.injEq,
      Option.some.injEq]
    grind

/-- The elements of a condition that come after the first. -/
def ofOperatorAnd? (field : String) : List Tree → Option Condition
  | [] => none
  | operator :: trees => (Operator.ofTree? operator).bind fun operator =>
    lastOr Literal.orNull? none (fun value => ⟨field, operator, value⟩) trees

theorem conditionOfElements?_cons (tree : Tree) (trees : List Tree) :
    Condition.ofElements? (tree :: trees) = tree.text?.bind fun field => ofOperatorAnd? field trees := by
  rcases trees with _ | ⟨operator, _ | ⟨value, _ | ⟨tree', trees⟩⟩⟩
  · cases h : tree.text? <;> rfl
  · rfl
  · simp only [Condition.ofElements?, ofOperatorAnd?, lastOr, Option.map_eq_bind]
    rfl
  · cases h : tree.text? <;> simp [Condition.ofElements?, ofOperatorAnd?, lastOr]

theorem decodesElements_condition [Dialect] (depth : Nat) :
    DecodesElements depth true (readConditionElements depth) Condition.ofElements? := by
  have hshort : ∀ input c rest, (tooShort : Reader Condition) input = .ok (c, rest) ↔
      closeArray input = .ok ((), rest) ∧ (none : Option Condition) = some c := by
    intro input c rest
    simp [tooShort]
  have hoperator : ∀ field, DecodesElements depth false _ (ofOperatorAnd? field) := fun field =>
    decodesElements_of_another (decodes_readOperator.more
      (fun op => decodesElements_last decodes_readValue none fun value => ⟨field, op, value⟩)
      fun tree trees => rfl) hshort
  exact decodesElements_of_another ((decodes_stringOr _).more hoperator conditionOfElements?_cons) hshort

theorem decodes_readCondition [Dialect] : Decodes depth (readCondition depth) Condition.ofTree? := by
  refine decodes_of_lead fun kind => ?_
  cases kind with
  | array => exact decodesAs_array decodesElements_condition
  | object => exact decodesAs_object ConditionMembers.decodesMembers_condition
  | _ =>
    refine (fails_unexpected conditionForm).decodesAs fun tree hkind => ?_
    cases tree with
    | array | object => cases hkind
    | _ => rfl

theorem decodes_readConditions [Dialect] :
    Decodes depth (readConditions depth) Condition.listOfTree? := by
  refine decodes_of_lead fun kind => ?_
  cases kind with
  | array =>
    exact decodesAs_array fun depth => decodes_readCondition.elements (takes_readCondition depth)
  | _ =>
    refine (fails_unexpected "a sequence").decodesAs fun tree hkind => ?_
    cases tree with
    | array => cases hkind
    | _ => rfl

/-! ## Rule sets -/

theorem RuleSetMember.forall_iff {p : RuleSetMember → Prop} :
    (∀ member, p member) ↔ p .connector ∧ p .conditions :=
  ⟨fun h => ⟨h .connector, h .conditions⟩,
    fun ⟨hconnector, hconditions⟩ member => by cases member <;> assumption⟩

namespace RuleSetMembers

/-- What the value of each member of a rule set is decoded to. -/
abbrev Value : RuleSetMember → Type
  | .connector => Option Connector
  | .conditions => List Condition

/-- How the value of each member of a rule set is decoded. -/
def decode? : (member : RuleSetMember) → Tree → Option (Value member)
  | .connector => Connector.orNone?
  | .conditions => Condition.listOfTree?

/-- The slots of a rule set. -/
def slots : Slots RuleSetMember RuleSetMembers where
  Value := Value
  get members
    | .connector => members.connector
    | .conditions => members.conditions
  set members
    | .connector, connector => { members with connector }
    | .conditions, conditions => { members with conditions }
  get_set_self members member value := by cases member <;> rfl
  get_set_other members member value other h := by
    cases member <;> cases other <;> first | rfl | exact absurd rfl h
  ext members members' h := by
    obtain ⟨connector, conditions⟩ := members
    obtain ⟨connector', conditions'⟩ := members'
    obtain ⟨rfl, rfl⟩ := RuleSetMember.forall_iff.1 h
    rfl

/-- Takes the value of a member that goes by a known name. -/
def readValueOf [Dialect] (depth : Nat) (before : RuleSetMembers) :
    RuleSetMember → Reader RuleSetMembers
  | .connector => do
    let connector ← readOnce "connector" before.connector readConnectorOrNone
    pure { before with connector }
  | .conditions => do
    let conditions ← readOnce "conditions" before.conditions (readConditions depth)
    pure { before with conditions }

theorem read_eq [Dialect] (depth : Nat) : read depth = fun before =>
    readMemberName RuleSetMember.spellings >>= readValueOf depth before := by
  funext before
  refine bind_congr fun member => ?_
  cases member <;> rfl

theorem fills [Dialect] (depth : Nat) : slots.Fills decode? depth (readValueOf depth) := by
  intro before member input after rest
  cases member with
  | connector =>
    exact readOnce_bind_eq_ok_iff decodes_readConnectorOrNone fun connector =>
      { before with connector }
  | conditions =>
    exact readOnce_bind_eq_ok_iff decodes_readConditions fun conditions =>
      { before with conditions }

theorem members_eq_ok_iff [Dialect] {after : RuleSetMembers} {input rest : List UInt8} :
    members (read depth) {} input = .ok (after, rest) ↔
      ∃ members, Sequence anotherMember closeObject (Tree.readNamed depth) true input members rest ∧
        onlyNamed ["Connector", "connector", "Conditions", "conditions"] members ∧
        atMostOne? ["Connector", "connector"] Connector.orNone? members = some after.connector ∧
        atMostOne? ["Conditions", "conditions"] Condition.listOfTree? members =
          some after.conditions := by
  have htakes := takes_read depth
  rw [read_eq] at htakes ⊢
  rw [(fills depth).members htakes (by decide) (RuleSetMember.forall_iff.2 ⟨rfl, rfl⟩)]
  simp only [RuleSetMember.forall_iff]
  rfl

theorem decodesMembers_ruleSet [Dialect] (depth : Nat) :
    DecodesMembers depth (ruleSet <$> members (RuleSetMembers.read depth) {})
      RuleSet.ofMembers? := by
  intro input rules rest
  simp only [map_eq_bind, bind_eq_ok_iff, members_eq_ok_iff]
  constructor
  · rintro ⟨⟨connector, conditions⟩, _, ⟨members, hsequence, honly, hconnector, hconditions⟩, ⟨⟩⟩
    refine ⟨members, hsequence, ?_⟩
    rw [RuleSet.ofMembers?, if_pos honly, hconnector, hconditions]
    rfl
  · rintro ⟨members, hsequence, hform⟩
    rw [RuleSet.ofMembers?] at hform
    split at hform
    · next honly =>
      simp only [Option.bind_eq_bind, Option.bind_eq_some_iff] at hform
      obtain ⟨connector, hconnector, conditions, hconditions, ⟨⟩⟩ := hform
      exact ⟨⟨connector, conditions⟩, rest,
        ⟨members, hsequence, honly, hconnector, hconditions⟩, rfl⟩
    · cases hform

end RuleSetMembers

theorem ruleSetOfElements?_cons (tree : Tree) (trees : List Tree) :
    RuleSet.ofElements? (tree :: trees) = (Connector.orNone? tree).bind fun connector =>
      lastOr Condition.listOfTree? [] (fun conditions => ⟨connector, conditions⟩) trees := by
  rcases trees with _ | ⟨conditions, _ | ⟨tree', trees⟩⟩
  · rfl
  · simp only [RuleSet.ofElements?, lastOr, Option.map_eq_bind]
    rfl
  · cases h : Connector.orNone? tree <;> simp [RuleSet.ofElements?, lastOr]

theorem decodesElements_ruleSet [Dialect] (depth : Nat) :
    DecodesElements depth true (readRuleSetElements depth) RuleSet.ofElements? := by
  have hempty : ∀ input rules rest,
      (closeArray >>= fun _ => pure ⟨none, []⟩ : Reader RuleSet) input = .ok (rules, rest) ↔
        closeArray input = .ok ((), rest) ∧ some ⟨none, []⟩ = some rules := by
    intro input rules rest
    simp only [unit_bind_eq_ok_iff, pure_apply, Except.ok.injEq, Prod.mk.injEq, Option.some.injEq]
    grind
  exact decodesElements_of_another (decodes_readConnectorOrNone.more
    (fun connector => decodesElements_last decodes_readConditions [] fun conditions =>
      (⟨connector, conditions⟩ : RuleSet)) ruleSetOfElements?_cons) hempty

theorem decodes_readRuleSet [Dialect] : Decodes depth (readRuleSet depth) RuleSet.ofTree? := by
  refine decodes_of_lead fun kind => ?_
  cases kind with
  | array => exact decodesAs_array decodesElements_ruleSet
  | object => exact decodesAs_object RuleSetMembers.decodesMembers_ruleSet
  | _ =>
    refine (fails_unexpected "struct RuleSet").decodesAs fun tree hkind => ?_
    cases tree with
    | array | object => cases hkind
    | _ => rfl

end RecordFilter.Json

namespace RecordFilter

open Json

/-- A text is read as a rule set exactly when it is read as a tree that has the form of one. -/
theorem RuleSet.ofBytes_eq_ok_iff [Dialect] {input : List UInt8} {rules : RuleSet} :
    ofBytes input = .ok rules ↔ ∃ tree, Tree.parse input = .ok tree ∧ ofTree? tree = some rules :=
  decodes_readRuleSet.complete_eq_ok_iff

end RecordFilter
