import Mathlib
import RecordFilter.Json.Encode
import RecordFilter.Proofs.Json.Value

/-!
# Conditions and rule sets that were written are read back

The text of a condition has fixed members, and its value is given as a text of its own
(`conditionText`); likewise a rule set is made of the texts of its conditions
(`ruleSetText`).  Reading either comes down to reading the values: `readCondition_returns`,
`readConditions_returns` and `readRuleSet_returns` say what is read in terms of the outcomes
for the values, so they apply to texts that are at fault too.  A rule set of one condition is
`ofBytes_oneCondition`.

An object is a fold of its members over those given so far; `memberItem` is one member in it.
-/

namespace RecordFilter.Json

open Number Reader Text

/-! ## Names -/

section Names

variable {α κ σ : Type}

theorem stringOr_returns (expected s : String) :
    Returns (stringOr expected) (bytesOf (StringToken.write s)) (.ok s) := by
  intro rest hrest
  rw [stringOr, bind_of_ok ((StringToken.quoted_write s).leads.lead_append rest)]
  exact StringToken.quotedText_returns_write s rest hrest

theorem readOperator_returns [Dialect] (depth : Nat) (op : Operator) :
    Returns (readOperator depth) (bytesOf op.json) (.ok op) := by
  intro rest hrest
  rw [Operator.json, readOperator, readNamed,
    bind_of_ok ((StringToken.quoted_write op.name).leads.lead_append rest)]
  show (quotedText >>= named Operator.ofName? (Operator.all.map Operator.name)) _ = _
  rw [bind_of_ok (StringToken.quotedText_returns_write op.name rest hrest), named,
    Operator.ofName?_name]
  rfl

theorem readConnectorOrNone_returns (connector : Connector) :
    Returns readConnectorOrNone (bytesOf connector.json) (.ok (some connector)) := by
  intro rest hrest
  have hname : connector.name ≠ "" := by cases connector <;> decide
  rw [Connector.json, readConnectorOrNone,
    bind_of_ok ((StringToken.quoted_write connector.name).leads.lead_append rest)]
  show (stringOr "a string" >>= fun name => _) _ = _
  rw [bind_of_ok (stringOr_returns "a string" connector.name rest hrest), if_neg hname, map_eq_bind,
    named, Connector.ofName?_name]
  rfl

/-- What becomes of a member that may be given once. -/
def once (name : String) (before : Option α) (outcome : Except Fault α) : Except Fault (Option α) :=
  match before with
  | some _ => .error (.mismatch (.duplicateField name))
  | none => outcome.map some

theorem readOnce_returns (name : String) (before : Option α) {value : Reader α} {text : List Char}
    {outcome : Except Fault α} (h : Returns value (bytesOf text) outcome) :
    Returns (readOnce name before value) (bytesOf (':' :: text)) (once name before outcome) := by
  intro rest hrest
  cases before with
  | some a => rfl
  | none =>
    show (colon >>= fun _ => some <$> value) (':'.toUInt8 :: (bytesOf text ++ rest)) = _
    rw [colon, bind_of_ok (symbol_cons (by decide))]
    exact h.map some rest hrest

theorem readMemberName_returns {spellings : List (String × κ)} {name : String} {member : κ}
    (h : spellings.lookup name = some member) :
    Returns (readMemberName spellings) (bytesOf (StringToken.write name)) (.ok member) := by
  intro rest hrest
  rw [readMemberName, bind_of_ok (StringToken.quotedText_returns_write name rest hrest), h]
  rfl

theorem quoted_writeMember (name : String) (text : List Char) :
    Quoted (bytesOf (writeMember name text)) := by
  obtain ⟨tail, hpiece⟩ := StringToken.quoted_write name
  rw [writeMember, bytesOf_append, hpiece]
  exact ⟨_, rfl⟩

/-- A member of an object: its text, and what becomes of the members so far when it is read,
given where its value is kept among them and what its value is read as. -/
def memberItem (name : String) (text : List Char) (get : σ → Option α)
    (set : σ → Option α → σ) (outcome : Except Fault α) :
    List UInt8 × (σ → Except Fault σ) :=
  (bytesOf (writeMember name text), fun before =>
    (once name (get before) outcome).map (set before))

/-- The name of a member tells the reader what to do; then come a colon and the value. -/
theorem memberItem_returns {spellings : List (String × κ)} {name : String} {member : κ}
    {f : σ → κ → Reader σ} {value : Reader α} {text : List Char} {get : σ → Option α}
    {set : σ → Option α → σ} {outcome : Except Fault α}
    (hname : spellings.lookup name = some member)
    (hf : ∀ before, f before member =
      readOnce name (get before) value >>= fun a => pure (set before a))
    (h : Returns value (bytesOf text) outcome) :
    Quoted (memberItem name text get set outcome).1 ∧
      ∀ before, Returns (readMemberName spellings >>= f before)
        (memberItem name text get set outcome).1
        ((memberItem name text get set outcome).2 before) := by
  refine ⟨quoted_writeMember name text, fun before => ?_⟩
  have hvalue := (readOnce_returns name (get before) h).map (set before)
  rw [map_eq_bind, ← hf before] at hvalue
  rw [memberItem, writeMember, bytesOf_append]
  refine (readMemberName_returns hname).bind (fun rest => ?_) hvalue
  exact delimited_cons (by decide)

end Names

/-! ## Brackets -/

theorem bytesOf_intercalate (parts : List (List Char)) :
    bytesOf ([','].intercalate parts) = [','.toUInt8].intercalate (parts.map bytesOf) := by
  cases parts with
  | nil => rfl
  | cons part parts =>
    rw [List.map_cons, intercalate_cons_eq_append_flatMap, intercalate_cons_eq_append_flatMap,
      bytesOf_append, List.flatMap_map]
    show bytesOf part ++ (parts.flatMap (',' :: ·)).flatMap String.utf8EncodeChar = _
    rw [List.flatMap_assoc]
    rfl

theorem bytesOf_writeParts {opening closing : Char}
    (hopening : String.utf8EncodeChar opening = [opening.toUInt8])
    (hclosing : String.utf8EncodeChar closing = [closing.toUInt8]) (parts : List (List Char))
    (rest : List UInt8) :
    bytesOf (writeParts opening closing parts) ++ rest =
      opening.toUInt8 ::
        ([','.toUInt8].intercalate (parts.map bytesOf) ++ closing.toUInt8 :: rest) := by
  rw [writeParts, ← bytesOf_intercalate, List.cons_append, bytesOf_cons, bytesOf_append,
    bytesOf_cons, bytesOf_nil, hopening, hclosing]
  simp only [List.append_assoc, List.cons_append, List.nil_append]

theorem leads_writeParts {opening closing : Char} {kind : Lead} (parts : List (List Char))
    (hopening : String.utf8EncodeChar opening = [opening.toUInt8])
    (hspace : isSpace opening.toUInt8 = false) (hkind : Lead.ofByte opening.toUInt8 = kind) :
    Leads kind (bytesOf (writeParts opening closing parts)) := by
  refine ⟨opening.toUInt8, bytesOf ([','].intercalate parts ++ [closing]), ?_, hspace, hkind⟩
  rw [writeParts, List.cons_append, bytesOf_cons, hopening]
  rfl

/-! ## Bytes that a condition takes -/

theorem takes_stringOr (expected : String) : Takes 0 (stringOr expected) := by
  refine takes_lead.bind_left fun kind => ?_
  split
  · exact takes_quotedText.mono (Nat.zero_le 1)
  · exact takes_unexpected 0 expected

theorem takes_named {α : Type} (ofName? : String → Option α) (names : List String) (name : String) :
    Takes 0 (named ofName? names name) := by
  unfold named
  split
  · exact takes_pure _
  · exact takes_throw 0 _

theorem takes_readUnit : Takes 0 readUnit := by
  refine takes_lead.bind_left fun kind => ?_
  split
  · exact takes_word _
  · exact takes_unexpected 0 _

theorem takes_readKey [Dialect] : Takes 0 readKey := by
  unfold readKey
  split
  · exact takes_quotedText.mono (Nat.zero_le 1)
  · exact takes_stringOr _

theorem takes_readOperator [Dialect] (depth : Nat) : Takes 0 (readOperator depth) := by
  refine takes_lead.bind_left fun kind => ?_
  split
  · exact (takes_quotedText.mono (Nat.zero_le 1)).bind_left fun name => takes_named _ _ name
  · refine Takes.mono (takes_enter (fun _ => ?_) depth) (Nat.zero_le 1)
    refine takes_readKey.bind_left fun name => (takes_named _ _ name).bind_left fun _ => ?_
    exact ((takes_symbol _).mono (Nat.zero_le 1)).bind_left fun _ =>
      takes_readUnit.bind_left fun _ =>
        ((takes_symbol _).mono (Nat.zero_le 1)).bind_left fun _ => takes_pure _
  · exact takes_throw 0 _

theorem takes_readOnce {α : Type} (name : String) (before : Option α) {value : Reader α}
    (h : Takes 0 value) : Takes 0 (readOnce name before value) := by
  unfold readOnce
  split
  · exact takes_throw 0 _
  · exact ((takes_symbol _).mono (Nat.zero_le 1)).bind_left fun _ => h.map some

theorem takes_readMemberName {κ : Type} (spellings : List (String × κ)) :
    Takes 1 (readMemberName spellings) := by
  refine takes_quotedText.bind_left fun name => ?_
  split
  · exact takes_pure _
  · exact takes_throw 0 _

theorem ConditionMembers.takes_read [Dialect] (depth : Nat) (before : ConditionMembers) :
    Takes 1 (ConditionMembers.read depth before) := by
  refine (takes_readMemberName _).bind_left fun member => ?_
  cases member with
  | field => exact (takes_readOnce _ _ (takes_stringOr _)).bind_left fun _ => takes_pure _
  | operator =>
    exact (takes_readOnce _ _ (takes_readOperator depth)).bind_left fun _ => takes_pure _
  | value => exact (takes_readOnce _ _ (takes_readValue depth)).bind_left fun _ => takes_pure _

theorem ConditionMembers.takes_condition (members : ConditionMembers) :
    Takes 0 members.condition := by
  unfold ConditionMembers.condition
  split
  · exact takes_pure _
  · exact takes_throw 0 _

theorem takes_readConditionElements [Dialect] (depth : Nat) :
    Takes 0 (readConditionElements depth) := by
  refine (takes_anotherElement true).bind_left fun another => ?_
  split
  · refine (takes_stringOr _).bind_left fun field =>
      (takes_anotherElement false).bind_left fun another => ?_
    split
    · refine (takes_readOperator depth).bind_left fun op =>
        (takes_anotherElement false).bind_left fun another => ?_
      have hclose : ∀ value,
          Takes 0 (closeArray >>= fun _ => pure (⟨field, op, value⟩ : Condition)) :=
        fun value => ((takes_symbol _).mono (Nat.zero_le 1)).bind_left fun _ => takes_pure _
      cases another with
      | true => exact (takes_readValue depth).bind_left hclose
      | false => exact (takes_pure none).bind_left hclose
    · exact takes_throw 0 _
  · exact takes_throw 0 _

theorem takes_readCondition [Dialect] (depth : Nat) : Takes 1 (readCondition depth) := by
  refine takes_lead.bind_right fun kind => ?_
  split
  · exact takes_enter takes_readConditionElements depth
  · refine takes_enter (fun depth => ?_) depth
    have hread : ∀ before, Takes 0 (ConditionMembers.read depth before) := fun before =>
      (ConditionMembers.takes_read depth before).mono (Nat.zero_le 1)
    exact (takes_members hread {}).bind_left fun members =>
      ConditionMembers.takes_condition members
  · exact takes_unexpected 1 _

/-! ## Conditions -/

/-- The text of a condition whose value is given as a text. -/
def conditionText (field : String) (op : Operator) (value : List Char) : List Char :=
  writeParts '\x7b' '\x7d'
    [writeMember "field" (StringToken.write field), writeMember "operator" op.json,
      writeMember "value" value]

theorem leads_conditionText (field : String) (op : Operator) (value : List Char) :
    Leads .object (bytesOf (conditionText field op value)) :=
  leads_writeParts _ (by decide) (by decide) (by decide)

/-- The members of a condition, one after the other: only the value can be at fault. -/
theorem members_read_returns [Dialect] (depth : Nat) (field : String) (op : Operator)
    {value : List Char}
    {outcome : Except Fault (Option Literal)}
    (h : Returns (readValue depth) (bytesOf value) outcome) (rest : List UInt8) :
    members (ConditionMembers.read depth) {} ([','.toUInt8].intercalate
        (([writeMember "field" (StringToken.write field), writeMember "operator" op.json,
          writeMember "value" value]).map bytesOf) ++ '\x7d'.toUInt8 :: rest) =
      outcome.map fun v => (⟨some field, some op, some v⟩, rest) := by
  have hitems : ∀ item ∈
      [memberItem "field" (StringToken.write field) ConditionMembers.field
          (fun before field => { before with field }) (.ok field),
        memberItem "operator" op.json ConditionMembers.operator
          (fun before operator => { before with operator }) (.ok op),
        memberItem "value" value ConditionMembers.value
          (fun before value => { before with value }) outcome],
      Quoted item.1 ∧
        ∀ before, Returns (ConditionMembers.read depth before) item.1 (item.2 before) := by
    simp only [List.forall_mem_cons, List.not_mem_nil, false_implies, implies_true, and_true]
    refine ⟨?_, ?_, ?_⟩
    · exact memberItem_returns rfl (fun _ => rfl) (stringOr_returns "a string" field)
    · exact memberItem_returns rfl (fun _ => rfl) (readOperator_returns depth op)
    · exact memberItem_returns rfl (fun _ => rfl) h
  refine (members_returns (ConditionMembers.takes_read depth) hitems {} rest).trans ?_
  cases outcome <;> rfl

/-- A condition is read as written, or its value is at fault. -/
theorem readCondition_returns [Dialect] (depth : Nat) (field : String) (op : Operator)
    {value : List Char}
    {outcome : Except Fault (Option Literal)}
    (h : Returns (readValue depth) (bytesOf value) outcome) :
    Returns (readCondition (depth + 1)) (bytesOf (conditionText field op value))
      (outcome.map fun v => ⟨field, op, v⟩) := by
  intro rest _
  have hlead := (leads_conditionText field op value).lead_append rest
  have hmembers := members_read_returns depth field op h rest
  rw [readCondition, bind_of_ok hlead]
  show (next >>= fun _ =>
    members (ConditionMembers.read depth) {} >>= ConditionMembers.condition) _ = _
  rw [conditionText, bytesOf_writeParts (by decide) (by decide), bind_of_ok (next_cons _ _)]
  cases outcome with
  | error fault => exact bind_of_error hmembers
  | ok v => exact bind_of_ok hmembers

/-- The conditions are read as written, or the first fault of a value is the outcome. -/
theorem readConditions_returns [Dialect] (depth : Nat) {α : Type} (field : α → String)
    (op : α → Operator)
    (value : α → List Char) (outcome : α → Except Fault (Option Literal)) (items : List α)
    (h : ∀ item ∈ items, Returns (readValue depth) (bytesOf (value item)) (outcome item)) :
    Returns (readConditions (depth + 2))
      (bytesOf (writeParts '[' ']'
        (items.map fun item => conditionText (field item) (op item) (value item))))
      (items.mapM fun item => (outcome item).map fun v => ⟨field item, op item, v⟩) := by
  intro rest _
  have hlead : Leads .array (bytesOf (writeParts '[' ']'
      (items.map fun item => conditionText (field item) (op item) (value item)))) :=
    leads_writeParts _ (by decide) (by decide) (by decide)
  have hitems : ∀ piece ∈ items.map fun item =>
      (bytesOf (conditionText (field item) (op item) (value item)),
        (outcome item).map fun v => (⟨field item, op item, v⟩ : Condition)),
      Starts piece.1 ∧ Returns (readCondition (depth + 1)) piece.1 piece.2 := by
    intro piece hpiece
    obtain ⟨item, hitem, rfl⟩ := List.mem_map.1 hpiece
    exact ⟨(leads_conditionText _ _ _).starts (by decide),
      readCondition_returns depth (field item) (op item) (h item hitem)⟩
  have helements := elements_returns (takes_readCondition (depth + 1)) hitems rest
  rw [List.map_map] at helements
  rw [readConditions, bind_of_ok (hlead.lead_append rest)]
  show (next >>= fun _ => elements (readCondition (depth + 1))) _ = _
  rw [bytesOf_writeParts (by decide) (by decide), bind_of_ok (next_cons _ _), List.map_map]
  refine helements.trans ?_
  rw [List.mapM_map]
  rfl

/-! ## Rule sets -/

theorem RuleSetMembers.takes_read [Dialect] (depth : Nat) (before : RuleSetMembers) :
    Takes 1 (RuleSetMembers.read depth before) := by
  refine (takes_readMemberName _).bind_left fun member => ?_
  cases member with
  | connector =>
    refine Takes.bind_left (takes_readOnce _ _ (takes_lead.bind_left fun kind => ?_)) fun _ =>
      takes_pure _
    split
    · exact (takes_word _).bind_left fun _ => takes_pure _
    · refine (takes_stringOr _).bind_left fun name => ?_
      split
      · exact takes_pure _
      · exact (takes_named _ _ name).map some
  | conditions =>
    refine Takes.bind_left (takes_readOnce _ _ (takes_lead.bind_left fun kind => ?_)) fun _ =>
      takes_pure _
    split
    · refine (takes_enter (fun depth => takes_elements ?_) depth).mono (Nat.zero_le 1)
      exact (takes_readCondition depth).mono (Nat.zero_le 1)
    · exact takes_unexpected 0 _

/-- The text of a rule set whose conditions are given as texts. -/
def ruleSetText (connector : Option Connector) (conditions : List (List Char)) : List Char :=
  writeParts '\x7b' '\x7d'
    ((match connector with
      | some connector => [writeMember "connector" connector.json]
      | none => []) ++
    [writeMember "conditions" (writeParts '[' ']' conditions)])

/-- A rule set is read as written, or its conditions are at fault. -/
theorem readRuleSet_returns [Dialect] (depth : Nat) (connector : Option Connector)
    {conditions : List (List Char)} {outcome : Except Fault (List Condition)}
    (h : Returns (readConditions depth) (bytesOf (writeParts '[' ']' conditions)) outcome) :
    Returns (readRuleSet (depth + 1)) (bytesOf (ruleSetText connector conditions))
      (outcome.map fun cs => ⟨connector, cs⟩) := by
  intro rest _
  have hlead : Leads .object (bytesOf (ruleSetText connector conditions)) :=
    leads_writeParts _ (by decide) (by decide) (by decide)
  rw [readRuleSet, bind_of_ok (hlead.lead_append rest)]
  show (next >>= fun _ => RuleSetMembers.ruleSet <$> members (RuleSetMembers.read depth) {}) _ = _
  have htext : bytesOf (ruleSetText connector conditions) ++ rest = _ :=
    bytesOf_writeParts (by decide) (by decide) _ rest
  rw [htext, bind_of_ok (next_cons _ _), map_eq_bind]
  have hitems : ∀ item ∈
      (connector.map fun connector => memberItem "connector" connector.json
          RuleSetMembers.connector (fun before connector => { before with connector })
          (.ok (some connector))).toList ++
        [memberItem "conditions" (writeParts '[' ']' conditions) RuleSetMembers.conditions
          (fun before conditions => { before with conditions }) outcome],
      Quoted item.1 ∧
        ∀ before, Returns (RuleSetMembers.read depth before) item.1 (item.2 before) := by
    rw [List.forall_mem_append, List.forall_mem_singleton]
    constructor
    · intro item hitem
      obtain ⟨connector, -, rfl⟩ := Option.map_eq_some_iff.1 (Option.mem_toList.1 hitem)
      exact memberItem_returns rfl (fun _ => rfl) (readConnectorOrNone_returns connector)
    · exact memberItem_returns rfl (fun _ => rfl) h
  have hmembers := members_returns (RuleSetMembers.takes_read depth) hitems {} rest
  cases connector <;> cases outcome
  · exact bind_of_error hmembers
  · exact bind_of_ok hmembers
  · exact bind_of_error hmembers
  · exact bind_of_ok hmembers

/-- A text of one condition comes down to the value in it. -/
theorem ofBytes_oneCondition [Dialect] (connector : Option Connector) (field : String) (op : Operator)
    {value : List Char} {outcome : Except Fault (Option Literal)}
    (h : Returns (readValue 124) (bytesOf value) outcome) :
    RuleSet.ofBytes (bytesOf (ruleSetText connector [conditionText field op value])) =
      outcome.map fun v => ⟨connector, [⟨field, op, v⟩]⟩ := by
  have hconditions := readConditions_returns 124 (fun _ : Unit => field) (fun _ => op)
    (fun _ => value) (fun _ => outcome) [()] (fun _ _ => h)
  refine ((readRuleSet_returns 126 connector hconditions).complete).trans ?_
  cases outcome <;> rfl

end RecordFilter.Json
