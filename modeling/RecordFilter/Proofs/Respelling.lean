import Mathlib
import RecordFilter.Proofs.Json.Nesting
import RecordFilter.Proofs.Json.Parts
import RecordFilter.Proofs.Json.RuleSetLanguage

/-!
# Rule sets spelled in another way

Conditions and rule sets are records of parts.  Their values have few spellings of their own: an
operator may be an object, no connector may be `null` or the empty string, and conditions may be
respelled within a list.  `RuleSet.ofTree?_of_respelled` says that none of this changes the rule
set.

Texts are respelled where their trees are.  White space, and how the characters of strings are
written, do not show in a tree.  Nor can a respelling nest too deep: the tree of a rule set nests in
at most four containers (`RuleSet.within_of_ofTree?`).
-/

namespace RecordFilter

open Json

/-! ## The parts of conditions and rule sets -/

/-- An operator as an object with its name. -/
inductive Operator.Respells : Tree → Tree → Prop
  | object (name : String) : Respells (.string name) (.object [(name, .null)])

/-- No connector as the empty string. -/
inductive Connector.Respells : Tree → Tree → Prop
  | empty : Respells .null (.string "")

namespace Condition

def fieldPart : Part := ⟨["Field", "field"], some (.string ""), fun _ _ => False⟩

def operatorPart : Part := ⟨["Operator", "operator"], none, Operator.Respells⟩

def valuePart : Part := ⟨["Value", "value"], some .null, fun _ _ => False⟩

/-- The parts of a condition. -/
def parts : List Part :=
  [fieldPart, operatorPart, valuePart]

/-- A list of conditions with one of them respelled. -/
inductive ListRespells : Tree → Tree → Prop
  | one {before after c c'} (h : Respelled parts c c') :
      ListRespells (.array (before ++ c :: after)) (.array (before ++ c' :: after))

end Condition

namespace RuleSet

def connectorPart : Part := ⟨["Connector", "connector"], some .null, Connector.Respells⟩

def conditionsPart : Part :=
  ⟨["Conditions", "conditions"], some (.array []), Condition.ListRespells⟩

/-- The parts of a rule set. -/
def parts : List Part :=
  [connectorPart, conditionsPart]

end RuleSet

/-! ## Decoding by parts -/

/-- A condition is decoded from the values of its parts. -/
theorem Condition.ofTree?_eq (tree : Tree) :
    ofTree? tree = (values? parts tree).bind ofElements? := by
  cases tree with
  | object members =>
    have hfield : (fieldPart.inMembers? members).bind Tree.text? =
        (atMostOne? ["Field", "field"] Tree.text? members).map (Option.getD · "") :=
      fieldPart.inMembers?_bind rfl rfl
    have hoperator : (operatorPart.inMembers? members).bind Operator.ofTree? =
        (atMostOne? ["Operator", "operator"] Operator.ofTree? members).join :=
      operatorPart.inMembers?_bind_of_blank_eq_none rfl
    have hvalue : (valuePart.inMembers? members).bind Literal.orNull? =
        (atMostOne? ["Value", "value"] Literal.orNull? members).map (Option.getD · none) :=
      valuePart.inMembers?_bind rfl rfl
    have hparts : (arrange? members parts).bind ofElements? =
        ((fieldPart.inMembers? members).bind Tree.text?).bind fun field =>
          ((operatorPart.inMembers? members).bind Operator.ofTree?).bind fun operator =>
            ((valuePart.inMembers? members).bind Literal.orNull?).bind fun value =>
              some ⟨field, operator, value⟩ := by
      simp only [parts, arrange?]
      cases fieldPart.inMembers? members with
      | none => rfl
      | some field =>
        cases operatorPart.inMembers? members with
        | none => simp
        | some operator => cases valuePart.inMembers? members <;> simp [ofElements?]
    rw [ofTree?, ofMembers?, values?, apply_ite (Option.bind · ofElements?), hparts, hfield,
      hoperator, hvalue]
    refine if_congr Iff.rfl ?_ rfl
    cases atMostOne? ["Field", "field"] Tree.text? members with
    | none => rfl
    | some field =>
      rcases atMostOne? ["Operator", "operator"] Operator.ofTree? members with _ | _ | operator
      · rfl
      · simp
      · cases atMostOne? ["Value", "value"] Literal.orNull? members <;> rfl
  | array elements =>
    rcases elements with _ | ⟨field, _ | ⟨operator, _ | ⟨value, _ | ⟨another, rest⟩⟩⟩⟩ <;> rfl
  | _ => rfl

/-- A rule set is decoded from the values of its parts. -/
theorem RuleSet.ofTree?_eq (tree : Tree) :
    ofTree? tree = (values? parts tree).bind ofElements? := by
  cases tree with
  | object members =>
    have hconnector : (connectorPart.inMembers? members).bind Connector.orNone? =
        (atMostOne? ["Connector", "connector"] Connector.orNone? members).map
          (Option.getD · none) :=
      connectorPart.inMembers?_bind rfl rfl
    have hconditions : (conditionsPart.inMembers? members).bind Condition.listOfTree? =
        (atMostOne? ["Conditions", "conditions"] Condition.listOfTree? members).map
          (Option.getD · []) :=
      conditionsPart.inMembers?_bind rfl (by simp [Condition.listOfTree?])
    have hparts : (arrange? members parts).bind ofElements? =
        ((connectorPart.inMembers? members).bind Connector.orNone?).bind fun connector =>
          ((conditionsPart.inMembers? members).bind Condition.listOfTree?).bind fun conditions =>
            some ⟨connector, conditions⟩ := by
      simp only [parts, arrange?]
      cases connectorPart.inMembers? members with
      | none => rfl
      | some connector => cases conditionsPart.inMembers? members <;> simp [ofElements?]
    rw [ofTree?, ofMembers?, values?, apply_ite (Option.bind · ofElements?), hparts, hconnector,
      hconditions]
    refine if_congr Iff.rfl ?_ rfl
    cases atMostOne? ["Connector", "connector"] Connector.orNone? members with
    | none => rfl
    | some connector =>
      cases atMostOne? ["Conditions", "conditions"] Condition.listOfTree? members <;> rfl
  | array elements =>
    rcases elements with _ | ⟨connector, _ | ⟨conditions, _ | ⟨another, rest⟩⟩⟩
    · rfl
    · show ofElements? [connector] = ofElements? [connector, .array []]
      simp [ofElements?, Condition.listOfTree?]
    · rfl
    · rfl
  | _ => rfl

/-! ## Respelled trees -/

theorem Condition.namedApart_parts : NamedApart parts := by
  simp [NamedApart, parts, fieldPart, operatorPart, valuePart]

theorem Condition.respects_parts : Respects parts ofElements? := by
  refine ⟨fun _ _ _ h => h.elim, fun field => ⟨fun operator operator' values h => ?_,
    fun operator => ⟨fun _ _ _ h => h.elim, fun _ => trivial⟩⟩⟩
  cases h with
  | object name =>
    match values with
    | [] | [_] | _ :: _ :: _ => rfl

/-- A respelled condition is decoded to the same condition. -/
theorem Condition.ofTree?_of_respelled {tree tree' : Tree} (h : Respelled parts tree tree') :
    ofTree? tree = ofTree? tree' := by
  rw [ofTree?_eq, ofTree?_eq]
  exact h.decode_values?_eq namedApart_parts respects_parts

theorem Condition.listOfTree?_of_listRespells {tree tree' : Tree} (h : ListRespells tree tree') :
    listOfTree? tree = listOfTree? tree' := by
  cases h with
  | one h => simp only [listOfTree?, List.mapM_append, List.mapM_cons, ofTree?_of_respelled h]

theorem RuleSet.namedApart_parts : NamedApart parts := by
  simp [NamedApart, parts, connectorPart, conditionsPart]

theorem RuleSet.respects_parts : Respects parts ofElements? := by
  constructor
  · intro connector connector' values h
    cases h with
    | empty =>
      match values with
      | [] | [_] | _ :: _ :: _ => rfl
  · refine fun connector => ⟨fun conditions conditions' values h => ?_, fun _ => trivial⟩
    match values with
    | [] =>
      simp only [ofElements?, Condition.listOfTree?_of_listRespells h]
    | _ :: _ => rfl

/-- A respelled rule set is decoded to the same rule set. -/
theorem RuleSet.ofTree?_of_respelled {tree tree' : Tree} (h : Respelled parts tree tree') :
    ofTree? tree = ofTree? tree' := by
  rw [ofTree?_eq, ofTree?_eq]
  exact h.decode_values?_eq namedApart_parts respects_parts

/-! ## From objects to arrays -/

/-- A condition without a value, from an object to an array.  The value is given on the way, since
an object becomes an array of all parts. -/
theorem Condition.respelled_array (field : Tree) (name : String) :
    Respelled parts (.object [("Operator", .string name), ("field", field)])
      (.array [field, .object [(name, .null)]]) := by
  let operator : Tree := .object [(name, .null)]
  have hparts : operatorPart ∈ parts ∧ valuePart ∈ parts := by simp [parts]
  have hnames : List.Forall₂ (fun part name => name ∈ Part.names part) parts
      ["field", "Operator", "value"] :=
    .cons (by decide) (.cons (by decide) (.cons (by decide) .nil))
  have hoperator : Respelling parts (.object [("Operator", .string name), ("field", field)])
      (.object [("Operator", operator), ("field", field)]) :=
    .rewrite hparts.1 (by decide) (.object name)
  have hvalue : Respelling parts
      (.object [("value", .null), ("Operator", operator), ("field", field)])
      (.object [("Operator", operator), ("field", field)]) :=
    .leaveOut hparts.2 (by decide) rfl (by simp [valuePart])
  have horder : Respelling parts
      (.object [("value", .null), ("Operator", operator), ("field", field)])
      (.object [("field", field), ("Operator", operator), ("value", .null)]) :=
    .reorder (List.reverse_perm _).symm
  have harray : Respelling parts
      (.object [("field", field), ("Operator", operator), ("value", .null)])
      (.array [field, operator, .null]) :=
    @Respelling.toArray _ _ [field, operator, .null] hnames rfl
  have hlast : Respelling parts (.array ([field, operator] ++ [.null]))
      (.array [field, operator]) :=
    .leaveOutLast rfl rfl
  exact .trans _ _ _ (.rel _ _ hoperator) (.trans _ _ _ (.symm _ _ (.rel _ _ hvalue))
    (.trans _ _ _ (.rel _ _ horder) (.trans _ _ _ (.rel _ _ harray) (.rel _ _ hlast))))

/-- A rule set without a connector, from an object to an array. -/
theorem RuleSet.respelled_array {conditions conditions' : Tree}
    (h : Condition.ListRespells conditions conditions') :
    Respelled parts (.object [("conditions", conditions), ("connector", .string "")])
      (.array [.null, conditions']) := by
  have hparts : connectorPart ∈ parts ∧ conditionsPart ∈ parts := by simp [parts]
  have hnames : List.Forall₂ (fun part name => name ∈ Part.names part) parts
      ["connector", "conditions"] :=
    .cons (by decide) (.cons (by decide) .nil)
  have hconditions : Respelling parts
      (.object [("conditions", conditions), ("connector", .string "")])
      (.object [("conditions", conditions'), ("connector", .string "")]) :=
    .rewrite hparts.2 (by decide) h
  have horder : Respelling parts
      (.object [("conditions", conditions'), ("connector", .string "")])
      (.object [("connector", .string ""), ("conditions", conditions')]) :=
    .reorder (.swap _ _ _)
  have hconnector : Respelling parts
      (.object [("connector", .null), ("conditions", conditions')])
      (.object [("connector", .string ""), ("conditions", conditions')]) :=
    .rewrite hparts.1 (by decide) .empty
  have harray : Respelling parts (.object [("connector", .null), ("conditions", conditions')])
      (.array [.null, conditions']) :=
    @Respelling.toArray _ _ [.null, conditions'] hnames rfl
  exact .trans _ _ _ (.rel _ _ hconditions) (.trans _ _ _ (.rel _ _ horder)
    (.trans _ _ _ (.symm _ _ (.rel _ _ hconnector)) (.rel _ _ harray)))

/-! ## Nesting of rule sets -/

theorem Json.Tree.within_of_values? {parts : List Part} {tree : Tree} {values : List Tree}
    {depth : Nat} (h : values? parts tree = some values)
    (hvalues : ∀ value ∈ values, value.Within depth) : tree.Within (depth + 1) := by
  cases tree with
  | object members =>
    rw [values?] at h
    split at h
    · next honly => exact fun member hmember => hvalues _ (mem_of_arrange? honly h member hmember)
    · cases h
  | array elements => exact fun element helement => hvalues _ (mem_of_complete? h element helement)
  | _ => trivial

theorem Operator.within_of_ofTree? {tree : Tree} {op : Operator} (h : ofTree? tree = some op) :
    tree.Within 1 := by
  cases tree with
  | array => cases h
  | object =>
    obtain ⟨name, rfl, -⟩ := ofTree?_object_eq_some_iff.1 h
    exact List.forall_mem_singleton.2 trivial
  | _ => trivial

theorem Condition.within_of_ofTree? {tree : Tree} {c : Condition} (h : ofTree? tree = some c) :
    tree.Within 2 := by
  rw [ofTree?_eq] at h
  obtain ⟨values, hvalues, helements⟩ := Option.bind_eq_some_iff.1 h
  refine Tree.within_of_values? hvalues ?_
  have hfield : ∀ {field name}, Tree.text? field = some name → field.Within 1 :=
    Tree.within_of_decode? (fun _ => rfl) fun _ => rfl
  have hvalue : ∀ {value literal}, Literal.orNull? value = some literal → value.Within 1 :=
    Tree.within_of_decode? (fun _ => rfl) fun _ => rfl
  unfold ofElements? at helements
  split at helements
  · simp only [Option.bind_eq_bind, Option.bind_eq_some_iff] at helements
    obtain ⟨_, hname, _, hop, -⟩ := helements
    simp only [List.forall_mem_cons]
    exact ⟨hfield hname, Operator.within_of_ofTree? hop, fun _ h => nomatch h⟩
  · simp only [Option.bind_eq_bind, Option.bind_eq_some_iff] at helements
    obtain ⟨_, hname, _, hop, _, hliteral, -⟩ := helements
    simp only [List.forall_mem_cons]
    exact ⟨hfield hname, Operator.within_of_ofTree? hop, hvalue hliteral, fun _ h => nomatch h⟩
  · cases helements

theorem Condition.within_of_listOfTree? {tree : Tree} {cs : List Condition}
    (h : listOfTree? tree = some cs) : tree.Within 3 := by
  cases tree with
  | array elements =>
    intro element helement
    obtain ⟨before, after, rfl⟩ := List.append_of_mem helement
    simp only [listOfTree?, List.mapM_append, List.mapM_cons, Option.bind_eq_bind,
      Option.bind_eq_some_iff] at h
    obtain ⟨_, _, _, ⟨_, hc, -⟩, -⟩ := h
    exact within_of_ofTree? hc
  | object => cases h
  | _ => trivial

/-- The tree of a rule set has the rule set, its conditions, a condition and an operator in one
another, and nothing deeper. -/
theorem RuleSet.within_of_ofTree? {tree : Tree} {rules : RuleSet} (h : ofTree? tree = some rules) :
    tree.Within 4 := by
  rw [ofTree?_eq] at h
  obtain ⟨values, hvalues, helements⟩ := Option.bind_eq_some_iff.1 h
  refine Tree.within_of_values? hvalues ?_
  have hconnector : ∀ {connector name}, Connector.orNone? connector = some name →
      connector.Within 3 :=
    Tree.within_of_decode? (fun _ => rfl) fun _ => rfl
  unfold ofElements? at helements
  split at helements
  · exact fun _ h => nomatch h
  · simp only [Option.bind_eq_bind, Option.bind_eq_some_iff] at helements
    obtain ⟨_, hname, -⟩ := helements
    exact List.forall_mem_singleton.2 (hconnector hname)
  · simp only [Option.bind_eq_bind, Option.bind_eq_some_iff] at helements
    obtain ⟨_, hname, _, hlist, -⟩ := helements
    simp only [List.forall_mem_cons]
    exact ⟨hconnector hname, Condition.within_of_listOfTree? hlist, fun _ h => nomatch h⟩
  · cases helements

/-! ## Respelled texts -/

namespace RuleSet

/-- Two texts denote trees with any number of respellings between them. -/
def Respells (text text' : String) : Prop :=
  ∃ tree tree', Denotes text tree ∧ Denotes text' tree' ∧ Respelled parts tree tree'

/-- A text is read as a rule set exactly when it denotes a tree that is decoded to the rule set.
Trees that nest too deep for the reader are not those of rule sets. -/
theorem ofJson_eq_ok_iff_denotes [Dialect] {text : String} {rules : RuleSet} :
    ofJson text = .ok rules ↔ ∃ tree, Denotes text tree ∧ ofTree? tree = some rules := by
  rw [ofJson_eq_ofBytes, ofBytes_eq_ok_iff]
  refine exists_congr fun tree => and_congr_left fun hdecode => ?_
  rw [Tree.parse_eq_ok_iff]
  constructor
  · intro hdocument
    exact ⟨maxDepth, hdocument⟩
  · intro hdenotes
    exact hdenotes.document ((within_of_ofTree? hdecode).mono (by decide))

/-- What is read from a text as a rule set is read from every respelling of it. -/
theorem ofJson_of_respells [Dialect] {text text' : String} {rules : RuleSet}
    (hread : ofJson text = .ok rules) (hrespells : Respells text text') :
    ofJson text' = .ok rules := by
  obtain ⟨tree, tree', hdenotes, hdenotes', hrespelled⟩ := hrespells
  obtain ⟨read, hdenotesRead, hdecode⟩ := ofJson_eq_ok_iff_denotes.1 hread
  obtain rfl := hdenotes.unique hdenotesRead
  rw [ofTree?_of_respelled hrespelled] at hdecode
  exact ofJson_eq_ok_iff_denotes.2 ⟨tree', hdenotes', hdecode⟩

/-- A rule set in objects, with the empty string for no connector. -/
def membersText : String :=
  "\x7b\"conditions\":[\x7b\"Operator\":\"Equal\",\"field\":\"A\"\x7d],\"connector\":\"\"\x7d"

/-- The same rule set in arrays, with the operator as an object and the field escaped. -/
def elementsText : String :=
  " [null,\t[[\"\\u0041\", \x7b\"Equal\" :null\x7d]]]\n"

theorem respells_elementsText : Respells membersText elementsText := by
  let condition : Tree := .object [("Operator", .string "Equal"), ("field", .string "A")]
  let elements : Tree := .array [.string "A", .object [("Equal", .null)]]
  have hmembers : Denotes membersText
      (.object [("conditions", .array [condition]), ("connector", .string "")]) :=
    ⟨maxDepth, Tree.parse_eq_ok_iff.1 (by cbv)⟩
  have helements : Denotes elementsText (.array [.null, .array [elements]]) :=
    ⟨maxDepth, Tree.parse_eq_ok_iff.1 (by cbv)⟩
  have hcondition : Respelled Condition.parts condition elements :=
    Condition.respelled_array (.string "A") "Equal"
  have hconditions : Condition.ListRespells (.array ([] ++ [condition])) (.array ([] ++ [elements])) :=
    .one hcondition
  exact ⟨_, _, hmembers, helements, respelled_array hconditions⟩

theorem ofJson_elementsText :
    ofJson membersText = .ok ⟨none, [⟨"A", .equal, none⟩]⟩ ∧ Respells membersText elementsText ∧
      ofJson elementsText = .ok ⟨none, [⟨"A", .equal, none⟩]⟩ := by
  have hread : ofJson membersText = .ok ⟨none, [⟨"A", .equal, none⟩]⟩ := by cbv
  exact ⟨hread, respells_elementsText, ofJson_of_respells hread respells_elementsText⟩

end RuleSet

end RecordFilter
