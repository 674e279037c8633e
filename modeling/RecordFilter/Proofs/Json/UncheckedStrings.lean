import Mathlib
import RecordFilter.Load
import RecordFilter.Proofs.Json.TakesText

/-!
# Strings of a text need no check

At its closing quote a string is checked: its bytes must be UTF-8.  The check is there for
streams, which may hold any bytes.  In a text it never fails, so that a text is read the same
whether strings are checked or not.

Inside a string, the bytes collected so far and the bytes still to come spell a text together
(`StringToken.step_keeps_text`), although escapes have been replaced in the first part.  The
closing quote is a character of that text, and what stands in front of a character is text.

`CheckFree` says this of a reader, together with what carries it on to the next reader: what
has been taken is text, and therefore so is what is left.  A reader of arrays or objects takes
the opening character without looking at it; `CheckFreeAt` is about readers that are told
which byte comes next.
-/

namespace RecordFilter.Json.StringToken

open Reader Text

/-! ## Inside a string -/

/-- Inside a text, one step is the same whatever check is made. -/
theorem step_of_text (check : StringCheck) {done input : List UInt8}
    (htext : IsText (done.reverse ++ input)) :
    @step check done input = @step .strict done input := by
  cases input with
  | nil => rfl
  | cons b rest =>
    by_cases hquote : b = '"'.toUInt8
    · subst hquote
      have hdone := ((isText_append_ascii_iff (by decide)).1 htext).1
      obtain ⟨s, hs⟩ := isText_iff_ofUtf8?.1 hdone
      rw [@step_quote check, @step_quote .strict, ofUtf8?_eq_some_iff.1 hs,
        @StringCheck.text_utf8 check, @StringCheck.text_utf8 .strict]
    · rw [@step.eq_def check, @step.eq_def .strict, bind_of_ok (next_cons b rest),
        bind_of_ok (next_cons b rest), if_neg hquote, if_neg hquote]

/-- The bytes collected and those still to come go on to spell a text.  An escape is replaced
by the character that it stands for. -/
theorem step_keeps_text [StringCheck] {done done' input rest : List UInt8}
    (htext : IsText (done.reverse ++ input)) (hok : step done input = .ok (.inl done', rest)) :
    IsText (done'.reverse ++ rest) := by
  obtain ⟨_, _, _, ⟨⟩⟩ | ⟨c, after, rfl, hescape, hout⟩ | ⟨b, rfl, hout⟩ := step_cases hok
  · cases hout
    obtain ⟨letters, hletters, rfl⟩ := takesText_escape _ _ _ hescape
    rw [isText_append_ascii_iff (by decide), hletters.append_iff] at htext
    rw [List.reverse_append, List.reverse_reverse, List.append_assoc]
    exact isText_append_utf8EncodeChar_iff.2 htext
  · cases hout
    rw [List.reverse_cons, List.append_assoc]
    exact htext

/-- Inside a text, the rest of a string is read the same whatever check is made.  The induction
is on the length of the text that is left. -/
theorem iterate_of_text (check : StringCheck) {done input : List UInt8}
    (htext : IsText (done.reverse ++ input)) :
    iterate (@step check) done input = iterate (@step .strict) done input := by
  induction hn : input.length using Nat.strong_induction_on generalizing done input with
  | _ n ih =>
    rw [iterate_of_shrinks (@step_shrinks check), iterate_of_shrinks (@step_shrinks .strict),
      step_of_text check htext]
    cases hstep : @step .strict done input with
    | error fault => rfl
    | ok out =>
      obtain ⟨done' | s, rest⟩ := out
      · have hshorter := @step_shrinks .strict done input done' rest hstep
        exact ih rest.length (by omega) (@step_keeps_text .strict _ _ _ _ htext hstep) rfl
      · rfl

end RecordFilter.Json.StringToken

namespace RecordFilter.Json.Reader

open Text

variable {α β σ : Type}

/-! ## Readers that need no check -/

/-- A reader that reads texts the same whatever check it makes on strings, and takes text. -/
structure CheckFree (r : [StringCheck] → Reader α) : Prop where
  eq_strict : ∀ (check : StringCheck) {input : List UInt8}, IsText input →
    @r check input = @r .strict input
  takesText : TakesText (@r .strict)

/-- The same of a reader that is run where a given byte comes next. -/
structure CheckFreeAt (b : UInt8) (r : [StringCheck] → Reader α) : Prop where
  eq_strict : ∀ (check : StringCheck) {tail : List UInt8}, IsText (b :: tail) →
    @r check (b :: tail) = @r .strict (b :: tail)
  takesText : ∀ tail a rest, @r .strict (b :: tail) = .ok (a, rest) →
    ∃ used, IsText used ∧ b :: tail = used ++ rest

theorem CheckFree.at_byte {r : [StringCheck] → Reader α} (h : CheckFree r) (b : UInt8) :
    CheckFreeAt b r :=
  ⟨fun check _ htext => h.eq_strict check htext, fun tail => h.takesText (b :: tail)⟩

/-- What a reader has left of a text is text. -/
theorem TakesText.isText_rest {r : Reader α} (h : TakesText r) {input rest : List UInt8} {a : α}
    (htext : IsText input) (hok : r input = .ok (a, rest)) : IsText rest := by
  obtain ⟨used, hused, rfl⟩ := h input a rest hok
  exact hused.append_iff.1 htext

/-- A reader that looks into no string. -/
theorem TakesText.checkFree {r : Reader α} (h : TakesText r) : CheckFree r :=
  ⟨fun _ _ _ => rfl, h⟩

theorem CheckFree.bind {r : [StringCheck] → Reader α} {f : [StringCheck] → α → Reader β}
    (hr : CheckFree r) (hf : ∀ a, CheckFree (f a)) : CheckFree (r >>= f) := by
  refine ⟨fun check input htext => ?_, hr.takesText.bind fun a => (hf a).takesText⟩
  have hfirst := hr.eq_strict check htext
  cases hok : @r .strict input with
  | error fault =>
    rw [hok] at hfirst
    rw [bind_of_error hfirst, bind_of_error hok]
  | ok out =>
    rw [hok] at hfirst
    rw [bind_of_ok hfirst, bind_of_ok hok]
    exact (hf out.1).eq_strict check (hr.takesText.isText_rest htext hok)

theorem CheckFree.map {r : [StringCheck] → Reader α} (hr : CheckFree r) (g : α → β) :
    CheckFree (g <$> r) := by
  simp only [map_eq_bind]
  exact hr.bind fun a => (takesText_pure (g a)).checkFree

/-- The law of the loop.  The induction is on the bound. -/
theorem iterateWithin_of_text {step : [StringCheck] → σ → Reader (σ ⊕ β)}
    (h : ∀ state, CheckFree (step state)) (check : StringCheck) (bound : List UInt8) (state : σ)
    {input : List UInt8} (htext : IsText input) :
    iterateWithin (@step check) bound state input =
      iterateWithin (@step .strict) bound state input := by
  induction bound generalizing state input with
  | nil =>
    rw [iterateWithin_eq, iterateWithin_eq, (h state).eq_strict check htext]
    cases @step .strict state input with
    | error fault => rfl
    | ok out => obtain ⟨state' | result, rest⟩ := out <;> rfl
  | cons b bound ih =>
    rw [iterateWithin_eq, iterateWithin_eq, (h state).eq_strict check htext]
    cases hstep : @step .strict state input with
    | error fault => rfl
    | ok out =>
      obtain ⟨state' | result, rest⟩ := out
      · exact ih state' ((h state).takesText.isText_rest htext hstep)
      · rfl

theorem checkFree_iterate {step : [StringCheck] → σ → Reader (σ ⊕ β)}
    (h : ∀ state, CheckFree (step state)) (state : σ) : CheckFree (iterate step state) :=
  ⟨fun check input htext => iterateWithin_of_text h check input state htext,
    takesText_iterate (fun state => (h state).takesText) state⟩

/-! ## Readers that look at the next byte -/

/-- A reader that takes the opening character, which is ASCII, without looking at it. -/
theorem checkFreeAt_next_bind {b : UInt8} (hb : b.toNat < 0x80) {body : [StringCheck] → Reader α}
    (h : CheckFree body) : CheckFreeAt b (next >>= fun _ => body) := by
  have hfirst : IsText [b] := isText_of_ascii fun c hc => List.mem_singleton.1 hc ▸ hb
  refine ⟨fun check tail htext => ?_, fun tail a rest hok => ?_⟩
  · rw [next_bind_cons, next_bind_cons]
    rw [← List.singleton_append, hfirst.append_iff] at htext
    exact h.eq_strict check htext
  · rw [next_bind_cons] at hok
    obtain ⟨used, htext, rfl⟩ := h.takesText tail a rest hok
    exact ⟨[b] ++ used, hfirst.append htext, rfl⟩

theorem checkFreeAt_enter {b : UInt8} (hb : b.toNat < 0x80)
    {body : [StringCheck] → Nat → Reader α} (h : ∀ depth, CheckFree (body depth)) (depth : Nat) :
    CheckFreeAt b (enter depth body) := by
  cases depth with
  | zero => exact (takesText_throw .malformed).checkFree.at_byte b
  | succ depth => exact checkFreeAt_next_bind hb (h depth)

/-- A reader that goes by what the next value is. -/
theorem checkFree_lead_bind {f : [StringCheck] → Lead → Reader α}
    (h : ∀ b, CheckFreeAt b (f (.ofByte b))) : CheckFree (lead >>= f) := by
  refine ⟨fun check input htext => ?_, fun input a rest hok => ?_⟩
  · cases hlead : lead input with
    | error fault => rw [bind_of_error hlead, bind_of_error hlead]
    | ok out =>
      obtain ⟨kind, middle⟩ := out
      obtain ⟨b, tail, hdrop, rfl, rfl⟩ := lead_eq_ok_iff.1 hlead
      obtain ⟨spaces, hspaces, rfl⟩ := exists_isText_of_dropWhile hdrop
      rw [bind_of_ok hlead, bind_of_ok hlead]
      exact (h b).eq_strict check (hspaces.append_iff.1 htext)
  · obtain ⟨kind, middle, hlead, hread⟩ := bind_eq_ok_iff.1 hok
    obtain ⟨b, tail, hdrop, rfl, rfl⟩ := lead_eq_ok_iff.1 hlead
    obtain ⟨spaces, hspaces, rfl⟩ := exists_isText_of_dropWhile hdrop
    obtain ⟨used, hused, hsplit⟩ := (h b).takesText tail a rest hread
    exact ⟨spaces ++ used, hspaces.append hused, by rw [hsplit, List.append_assoc]⟩

/-! ## Strings, arrays and objects -/

theorem checkFree_quotedText : CheckFree quotedText := by
  refine (takesText_symbol (by decide)).checkFree.bind fun _ => ?_
  exact ⟨fun check _ htext => StringToken.iterate_of_text check htext, StringToken.takesText_read⟩

theorem checkFree_elements {element : [StringCheck] → Reader α} (h : CheckFree element) :
    CheckFree (elements element) := by
  refine checkFree_iterate (fun done => ?_) []
  refine (separates_anotherElement.takesText _).checkFree.bind fun another => ?_
  cases another with
  | true => exact h.bind fun _ => (takesText_pure _).checkFree
  | false => exact ((takesText_symbol (by decide)).bind fun _ => takesText_pure _).checkFree

theorem checkFree_members {member : [StringCheck] → α → Reader α}
    (h : ∀ state, CheckFree (member state)) (start : α) : CheckFree (members member start) := by
  refine checkFree_iterate (fun state => ?_) (true, start)
  refine (separates_anotherMember.takesText _).checkFree.bind fun another => ?_
  cases another with
  | true => exact (h _).bind fun _ => (takesText_pure _).checkFree
  | false => exact ((takesText_symbol (by decide)).bind fun _ => takesText_pure _).checkFree

theorem takesText_nullWord : TakesText nullWord :=
  takesText_word ['n', 'u', 'l', 'l'] (by simp)

theorem takesText_trueWord : TakesText trueWord :=
  takesText_word ['t', 'r', 'u', 'e'] (by simp)

theorem takesText_falseWord : TakesText falseWord :=
  takesText_word ['f', 'a', 'l', 's', 'e'] (by simp)

theorem checkFree_shape : CheckFree shape := by
  refine checkFree_lead_bind fun b => CheckFree.at_byte ?_ b
  cases Lead.ofByte b with
  | null => exact (takesText_nullWord.bind fun _ => takesText_pure _).checkFree
  | true => exact (takesText_trueWord.bind fun _ => takesText_pure _).checkFree
  | false => exact (takesText_falseWord.bind fun _ => takesText_pure _).checkFree
  | number =>
    refine (takesText_readNumber.bind fun v => ?_).checkFree
    cases v <;> exact takesText_pure _
  | string => exact checkFree_quotedText.map _
  | array | object => exact (takesText_pure _).checkFree
  | other => exact (takesText_throw _).checkFree

theorem checkFree_unexpected (expected : String) :
    CheckFree (unexpected expected : [StringCheck] → Reader α) :=
  checkFree_shape.bind fun _ => (takesText_throw _).checkFree

theorem checkFree_stringOr (expected : String) : CheckFree (stringOr expected) := by
  refine checkFree_lead_bind fun b => CheckFree.at_byte ?_ b
  cases Lead.ofByte b with
  | string => exact checkFree_quotedText
  | _ => exact checkFree_unexpected expected

end RecordFilter.Json.Reader

namespace RecordFilter.Json

open Reader Text

variable {α κ : Type}

/-! ## Trees -/

theorem toNat_lt_of_ofByte : ∀ b : UInt8,
    Lead.ofByte b = .array ∨ Lead.ofByte b = .object → b.toNat < 0x80 := by
  decide +kernel

namespace Tree

theorem checkFree_readMember {value : [StringCheck] → Reader Tree} (h : CheckFree value)
    (done : List (String × Tree)) : CheckFree (readMember value done) := by
  refine checkFree_quotedText.bind fun name => ?_
  refine (takesText_symbol (by decide)).checkFree.bind fun _ => ?_
  exact h.bind fun v => (takesText_pure _).checkFree

/-- A value, given how its arrays and objects are read. -/
theorem checkFree_readWith {array object : [StringCheck] → Reader Tree}
    (harray : ∀ b, b.toNat < 0x80 → CheckFreeAt b array)
    (hobject : ∀ b, b.toNat < 0x80 → CheckFreeAt b object) : CheckFree (readWith array object) := by
  refine checkFree_lead_bind fun b => ?_
  cases hkind : Lead.ofByte b with
  | null => exact (takesText_nullWord.bind fun _ => takesText_pure _).checkFree.at_byte b
  | true => exact (takesText_trueWord.bind fun _ => takesText_pure _).checkFree.at_byte b
  | false => exact (takesText_falseWord.bind fun _ => takesText_pure _).checkFree.at_byte b
  | number => exact (takesText_readNumber.map _).checkFree.at_byte b
  | string => exact (checkFree_quotedText.map _).at_byte b
  | array => exact harray b (toNat_lt_of_ofByte b (.inl hkind))
  | object => exact hobject b (toNat_lt_of_ofByte b (.inr hkind))
  | other => exact (takesText_throw _).checkFree.at_byte b

theorem checkFree_read (depth : Nat) : CheckFree (read depth) := by
  induction depth with
  | zero =>
    exact checkFree_readWith (fun b _ => (takesText_throw _).checkFree.at_byte b)
      fun b _ => (takesText_throw _).checkFree.at_byte b
  | succ depth ih =>
    refine checkFree_readWith (fun b hb => checkFreeAt_next_bind hb ?_)
      fun b hb => checkFreeAt_next_bind hb ?_
    · exact (checkFree_elements ih).bind fun _ => (takesText_pure _).checkFree
    · exact (checkFree_members (checkFree_readMember ih) []).bind fun _ =>
        (takesText_pure _).checkFree

/-- Only text has a tree. -/
theorem isText_of_parse {input : List UInt8} {tree : Tree} (h : parse input = .ok tree) :
    IsText input := by
  obtain ⟨rest, hread, hspace⟩ := complete_eq_ok_iff.1 h
  obtain ⟨used, hused, rfl⟩ := (checkFree_read maxDepth).takesText input tree rest hread
  exact hused.append (isText_of_isSpace (List.all_eq_true.1 hspace))

end Tree

/-! ## Literals and names -/

theorem checkFree_readLiteral (depth : Nat) : CheckFree (readLiteral depth) := by
  refine (Tree.checkFree_read depth).bind fun tree => ?_
  cases Literal.ofTree? tree with
  | none => exact (takesText_throw _).checkFree
  | some literal => exact (takesText_pure _).checkFree

theorem checkFree_readValue (depth : Nat) : CheckFree (readValue depth) := by
  refine checkFree_lead_bind fun b => CheckFree.at_byte ?_ b
  cases Lead.ofByte b with
  | null => exact (takesText_nullWord.bind fun _ => takesText_pure _).checkFree
  | _ => exact (checkFree_readLiteral depth).map some

theorem takesText_named (ofName? : String → Option α) (names : List String) (name : String) :
    TakesText (named ofName? names name) := by
  unfold named
  split
  · exact takesText_pure _
  · exact takesText_throw _

theorem checkFree_readUnit : CheckFree readUnit := by
  refine checkFree_lead_bind fun b => CheckFree.at_byte ?_ b
  cases Lead.ofByte b with
  | null => exact takesText_nullWord.checkFree
  | _ => exact checkFree_unexpected "unit"

theorem checkFree_readConnectorOrNone : CheckFree readConnectorOrNone := by
  refine checkFree_lead_bind fun b => CheckFree.at_byte ?_ b
  cases Lead.ofByte b with
  | null => exact (takesText_nullWord.bind fun _ => takesText_pure _).checkFree
  | _ =>
    refine (checkFree_stringOr "a string").bind fun name => TakesText.checkFree ?_
    split
    · exact takesText_pure _
    · exact (takesText_named _ _ name).map some

theorem checkFree_readMemberName (spellings : List (String × κ)) :
    CheckFree (readMemberName spellings) := by
  refine checkFree_quotedText.bind fun name => TakesText.checkFree ?_
  split
  · exact takesText_pure _
  · exact takesText_throw _

theorem checkFree_readOnce (name : String) (before : Option α) {value : [StringCheck] → Reader α}
    (h : CheckFree value) : CheckFree (readOnce name before value) := by
  cases before with
  | some _ => exact (takesText_throw _).checkFree
  | none => exact (takesText_symbol (by decide)).checkFree.bind fun _ => h.map some

theorem ConditionMembers.takesText_condition (members : ConditionMembers) :
    TakesText members.condition := by
  unfold ConditionMembers.condition
  split
  · exact takesText_pure _
  · exact takesText_throw _

variable [Dialect]

theorem checkFree_readKey : CheckFree readKey := by
  unfold readKey
  cases Dialect.keyFault with
  | malformed => exact checkFree_quotedText
  | mismatch => exact checkFree_stringOr _

theorem checkFree_readNamed (depth : Nat) (ofName? : String → Option α) (names : List String) :
    CheckFree (readNamed depth ofName? names) := by
  refine checkFree_lead_bind fun b => ?_
  cases hkind : Lead.ofByte b with
  | string =>
    refine CheckFree.at_byte ?_ b
    exact checkFree_quotedText.bind fun name => (takesText_named ofName? names name).checkFree
  | object =>
    refine checkFreeAt_enter (toNat_lt_of_ofByte b (.inr hkind)) (fun _ => ?_) depth
    refine checkFree_readKey.bind fun name => ?_
    refine (takesText_named ofName? names name).checkFree.bind fun a => ?_
    refine (takesText_symbol (by decide)).checkFree.bind fun _ => checkFree_readUnit.bind fun _ => ?_
    exact ((takesText_symbol (by decide)).bind fun _ => takesText_pure a).checkFree
  | _ => exact (takesText_throw _).checkFree.at_byte b

/-! ## Rule sets -/

theorem ConditionMembers.checkFree_read (depth : Nat) (before : ConditionMembers) :
    CheckFree (ConditionMembers.read depth before) := by
  refine (checkFree_readMemberName _).bind fun member => ?_
  cases member with
  | field =>
    exact (checkFree_readOnce _ _ (checkFree_stringOr _)).bind fun _ => (takesText_pure _).checkFree
  | operator =>
    exact (checkFree_readOnce _ _ (checkFree_readNamed _ _ _)).bind fun _ =>
      (takesText_pure _).checkFree
  | value =>
    exact (checkFree_readOnce _ _ (checkFree_readValue depth)).bind fun _ =>
      (takesText_pure _).checkFree

theorem checkFree_readConditionElements (depth : Nat) :
    CheckFree (readConditionElements depth) := by
  refine (separates_anotherElement.takesText _).checkFree.bind fun another => ?_
  cases another with
  | false => exact (takesText_throw _).checkFree
  | true =>
    refine (checkFree_stringOr _).bind fun field => ?_
    refine (separates_anotherElement.takesText _).checkFree.bind fun another => ?_
    cases another with
    | false => exact (takesText_throw _).checkFree
    | true =>
      refine (checkFree_readNamed _ _ _).bind fun operator => ?_
      refine (separates_anotherElement.takesText _).checkFree.bind fun another => ?_
      have hclose : ∀ value : Option Literal,
          TakesText (closeArray >>= fun _ => pure (⟨field, operator, value⟩ : Condition)) :=
        fun value => (takesText_symbol (by decide)).bind fun _ => takesText_pure _
      cases another with
      | true => exact (checkFree_readValue depth).bind fun value => (hclose value).checkFree
      | false => exact (hclose none).checkFree

theorem checkFree_readCondition (depth : Nat) : CheckFree (readCondition depth) := by
  refine checkFree_lead_bind fun b => ?_
  cases hkind : Lead.ofByte b with
  | array =>
    exact checkFreeAt_enter (toNat_lt_of_ofByte b (.inl hkind)) checkFree_readConditionElements depth
  | object =>
    refine checkFreeAt_enter (toNat_lt_of_ofByte b (.inr hkind)) (fun inner => ?_) depth
    exact (checkFree_members (ConditionMembers.checkFree_read inner) {}).bind fun members =>
      members.takesText_condition.checkFree
  | _ => exact (checkFree_unexpected _).at_byte b

theorem checkFree_readConditions (depth : Nat) : CheckFree (readConditions depth) := by
  refine checkFree_lead_bind fun b => ?_
  cases hkind : Lead.ofByte b with
  | array =>
    exact checkFreeAt_enter (toNat_lt_of_ofByte b (.inl hkind))
      (fun inner => checkFree_elements (checkFree_readCondition inner)) depth
  | _ => exact (checkFree_unexpected _).at_byte b

theorem RuleSetMembers.checkFree_read (depth : Nat) (before : RuleSetMembers) :
    CheckFree (RuleSetMembers.read depth before) := by
  refine (checkFree_readMemberName _).bind fun member => ?_
  cases member with
  | connector =>
    exact (checkFree_readOnce _ _ checkFree_readConnectorOrNone).bind fun _ =>
      (takesText_pure _).checkFree
  | conditions =>
    exact (checkFree_readOnce _ _ (checkFree_readConditions depth)).bind fun _ =>
      (takesText_pure _).checkFree

theorem checkFree_readRuleSetElements (depth : Nat) : CheckFree (readRuleSetElements depth) := by
  refine (separates_anotherElement.takesText _).checkFree.bind fun another => ?_
  cases another with
  | false => exact ((takesText_symbol (by decide)).bind fun _ => takesText_pure _).checkFree
  | true =>
    refine checkFree_readConnectorOrNone.bind fun connector => ?_
    refine (separates_anotherElement.takesText _).checkFree.bind fun another => ?_
    have hclose : ∀ conditions : List Condition,
        TakesText (closeArray >>= fun _ => pure (⟨connector, conditions⟩ : RuleSet)) :=
      fun conditions => (takesText_symbol (by decide)).bind fun _ => takesText_pure _
    cases another with
    | true =>
      exact (checkFree_readConditions depth).bind fun conditions => (hclose conditions).checkFree
    | false => exact (hclose []).checkFree

theorem checkFree_readRuleSet (depth : Nat) : CheckFree (readRuleSet depth) := by
  refine checkFree_lead_bind fun b => ?_
  cases hkind : Lead.ofByte b with
  | array =>
    exact checkFreeAt_enter (toNat_lt_of_ofByte b (.inl hkind)) checkFree_readRuleSetElements depth
  | object =>
    refine checkFreeAt_enter (toNat_lt_of_ofByte b (.inr hkind)) (fun inner => ?_) depth
    exact (checkFree_members (RuleSetMembers.checkFree_read inner) {}).map _
  | _ => exact (checkFree_unexpected _).at_byte b

end RecordFilter.Json

namespace RecordFilter

open Json Text

/-- A text is read the same whether its strings are checked or not. -/
theorem RuleSet.ofBytes_of_isText [Dialect] (check : StringCheck) {bytes : List UInt8}
    (htext : IsText bytes) : @ofBytes _ check bytes = @ofBytes _ .strict bytes := by
  unfold ofBytes Reader.complete
  rw [(checkFree_readRuleSet maxDepth).eq_strict check htext]

/-- A text is read as the stream of its bytes is. -/
theorem RuleSet.ofJson_eq_ofBytes [Dialect] (text : String) : ofJson text = ofBytes (utf8 text) :=
  ofBytes_of_isText .unchecked (isText_iff_ofUtf8?.2 ⟨text, ofUtf8?_utf8 text⟩)

end RecordFilter
