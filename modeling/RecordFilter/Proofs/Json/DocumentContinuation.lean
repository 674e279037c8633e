import Mathlib
import RecordFilter.Proofs.Json.Decoding
import RecordFilter.Proofs.Json.NumberContinuation
import RecordFilter.Proofs.Json.TreeLanguage

/-!
# Rule sets on the front of a text

The laws of `RecordFilter.Proofs.Json.Continuation`, applied to the readers that make up a
rule set, from strings to the rule set itself.

Only readers that may end in a number have early values: those of numbers, literals, and
members.  What has a closing bracket has none, and a rule set has one: `streams_readRuleSet`.
A number where none is expected is a fault either way, so it does not matter to
`streams_unexpected` how much there is of it.
-/

namespace RecordFilter.Json

open Reader

variable {α κ σ : Type} {Early : α → Prop} {b : UInt8} {depth : Nat}

/-! ## Strings -/

namespace StringToken

theorem ne_of_hexValue? : ∀ b : UInt8, (hexValue? b).isSome → b ≠ '"'.toUInt8 ∧ b ≠ '\\'.toUInt8 := by
  decide +kernel

theorem run_string_of_hexNumber? {a b c d : UInt8} {n : Nat} (h : hexNumber? a b c d = some n) :
    Place.string.run [a, b, c, d] = .string := by
  simp only [hexNumber?, Option.bind_eq_bind, Option.bind_eq_some_iff] at h
  obtain ⟨_, ha, _, hb, _, hc, _, hd, -⟩ := h
  refine Place.run_string ?_
  simp only [List.forall_mem_cons]
  exact ⟨ne_of_hexValue? a (by rw [ha]; rfl), ne_of_hexValue? b (by rw [hb]; rfl),
    ne_of_hexValue? c (by rw [hc]; rfl), ne_of_hexValue? d (by rw [hd]; rfl),
    List.forall_mem_nil _⟩

theorem continues_hexNumber {Early : Nat → Prop} :
    Continues .string (fun _ => .string) Early hexNumber := by
  intro kept dropped
  rcases kept with _ | ⟨a, _ | ⟨b, _ | ⟨c, _ | ⟨d, rest⟩⟩⟩⟩
  · exact .starved rfl
  · exact .starved rfl
  · exact .starved rfl
  · exact .starved rfl
  cases h : hexNumber? a b c d with
  | none =>
    have hfault : ∀ text, hexNumber (a :: b :: c :: d :: text) = .error .malformed := by
      intro text
      rw [hexNumber, h]
    exact .failed (hfault rest) (hfault (rest ++ dropped))
  | some n =>
    have hok : ∀ text, hexNumber (a :: b :: c :: d :: text) = .ok (n, text) := by
      intro text
      rw [hexNumber, h]
    have hkept : a :: b :: c :: d :: rest = [a, b, c, d] ++ rest := rfl
    exact .settled hkept (run_string_of_hexNumber? h) (hok rest) (hok (rest ++ dropped))

theorem continues_numberedEscape {Early : Char → Prop} :
    Continues .string (fun _ => .string) Early numberedEscape := by
  refine continues_hexNumber.seq fun n => ?_
  split
  · exact continues_throw _
  split
  · refine (continues_word _).seq fun _ => continues_hexNumber.seq fun m => ?_
    split
    · exact continues_pure rfl
    · exact continues_throw _
  · exact continues_pure rfl

theorem continues_escape {Early : Char → Prop} :
    Continues .escape (fun _ => .string) Early escape := by
  refine continues_next.seq fun b => ?_
  split
  · exact continues_numberedEscape
  split
  · exact continues_pure rfl
  · exact continues_throw _

/-- Behind the closing quote a string has ended, behind any other step it goes on. -/
theorem continues_step (done : List UInt8) :
    Continues .string (Sum.elim (fun _ => .string) fun _ => .between) (fun out => out.isLeft)
      (step done) := by
  refine continues_next.seq fun b => ?_
  split
  · next hquote =>
    rw [Place.step, if_pos hquote]
    split
    · exact continues_pure rfl
    · exact continues_throw _
  next hquote =>
  split
  · next hbackslash =>
    rw [Place.step, if_neg hquote, if_pos hbackslash]
    exact continues_escape.seq fun c => continues_pure rfl
  next hbackslash =>
  split
  · exact continues_throw _
  · rw [Place.step, if_neg hquote, if_neg hbackslash]
    exact continues_pure rfl

theorem continues_read {Early : String → Prop} :
    Continues .string (fun _ => .between) Early read :=
  continues_iterate step_shrinks (fun _ => rfl) continues_step []

end StringToken

/-! ## Readers between strings -/

/-- Readers that begin and end between strings. -/
abbrev Streams (Early : α → Prop) (r : Reader α) : Prop :=
  Continues .between (fun _ => .between) Early r

/-- The same where the next byte is known. -/
abbrev StreamsAt (b : UInt8) (Early : α → Prop) (r : Reader α) : Prop :=
  ContinuesAt b (fun _ => .between) Early r

theorem streams_pure (a : α) : Streams Early (pure a) := continues_pure rfl

theorem streams_throw (fault : Fault) : Streams Early (throw fault : Reader α) :=
  continues_throw fault

theorem streams_quotedText {Early : String → Prop} : Streams Early quotedText :=
  (continues_symbol '"'.toUInt8).seq fun _ => StringToken.continues_read

theorem streams_symbol {Early : Unit → Prop} {expected : UInt8} (h : expected ≠ '"'.toUInt8) :
    Streams Early (symbol expected) := by
  have hsymbol := @continues_symbol Early expected
  rwa [Place.step_between h] at hsymbol

theorem streams_word {Early : Unit → Prop} {bytes : List UInt8}
    (h : Place.between.run bytes = .between) : Streams Early (word bytes) := by
  have hword := @continues_word .between Early bytes
  rwa [h] at hword

theorem streams_nullWord {Early : Unit → Prop} : Streams Early nullWord := streams_word (by decide)

theorem streams_trueWord {Early : Unit → Prop} : Streams Early trueWord := streams_word (by decide)

theorem streams_falseWord {Early : Unit → Prop} : Streams Early falseWord :=
  streams_word (by decide)

theorem streams_anotherElement {Early : Bool → Prop} (first : Bool) :
    Streams Early (anotherElement first) := by
  refine continues_peek_bind fun b _ => ?_
  split
  · exact (streams_pure _).at_byte b
  split
  · exact (streams_pure _).at_byte b
  split
  · next hcomma =>
    refine continuesAt_next_bind ?_
    rw [Place.step_between (by rw [hcomma]; decide)]
    refine continues_peek_bind fun c _ => ?_
    split
    · exact (streams_throw _).at_byte c
    · exact (streams_pure _).at_byte c
  · exact (streams_throw _).at_byte b

theorem streams_anotherMember {Early : Bool → Prop} (first : Bool) :
    Streams Early (anotherMember first) := by
  refine continues_peek_bind fun b _ => ?_
  split
  · exact (streams_pure _).at_byte b
  split
  · split
    · exact (streams_pure _).at_byte b
    · exact (streams_throw _).at_byte b
  split
  · next hcomma =>
    refine continuesAt_next_bind ?_
    rw [Place.step_between (by rw [hcomma]; decide)]
    refine continues_peek_bind fun c _ => ?_
    split
    · exact (streams_pure _).at_byte c
    · exact (streams_throw _).at_byte c
  · exact (streams_throw _).at_byte b

/-- Only the byte that announces a string is a quote. -/
theorem step_between_of_ofByte {kind : Lead} (h : Lead.ofByte b = kind) (hkind : kind ≠ .string) :
    Place.between.step b = .between := by
  refine Place.step_between fun hquote => hkind ?_
  rw [← h, hquote]
  rfl

theorem streamsAt_enter {kind : Lead} (h : Lead.ofByte b = kind) (hkind : kind ≠ .string)
    {body : Nat → Reader α} (hbody : ∀ depth', depth = depth' + 1 → Streams Early (body depth')) :
    StreamsAt b Early (enter depth body) := by
  cases depth with
  | zero => exact (streams_throw _).at_byte b
  | succ depth =>
    refine continuesAt_next_bind ?_
    rw [step_between_of_ofByte h hkind]
    exact hbody depth rfl

/-- An array is not early, whatever its elements are: its bracket is still to come. -/
theorem streams_elements {element : Reader α} {Early' : List α → Prop} (htakes : Takes 1 element)
    (h : Streams (fun _ => True) element) : Streams Early' (elements element) := by
  refine continues_iterate (elementStep_shrinks htakes) (fun _ => rfl) (fun done => ?_) []
  refine (streams_anotherElement _).seq fun another => ?_
  split
  · exact h.bind_pure (fun _ => rfl) fun _ _ => rfl
  · exact (streams_symbol (by decide)).seq fun _ => continues_pure rfl

/-- An object is not early either. -/
theorem streams_members {member : σ → Reader σ} {Early' : σ → Prop}
    (htakes : ∀ state, Takes 1 (member state))
    (h : ∀ state, Streams (fun _ => True) (member state)) (start : σ) :
    Streams Early' (members member start) := by
  refine continues_iterate (memberStep_shrinks htakes) (fun _ => rfl) (fun state => ?_) (true, start)
  refine (streams_anotherMember _).seq fun another => ?_
  split
  · exact (h _).bind_pure (fun _ => rfl) fun _ _ => rfl
  · exact (streams_symbol (by decide)).seq fun _ => continues_pure rfl

/-! ## Values -/

theorem streams_shape : Streams (fun _ => True) shape := by
  refine continues_lead_bind fun b _ => ?_
  split
  · exact (streams_nullWord.seq fun _ => streams_pure _).at_byte b
  · exact (streams_trueWord.seq fun _ => streams_pure _).at_byte b
  · exact (streams_falseWord.seq fun _ => streams_pure _).at_byte b
  · refine Continues.at_byte (continues_readNumber.bind (fun v => ?_) fun v _ => .inr ?_) b
    · cases v <;> exact streams_pure _
    · cases v <;> exact ⟨_, rfl, trivial⟩
  · exact Continues.at_byte (streams_quotedText.map_seq fun _ => rfl) b
  · exact (streams_pure _).at_byte b
  · exact (streams_pure _).at_byte b
  · exact (streams_throw _).at_byte b

/-- A value that is not expected is a fault, however much there is of it. -/
theorem streams_unexpected (expected : String) : Streams Early (unexpected expected : Reader α) := by
  intro kept dropped
  have hfails : ∀ a rest, (unexpected expected : Reader α) (kept ++ dropped) ≠ .ok (a, rest) :=
    fun a rest => fails_unexpected expected _ a rest
  cases streams_shape kept dropped with
  | starved h => exact .starved (bind_of_error h)
  | failed h hwhole => exact .failed (bind_of_error h) (bind_of_error hwhole)
  | settled _ _ h hwhole => exact .failed (bind_of_ok h) (bind_of_ok hwhole)
  | early hcut h _ =>
    exact .broken hcut (bind_of_ok h) fun a rest hok => absurd hok (hfails a rest)
  | broken hcut h _ =>
    exact .broken hcut (bind_of_error h) fun a rest hok => absurd hok (hfails a rest)

theorem streams_stringOr {Early : String → Prop} (expected : String) :
    Streams Early (stringOr expected) := by
  refine continues_lead_bind fun b _ => ?_
  split
  · exact streams_quotedText.at_byte b
  · exact (streams_unexpected expected).at_byte b

/-- A value that has been announced, given how the values inside it are read. -/
theorem streamsAt_readAs {kind : Lead} (hkind : Lead.ofByte b = kind)
    (hinside : ∀ depth', depth = depth' + 1 →
      Streams (fun tree => tree.announcement = .number) (Tree.read depth')) :
    StreamsAt b (fun tree => tree.announcement = .number) (Tree.readAs depth kind) := by
  cases kind with
  | null => exact (streams_nullWord.seq fun _ => streams_pure _).at_byte b
  | true => exact (streams_trueWord.seq fun _ => streams_pure _).at_byte b
  | false => exact (streams_falseWord.seq fun _ => streams_pure _).at_byte b
  | number =>
    refine Continues.at_byte ?_ b
    exact continues_readNumber.map (fun _ => rfl) fun _ _ => rfl
  | string => exact Continues.at_byte (streams_quotedText.map_seq fun _ => rfl) b
  | array =>
    refine streamsAt_enter hkind (by decide) fun depth' hdepth => ?_
    have helement := (hinside depth' hdepth).mono fun _ _ => trivial
    exact (streams_elements (takes_tree depth') helement).seq fun _ => streams_pure _
  | object =>
    refine streamsAt_enter hkind (by decide) fun depth' hdepth => ?_
    have hmember : ∀ done, Streams (fun _ => True) (Tree.readMember (Tree.read depth') done) := by
      intro done
      refine streams_quotedText.seq fun name => (streams_symbol (by decide)).seq fun _ => ?_
      exact (hinside depth' hdepth).bind_pure (fun _ => rfl) fun _ _ => trivial
    exact (streams_members (Tree.takes_readMember depth') hmember []).seq fun _ => streams_pure _
  | other => exact (streams_throw _).at_byte b

/-- Of the values, only numbers are early. -/
theorem streams_tree (depth : Nat) :
    Streams (fun tree => tree.announcement = .number) (Tree.read depth) := by
  induction depth with
  | zero =>
    rw [Tree.read_eq_lead_bind]
    exact continues_lead_bind fun b _ => streamsAt_readAs rfl nofun
  | succ depth ih =>
    rw [Tree.read_eq_lead_bind]
    refine continues_lead_bind fun b _ => streamsAt_readAs rfl fun depth' hdepth => ?_
    cases hdepth
    exact ih

/-- A number is a literal, so a literal that ends in a number is early too. -/
theorem streams_readLiteral (depth : Nat) : Streams (fun _ => True) (readLiteral depth) := by
  refine (streams_tree depth).bind (fun tree => ?_) fun tree htree => .inr ?_
  · split
    · exact streams_pure _
    · exact streams_throw _
  · cases tree with
    | number v => exact ⟨_, rfl, trivial⟩
    | bool b => cases b <;> cases htree
    | null | string _ | array _ | object _ => cases htree

theorem streams_readValue (depth : Nat) : Streams (fun _ => True) (readValue depth) := by
  refine continues_lead_bind fun b _ => ?_
  split
  · exact (streams_nullWord.seq fun _ => streams_pure _).at_byte b
  · exact ((streams_readLiteral depth).map (fun _ => rfl) fun _ _ => trivial).at_byte b

/-! ## Names -/

theorem streams_named {Early : α → Prop} (ofName? : String → Option α) (names : List String)
    (name : String) : Streams Early (named ofName? names name) := by
  unfold named
  split
  · exact streams_pure _
  · exact streams_throw _

theorem streams_readUnit {Early : Unit → Prop} : Streams Early readUnit := by
  refine continues_lead_bind fun b _ => ?_
  split
  · exact streams_nullWord.at_byte b
  · exact (streams_unexpected _).at_byte b

theorem streams_readKey [Dialect] {Early : String → Prop} : Streams Early readKey := by
  unfold readKey
  split
  · exact streams_quotedText
  · exact streams_stringOr _

theorem streams_readNamed [Dialect] (depth : Nat) (ofName? : String → Option α)
    (names : List String) :
    Streams Early (readNamed depth ofName? names) := by
  refine continues_lead_bind fun b _ => ?_
  split
  · exact (streams_quotedText.seq fun name => streams_named ofName? names name).at_byte b
  · next hobject =>
    refine streamsAt_enter hobject (by decide) fun _ _ => ?_
    refine streams_readKey.seq fun name => (streams_named ofName? names name).seq fun a => ?_
    refine (streams_symbol (by decide)).seq fun _ => streams_readUnit.seq fun _ => ?_
    exact (streams_symbol (by decide)).seq fun _ => streams_pure a
  · exact (streams_throw _).at_byte b

theorem streams_readConnectorOrNone {Early : Option Connector → Prop} :
    Streams Early readConnectorOrNone := by
  refine continues_lead_bind fun b _ => ?_
  split
  · exact (streams_nullWord.seq fun _ => streams_pure _).at_byte b
  · refine Continues.at_byte ((streams_stringOr _).seq fun name => ?_) b
    split
    · exact streams_pure _
    · exact (streams_named _ _ name).map_seq fun _ => rfl

theorem streams_readMemberName {Early : κ → Prop} (spellings : List (String × κ)) :
    Streams Early (readMemberName spellings) := by
  refine streams_quotedText.seq fun name => ?_
  split
  · exact streams_pure _
  · exact streams_throw _

theorem streams_readOnce (name : String) (before : Option α) {value : Reader α}
    (h : Streams (fun _ => True) value) : Streams (fun _ => True) (readOnce name before value) := by
  unfold readOnce
  split
  · exact streams_throw _
  · refine (streams_symbol (by decide)).seq fun _ => ?_
    exact h.map (fun _ => rfl) fun _ _ => trivial

/-! ## Conditions -/

theorem ConditionMembers.streams_read [Dialect] (depth : Nat) (before : ConditionMembers) :
    Streams (fun _ => True) (ConditionMembers.read depth before) := by
  refine (streams_readMemberName _).seq fun member => ?_
  cases member with
  | field =>
    exact (streams_readOnce _ _ (streams_stringOr _)).bind_pure (fun _ => rfl) fun _ _ => trivial
  | operator =>
    exact (streams_readOnce _ _ (streams_readNamed _ _ _)).bind_pure (fun _ => rfl) fun _ _ => trivial
  | value =>
    exact (streams_readOnce _ _ (streams_readValue depth)).bind_pure (fun _ => rfl) fun _ _ => trivial

theorem ConditionMembers.streams_condition {Early : Condition → Prop}
    (members : ConditionMembers) : Streams Early members.condition := by
  unfold ConditionMembers.condition
  split
  · exact streams_pure _
  · exact streams_throw _

/-- The value of a condition given as an array may be a number, and then the bracket behind
it is still to come. -/
theorem streams_readConditionElements [Dialect] {Early : Condition → Prop} (depth : Nat) :
    Streams Early (readConditionElements depth) := by
  refine (streams_anotherElement true).seq fun another => ?_
  split
  · refine (streams_stringOr _).seq fun field => (streams_anotherElement false).seq fun another => ?_
    split
    · refine (streams_readNamed _ _ _).seq fun operator =>
        (streams_anotherElement false).seq fun another => ?_
      have hclose : ∀ value : Option Literal,
          Streams Early (closeArray >>= fun _ => pure ⟨field, operator, value⟩) :=
        fun value => (streams_symbol (by decide)).seq fun _ => streams_pure _
      dsimp only
      split
      · exact (streams_readValue depth).bind hclose fun _ _ => .inl rfl
      · exact hclose none
    · exact streams_throw _
  · exact streams_throw _

theorem streams_readCondition [Dialect] {Early : Condition → Prop} (depth : Nat) :
    Streams Early (readCondition depth) := by
  refine continues_lead_bind fun b _ => ?_
  split
  · next harray =>
    exact streamsAt_enter harray (by decide) fun depth' _ => streams_readConditionElements depth'
  · next hobject =>
    refine streamsAt_enter hobject (by decide) fun depth' _ => ?_
    exact (streams_members (ConditionMembers.takes_read depth')
      (ConditionMembers.streams_read depth') {}).seq fun members => members.streams_condition
  · exact (streams_unexpected _).at_byte b

theorem streams_readConditions [Dialect] {Early : List Condition → Prop} (depth : Nat) :
    Streams Early (readConditions depth) := by
  refine continues_lead_bind fun b _ => ?_
  split
  · next harray =>
    refine streamsAt_enter harray (by decide) fun depth' _ => ?_
    exact streams_elements (takes_readCondition depth') (streams_readCondition depth')
  · exact (streams_unexpected _).at_byte b

/-! ## Rule sets -/

theorem RuleSetMembers.streams_read [Dialect] (depth : Nat) (before : RuleSetMembers) :
    Streams (fun _ => True) (RuleSetMembers.read depth before) := by
  refine (streams_readMemberName _).seq fun member => ?_
  cases member with
  | connector =>
    exact (streams_readOnce _ _ streams_readConnectorOrNone).bind_pure (fun _ => rfl) fun _ _ => trivial
  | conditions =>
    exact (streams_readOnce _ _ (streams_readConditions depth)).bind_pure (fun _ => rfl) fun _ _ => trivial

theorem streams_readRuleSetElements [Dialect] {Early : RuleSet → Prop} (depth : Nat) :
    Streams Early (readRuleSetElements depth) := by
  refine (streams_anotherElement true).seq fun another => ?_
  split
  · refine streams_readConnectorOrNone.seq fun connector =>
      (streams_anotherElement false).seq fun another => ?_
    have hclose : ∀ conditions : List Condition,
        Streams Early (closeArray >>= fun _ => pure ⟨connector, conditions⟩) :=
      fun conditions => (streams_symbol (by decide)).seq fun _ => streams_pure _
    dsimp only
    split
    · exact (streams_readConditions depth).seq hclose
    · exact hclose []
  · exact (streams_symbol (by decide)).seq fun _ => streams_pure _

/-- The front of a rule set tells of the whole, and a rule set that is read from the front is
the one in the whole text. -/
theorem streams_readRuleSet [Dialect] (depth : Nat) :
    Streams (fun _ => False) (readRuleSet depth) := by
  refine continues_lead_bind fun b _ => ?_
  split
  · next harray =>
    exact streamsAt_enter harray (by decide) fun depth' _ => streams_readRuleSetElements depth'
  · next hobject =>
    refine streamsAt_enter hobject (by decide) fun depth' _ => ?_
    exact (streams_members (RuleSetMembers.takes_read depth')
      (RuleSetMembers.streams_read depth') {}).map_seq fun _ => rfl
  · exact (streams_unexpected _).at_byte b

end RecordFilter.Json
