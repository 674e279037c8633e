import Mathlib
import RecordFilter.Json.Decode
import RecordFilter.Proofs.Json.WholeNumeral
import RecordFilter.Proofs.Json.StringLanguage

/-!
# Values that were written are read back

The value of a condition is read as a JSON value first and asked afterwards whether it is a
literal; only `null` is told apart at once.  There is one statement for each kind of
literal.  The statement on numbers holds for texts that are not read as well: the fault of
the number is the fault of the value.
-/

namespace RecordFilter.Json

open Number Reader Text

theorem takes_quotedText : Takes 1 quotedText :=
  (takes_symbol _).bind_left fun _ => StringToken.takes_read

/-! ## Bytes that a value takes -/

theorem takes_readWith {array object : Reader Tree} (harray : Takes 1 array)
    (hobject : Takes 1 object) : Takes 1 (Tree.readWith array object) := by
  refine takes_lead.bind_right fun kind => ?_
  have hword : ∀ b bytes tree, Takes 1 (word (b :: bytes) >>= fun _ => (pure tree : Reader Tree)) :=
    fun b bytes tree =>
      ((takes_word_length (b :: bytes)).mono (Nat.succ_pos _)).bind_left fun _ => takes_pure _
  cases kind with
  | null => exact hword _ _ _
  | true => exact hword _ _ _
  | false => exact hword _ _ _
  | number => exact takes_readNumber.map _
  | string => exact takes_quotedText.map _
  | array => exact harray
  | object => exact hobject
  | other => exact takes_throw 1 _

theorem takes_tree (depth : Nat) : Takes 1 (Tree.read depth) := by
  induction depth with
  | zero => exact takes_readWith (takes_throw 1 _) (takes_throw 1 _)
  | succ depth ih =>
    have htree := ih.mono (Nat.zero_le 1)
    refine takes_readWith ?_ ?_
    · exact takes_next.bind_left fun _ => (takes_elements htree).bind_left fun _ => takes_pure _
    · refine takes_next.bind_left fun _ =>
        (takes_members (fun done => ?_) []).bind_left fun _ => takes_pure _
      exact (takes_quotedText.mono (Nat.zero_le 1)).bind_left fun _ =>
        ((takes_symbol _).mono (Nat.zero_le 1)).bind_left fun _ =>
          htree.bind_left fun _ => takes_pure _

theorem takes_readValue (depth : Nat) : Takes 0 (readValue depth) := by
  refine takes_lead.bind_left fun kind => ?_
  split
  · exact (takes_word _).bind_left fun _ => takes_pure _
  · refine Takes.map (((takes_tree depth).mono (Nat.zero_le 1)).bind_left fun tree => ?_) some
    split
    · exact takes_pure _
    · exact takes_throw 0 _

/-! ## Values -/

theorem Tree.read_eq_readWith (depth : Nat) :
    ∃ array object, Tree.read depth = Tree.readWith array object := by
  cases depth <;> exact ⟨_, _, rfl⟩

/-- What becomes of a JSON value where a literal is expected. -/
def literalOf (tree : Tree) : Except Fault (Option Literal) :=
  match Literal.ofTree? tree with
  | some literal => .ok (some literal)
  | none => .error (.mismatch .notLiteral)

/-- A value that is not `null` is read as a tree first. -/
theorem readValue_returns_of_tree (depth : Nat) {kind : Lead} {piece : List UInt8}
    {outcome : Except Fault Tree} (hlead : Leads kind piece) (hnull : kind ≠ .null)
    (htree : ∀ array object, Returns (Tree.readWith array object) piece outcome) :
    Returns (readValue depth) piece (outcome.bind literalOf) := by
  intro rest hrest
  have hvalue : readValue depth (piece ++ rest) = (some <$> readLiteral depth) (piece ++ rest) := by
    rw [readValue, bind_of_ok (hlead.lead_append rest)]
    cases kind with
    | null => exact absurd rfl hnull
    | _ => rfl
  obtain ⟨array, object, heq⟩ := Tree.read_eq_readWith depth
  have hread := htree array object rest hrest
  rw [← heq] at hread
  rw [hvalue, map_eq_bind]
  cases outcome with
  | error fault =>
    have hliteral : readLiteral depth (piece ++ rest) = .error fault := bind_of_error hread
    rw [bind_of_error hliteral]
    rfl
  | ok tree =>
    show _ = (literalOf tree).map fun value => (value, rest)
    have hliteral : readLiteral depth (piece ++ rest) =
        (match Literal.ofTree? tree with
          | some literal => pure literal
          | none => throw (.mismatch .notLiteral) : Reader Literal) rest :=
      bind_of_ok hread
    rw [literalOf]
    cases htype : Literal.ofTree? tree with
    | none =>
      rw [htype] at hliteral
      exact bind_of_error hliteral
    | some literal =>
      rw [htype] at hliteral
      exact bind_of_ok hliteral

theorem readValue_returns_number (depth : Nat) {piece : List UInt8}
    {outcome : Except Fault NumberValue} (hlead : Leads .number piece) (h : Returns readNumber piece outcome) :
    Returns (readValue depth) piece (outcome.map fun v => some (Literal.ofNumber v)) := by
  have htree : ∀ array object,
      Returns (Tree.readWith array object) piece (outcome.map .number) := by
    intro array object rest hrest
    rw [Tree.readWith, bind_of_ok (hlead.lead_append rest)]
    exact h.map Tree.number rest hrest
  have hvalue := readValue_returns_of_tree depth hlead (by decide) htree
  cases outcome with
  | error fault => exact hvalue
  | ok v => exact hvalue

theorem readValue_returns_string (depth : Nat) (s : String) :
    Returns (readValue depth) (bytesOf (StringToken.write s)) (.ok (some (.string s))) := by
  have hlead := (StringToken.quoted_write s).leads
  have htree : ∀ array object, Returns (Tree.readWith array object) (bytesOf (StringToken.write s))
      (.ok (.string s)) := by
    intro array object rest hrest
    rw [Tree.readWith, bind_of_ok (hlead.lead_append rest)]
    exact (StringToken.quotedText_returns_write s).map Tree.string rest hrest
  exact readValue_returns_of_tree depth hlead (by decide) htree

theorem readValue_returns_bool (depth : Nat) (b : Bool) :
    Returns (readValue depth) (bytesOf (boolText b)) (.ok (some (.bool b))) := by
  cases b with
  | false =>
    have hlead : Leads .false (bytesOf (boolText false)) :=
      ⟨'f'.toUInt8, _, rfl, by decide, by decide⟩
    have htree : ∀ array object, Returns (Tree.readWith array object) (bytesOf (boolText false))
        (.ok (.bool false)) := by
      intro array object rest _
      rw [Tree.readWith, bind_of_ok (hlead.lead_append rest)]
      exact bind_of_ok (word_append (bytesOf (boolText false)) rest)
    exact readValue_returns_of_tree depth hlead (by decide) htree
  | true =>
    have hlead : Leads .true (bytesOf (boolText true)) :=
      ⟨'t'.toUInt8, _, rfl, by decide, by decide⟩
    have htree : ∀ array object, Returns (Tree.readWith array object) (bytesOf (boolText true))
        (.ok (.bool true)) := by
      intro array object rest _
      rw [Tree.readWith, bind_of_ok (hlead.lead_append rest)]
      exact bind_of_ok (word_append (bytesOf (boolText true)) rest)
    exact readValue_returns_of_tree depth hlead (by decide) htree

theorem readValue_returns_null (depth : Nat) :
    Returns (readValue depth) (bytesOf "null".toList) (.ok none) := by
  intro rest _
  have hlead : Leads .null (bytesOf "null".toList) := ⟨'n'.toUInt8, _, rfl, by decide, by decide⟩
  rw [readValue, bind_of_ok (hlead.lead_append rest)]
  exact bind_of_ok (word_append (bytesOf "null".toList) rest)

end RecordFilter.Json
