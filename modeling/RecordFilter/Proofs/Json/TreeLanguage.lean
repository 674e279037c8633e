import Mathlib
import RecordFilter.Proofs.Json.Decoding
import RecordFilter.Proofs.Json.NumberLanguage
import RecordFilter.Proofs.Json.StringLanguage

/-!
# The texts that are read as trees

The reader of trees takes exactly the texts of the grammar.  There are two inductions, on how
deep containers nest and, inside a container, on its items; arrays and objects share the
second.

A text is read whatever stands behind it, as long as that cannot carry on a number.  White
space, commas and closing brackets cannot.
-/

namespace RecordFilter.Json

open Reader Text

variable {α : Type}

/-! ## Items between brackets -/

/-- White space does not carry on a number. -/
theorem delimited_spaces_append {spaces : List Char} (h : Spaces spaces) {rest : List UInt8}
    (hrest : Delimited rest) : Delimited (bytesOf spaces ++ rest) := by
  cases spaces with
  | nil => exact hrest
  | cons c spaces =>
    obtain ⟨hascii, hspace⟩ := isSpace_toUInt8 (h c List.mem_cons_self)
    rw [bytesOf_cons_ascii hascii]
    exact delimited_cons (isNumberByte_of_isSpace _ hspace)

/-- White space and a byte that is none, which is taken. -/
theorem symbol_spaces_append {spaces : List Char} (hspaces : Spaces spaces) {b : UInt8}
    (hb : isSpace b = false) (rest : List UInt8) :
    symbol b (bytesOf spaces ++ b :: rest) = .ok ((), rest) := by
  rw [symbol_eq_ok_iff, dropWhile_isSpace_append hspaces]
  exact List.dropWhile_cons_of_neg (by simp [hb])

/-- A closing character, and the reader that asks whether there is an item before it. -/
structure Closes (closing : Char) (begins : UInt8 → Prop) (another : Bool → Reader Bool) : Prop where
  ascii : closing.toNat < 0x80
  isSpace_eq_false : isSpace closing.toUInt8 = false
  isNumberByte_eq_false : isNumberByte closing.toUInt8 = false
  separates : Separates closing.toUInt8 begins another

theorem closes_array : Closes ']' (fun b => b ≠ ']'.toUInt8) anotherElement :=
  ⟨by decide, by decide, by decide, separates_anotherElement⟩

theorem closes_object : Closes '\x7d' (fun b => b = '"'.toUInt8) anotherMember :=
  ⟨by decide, by decide, by decide, separates_anotherMember⟩

namespace Closes

variable {closing : Char} {begins : UInt8 → Prop} {another : Bool → Reader Bool}
  (h : Closes closing begins another) {item : Reader α} {Item : List Char → α → Prop}
include h

/-- Behind an item the reader takes the items that follow. -/
theorem exists_following (hitem : Accepts item (Spaced Item)) {first : Bool}
    {input rest : List UInt8} {as : List α}
    (hsequence : Sequence another (symbol closing.toUInt8) item first input as rest)
    (hfirst : first = false) {cs : List Char} (hcs : input = bytesOf cs) :
    ∃ text after, cs = text ++ closing :: after ∧ Following Item text as ∧ rest = bytesOf after := by
  induction hsequence generalizing cs with
  | done hanother hclose =>
    subst hfirst hcs
    have hsymbol := (h.separates.symbol_eq_ok_iff h.isSpace_eq_false false).2 ⟨_, hanother, hclose⟩
    obtain ⟨_, after, rfl, ⟨spaces, _, rfl, hspaces, rfl⟩, hrest⟩ :=
      accepts_symbol h.ascii cs () _ hsymbol
    exact ⟨spaces, after, by simp, .done hspaces, hrest⟩
  | item hanother hread _ ih =>
    subst hfirst hcs
    obtain ⟨_, b, tail, hcomma, hbegins, -, rfl⟩ := (h.separates.next_iff _ _).1 hanother
    obtain ⟨before, middle, rfl, hbefore, hmiddle⟩ := exists_spaces_of_dropWhile hcomma
    obtain ⟨middle, rfl, rfl⟩ := exists_cons_of_bytesOf (by decide) hmiddle.symm
    obtain ⟨between, middle, rfl, hbetween, hmiddle⟩ := exists_spaces_of_dropWhile hbegins
    rw [hmiddle] at hread
    obtain ⟨_, middle, rfl, ⟨spaces, text, rfl, hspaces, htext⟩, hafter⟩ := hitem _ _ _ hread
    obtain ⟨following, after, rfl, hfollowing, hrest⟩ := ih rfl hafter
    refine ⟨before ++ ',' :: ((between ++ spaces) ++ (text ++ following)), after, by simp, ?_, hrest⟩
    exact .next hbefore (hbetween.append hspaces) htext hfollowing

/-- Behind an opening bracket the reader takes items and the closing bracket. -/
theorem exists_enclosed (hitem : Accepts item (Spaced Item)) (opening : Char) {cs : List Char}
    {rest : List UInt8} {as : List α}
    (hsequence : Sequence another (symbol closing.toUInt8) item true (bytesOf cs) as rest) :
    ∃ inside after, cs = inside ++ after ∧ Enclosed Item opening closing (opening :: inside) as ∧
      rest = bytesOf after := by
  cases as with
  | nil =>
    have hsymbol :=
      (h.separates.symbol_eq_ok_iff h.isSpace_eq_false true).2 (sequence_nil_iff.1 hsequence)
    obtain ⟨_, after, rfl, ⟨spaces, _, rfl, hspaces, rfl⟩, hrest⟩ :=
      accepts_symbol h.ascii cs () _ hsymbol
    exact ⟨spaces ++ [closing], after, rfl, .empty hspaces, hrest⟩
  | cons a as =>
    obtain ⟨_, afterItem, hanother, hread, hitems⟩ := sequence_cons_iff.1 hsequence
    obtain ⟨b, tail, hdrop, -, rfl⟩ := (h.separates.first_iff _ _).1 hanother
    obtain ⟨before, middle, rfl, hbefore, hmiddle⟩ := exists_spaces_of_dropWhile hdrop
    rw [hmiddle] at hread
    obtain ⟨_, middle, rfl, ⟨spaces, text, rfl, hspaces, htext⟩, hafter⟩ := hitem _ _ _ hread
    obtain ⟨following, after, rfl, hfollowing, hrest⟩ :=
      h.exists_following hitem hitems rfl hafter
    refine ⟨(before ++ spaces) ++ (text ++ (following ++ [closing])), after, by simp, ?_, hrest⟩
    exact .items (hbefore.append hspaces) htext hfollowing

/-- The closing character behind white space. -/
theorem sequence_nil {spaces : List Char} (hspaces : Spaces spaces) (first : Bool)
    (rest : List UInt8) :
    Sequence another (symbol closing.toUInt8) item first (bytesOf spaces ++ closing.toUInt8 :: rest)
      [] rest := by
  refine sequence_nil_iff.2 ((h.separates.symbol_eq_ok_iff h.isSpace_eq_false first).1 ?_)
  exact symbol_spaces_append hspaces h.isSpace_eq_false rest

theorem delimited_following {text : List Char} {as : List α} (hfollowing : Following Item text as)
    (rest : List UInt8) : Delimited (bytesOf text ++ closing.toUInt8 :: rest) := by
  cases hfollowing with
  | done hspaces => exact delimited_spaces_append hspaces (delimited_cons h.isNumberByte_eq_false)
  | next hbefore _ _ _ =>
    rw [bytesOf_append, bytesOf_cons_ascii (by decide), List.append_assoc, List.cons_append]
    exact delimited_spaces_append hbefore (delimited_cons (by decide))

section Complete

variable (hitem : ∀ text a, Item text a → Returns item (bytesOf text) (.ok a))
  (hbegins : ∀ text a, Item text a →
    ∃ b tail, bytesOf text = b :: tail ∧ isSpace b = false ∧ begins b)
include hitem hbegins

/-- The items that follow another are read. -/
theorem sequence_following {text : List Char} {as : List α} (hfollowing : Following Item text as)
    (rest : List UInt8) :
    Sequence another (symbol closing.toUInt8) item false (bytesOf text ++ closing.toUInt8 :: rest) as
      rest := by
  induction hfollowing with
  | done hspaces => exact h.sequence_nil hspaces false rest
  | @next before between text following a as hbefore hbetween htext hfollowing ih =>
    obtain ⟨b, tail, hbytes, hspace, hb⟩ := hbegins text a htext
    have hread := hitem text a htext _ (h.delimited_following hfollowing rest)
    rw [hbytes, List.cons_append] at hread
    simp only [bytesOf_append, bytesOf_cons_ascii (c := ',') (by decide), hbytes, List.append_assoc,
      List.cons_append]
    have hcomma := dropWhile_isSpace_append hbefore (','.toUInt8 ::
      (bytesOf between ++ b :: (tail ++ (bytesOf following ++ closing.toUInt8 :: rest))))
    rw [List.dropWhile_cons_of_neg (by decide)] at hcomma
    refine .item ((h.separates.next_iff _ _).2 ⟨_, b, _, hcomma, ?_, hb, rfl⟩) hread ih
    rw [dropWhile_isSpace_append hbetween, List.dropWhile_cons_of_neg (by simp [hspace])]

/-- Items and the closing character are read behind the opening one. -/
theorem sequence_enclosed {opening : Char} {text : List Char} {as : List α}
    (henclosed : Enclosed Item opening closing text as) (rest : List UInt8) :
    ∃ inside, text = opening :: inside ∧
      Sequence another (symbol closing.toUInt8) item true (bytesOf inside ++ rest) as rest := by
  cases henclosed with
  | empty hspaces =>
    refine ⟨_, rfl, ?_⟩
    rw [bytesOf_append, bytesOf_cons_ascii h.ascii, List.append_assoc]
    exact h.sequence_nil hspaces true rest
  | @items spaces text following a as hspaces htext hfollowing =>
    obtain ⟨b, tail, hbytes, hspace, hb⟩ := hbegins text a htext
    have hread := hitem text a htext _ (h.delimited_following hfollowing rest)
    rw [hbytes, List.cons_append] at hread
    refine ⟨_, rfl, ?_⟩
    simp only [bytesOf_append, bytesOf_cons_ascii h.ascii, bytesOf_nil, hbytes, List.append_assoc,
      List.cons_append, List.nil_append]
    refine .item ((h.separates.first_iff _ _).2 ⟨b, _, ?_, hb, rfl⟩) hread
      (h.sequence_following hitem hbegins hfollowing rest)
    rw [dropWhile_isSpace_append hspaces, List.dropWhile_cons_of_neg (by simp [hspace])]

end Complete

end Closes

/-! ## What is read is a text of the grammar -/

theorem Spaced.join {P : List Char → α → Prop} {spaces text : List Char} {a : α}
    (hspaces : Spaces spaces) (h : Spaced P text a) : Spaced P (spaces ++ text) a := by
  obtain ⟨spaces', body, rfl, hspaces', hbody⟩ := h
  exact ⟨spaces ++ spaces', body, (List.append_assoc _ _ _).symm, hspaces.append hspaces', hbody⟩

theorem Spaced.of_text {P : List Char → α → Prop} {text : List Char} {a : α} (h : P text a) :
    Spaced P text a :=
  ⟨[], text, rfl, spaces_nil, h⟩

theorem accepts_wordTree (text : List Char) (h : ∀ c ∈ text, c.toNat < 0x80) (tree : Tree) :
    Accepts (word (text.map Char.toUInt8) >>= fun _ => pure tree) fun text' tree' =>
      text' = text ∧ tree' = tree := by
  refine ((accepts_word text h).bind fun _ => accepts_pure tree).mono ?_
  rintro _ _ ⟨-, _, _, rfl, rfl, rfl, rfl⟩
  exact ⟨List.append_nil _, rfl⟩

theorem accepts_readNamed {depth : Nat} {Value : List Char → Tree → Prop}
    (h : Accepts (Tree.read depth) (Spaced Value)) :
    Accepts (Tree.readNamed depth) (Spaced (MemberText Value)) := by
  have hcolon := accepts_symbol (c := ':') (by decide)
  refine (accepts_quotedText.bind fun name => hcolon.bind fun _ => h.bind fun tree =>
    accepts_pure (name, tree)).mono ?_
  rintro _ _ ⟨name, _, _, rfl, ⟨spaces, nameText, rfl, hspaces, hname⟩, -, _, _, rfl,
    ⟨before, _, rfl, hbefore, rfl⟩, tree, _, _, rfl, ⟨between, text, rfl, hbetween, htext⟩, rfl, rfl⟩
  refine ⟨spaces, nameText ++ (before ++ ':' :: (between ++ text)), by simp, hspaces, ?_⟩
  exact .member hname hbefore hbetween htext

theorem eq_of_ofByte : ∀ b : UInt8, (Lead.ofByte b = .array → b = '['.toUInt8) ∧
    (Lead.ofByte b = .object → b = '\x7b'.toUInt8) := by
  decide +kernel

/-- Whatever a reader takes where a given character comes next is a text of a language. -/
def AcceptsAt (opening : Char) (r : Reader α) (P : List Char → α → Prop) : Prop :=
  ∀ cs tail a rest, bytesOf cs = opening.toUInt8 :: tail → r (bytesOf cs) = .ok (a, rest) →
    ∃ text after, cs = text ++ after ∧ P text a ∧ rest = bytesOf after

/-- A reader that takes the opening character without looking at it. -/
theorem Accepts.enter {opening : Char} (hopening : opening.toNat < 0x80) {body : Reader α}
    {P : List Char → α → Prop} (hbody : Accepts body fun inside a => P (opening :: inside) a) :
    AcceptsAt opening (next >>= fun _ => body) P := by
  intro cs tail a rest hcs hok
  obtain ⟨after, rfl, rfl⟩ := exists_cons_of_bytesOf hopening hcs
  rw [hcs, next_bind_cons] at hok
  obtain ⟨inside, after, rfl, htext, hrest⟩ := hbody after a rest hok
  exact ⟨opening :: inside, after, rfl, htext, hrest⟩

/-- Values that no container is part of, whatever arrays and objects are. -/
theorem accepts_readAs_leaf {Array : List Char → List Tree → Prop}
    {Object : List Char → List (String × Tree) → Prop} (depth : Nat) {kind : Lead}
    (harray : kind ≠ .array) (hobject : kind ≠ .object) :
    Accepts (Tree.readAs depth kind) (Spaced (ValueTextWith Numeral.value? Array Object)) := by
  cases kind with
  | null =>
    refine (accepts_wordTree ['n', 'u', 'l', 'l'] (by simp) .null).mono ?_
    rintro _ _ ⟨rfl, rfl⟩
    exact .of_text .null
  | true =>
    refine (accepts_wordTree ['t', 'r', 'u', 'e'] (by simp) (.bool true)).mono ?_
    rintro _ _ ⟨rfl, rfl⟩
    exact .of_text .true
  | false =>
    refine (accepts_wordTree ['f', 'a', 'l', 's', 'e'] (by simp) (.bool false)).mono ?_
    rintro _ _ ⟨rfl, rfl⟩
    exact .of_text .false
  | number =>
    refine (accepts_readNumber.map Tree.number).mono ?_
    rintro text _ ⟨v, ⟨t, htext, hvalue⟩, rfl⟩
    exact .of_text (.number htext hvalue)
  | string =>
    refine (accepts_quotedText.map Tree.string).mono ?_
    rintro _ _ ⟨s, ⟨spaces, text, rfl, hspaces, htext⟩, rfl⟩
    exact ⟨spaces, text, rfl, hspaces, .string htext⟩
  | array => exact absurd rfl harray
  | object => exact absurd rfl hobject
  | other => exact accepts_throw _ _

/-- A value, given what is read where an array or an object opens. -/
theorem accepts_tree_of_containers {Array : List Char → List Tree → Prop}
    {Object : List Char → List (String × Tree) → Prop} {depth : Nat}
    (harray : AcceptsAt '[' (Tree.readAs depth .array) (ValueTextWith Numeral.value? Array Object))
    (hobject : AcceptsAt '\x7b' (Tree.readAs depth .object)
      (ValueTextWith Numeral.value? Array Object)) :
    Accepts (Tree.read depth) (Spaced (ValueTextWith Numeral.value? Array Object)) := by
  intro cs tree rest hok
  rw [Tree.read_eq_lead_bind] at hok
  obtain ⟨kind, middle, hlead, hread⟩ := bind_eq_ok_iff.1 hok
  obtain ⟨b, tail, hdrop, hkind, rfl⟩ := lead_eq_ok_iff.1 hlead
  obtain ⟨spaces, after, rfl, hspaces, hafter⟩ := exists_spaces_of_dropWhile hdrop
  rw [hafter] at hread
  by_cases hkindArray : kind = .array
  · subst hkindArray
    rw [(eq_of_ofByte b).1 hkind] at hafter
    obtain ⟨text, last, rfl, htext, hrest⟩ := harray after tail tree rest hafter.symm hread
    exact ⟨spaces ++ text, last, by simp, ⟨spaces, text, rfl, hspaces, htext⟩, hrest⟩
  by_cases hkindObject : kind = .object
  · subst hkindObject
    rw [(eq_of_ofByte b).2 hkind] at hafter
    obtain ⟨text, last, rfl, htext, hrest⟩ := hobject after tail tree rest hafter.symm hread
    exact ⟨spaces ++ text, last, by simp, ⟨spaces, text, rfl, hspaces, htext⟩, hrest⟩
  · obtain ⟨text, last, rfl, htext, hrest⟩ :=
      accepts_readAs_leaf depth hkindArray hkindObject after tree rest hread
    exact ⟨spaces ++ text, last, by simp, .join hspaces htext, hrest⟩

/-- Whatever is read as a tree is a value of the grammar, behind white space. -/
theorem accepts_tree (depth : Nat) :
    Accepts (Tree.read depth) (Spaced (ValueText Numeral.value? depth)) := by
  induction depth with
  | zero =>
    refine accepts_tree_of_containers ?_ ?_
    · intro _ _ _ _ _ hok
      cases hok
    · intro _ _ _ _ _ hok
      cases hok
  | succ depth ih =>
    refine accepts_tree_of_containers (Accepts.enter (by decide) ?_) (Accepts.enter (by decide) ?_)
    · intro cs tree rest hok
      obtain ⟨trees, _, helements, hpure⟩ := bind_eq_ok_iff.1 hok
      cases hpure
      obtain ⟨inside, after, hcs, htext, hrest⟩ :=
        closes_array.exists_enclosed ih '[' ((elements_eq_ok_iff (takes_tree depth)).1 helements)
      exact ⟨inside, after, hcs, .array htext, hrest⟩
    · intro cs tree rest hok
      obtain ⟨done, _, hmembers, hpure⟩ := bind_eq_ok_iff.1 hok
      cases hpure
      obtain ⟨inside, after, hcs, htext, hrest⟩ :=
        closes_object.exists_enclosed (accepts_readNamed ih) '\x7b'
          (Tree.members_eq_ok_iff.1 hmembers)
      exact ⟨inside, after, hcs, .object htext, hrest⟩

/-! ## Every text of the grammar is read -/

theorem skips_tree (depth : Nat) : Skips (Tree.read depth) := by
  rw [Tree.read_eq_lead_bind]
  exact (skips_peek.bind _).bind _

theorem readNamed_returns {depth : Nat} {Value : List Char → Tree → Prop}
    (h : ∀ text tree, Value text tree → Returns (Tree.read depth) (bytesOf text) (.ok tree))
    {text : List Char} {member : String × Tree} (hmember : MemberText Value text member) :
    Returns (Tree.readNamed depth) (bytesOf text) (.ok member) := by
  intro rest hrest
  obtain @⟨nameText, before, between, text, name, tree, hname, hbefore, hbetween, htext⟩ := hmember
  have hdelimited : ∀ rest, Delimited (bytesOf before ++ ':'.toUInt8 :: rest) :=
    fun rest => delimited_spaces_append hbefore (delimited_cons (by decide))
  have hcolon : ∀ rest, colon (bytesOf before ++ ':'.toUInt8 :: rest) = .ok ((), rest) :=
    fun rest => symbol_spaces_append hbefore (by decide) rest
  have hvalue := (skips_tree depth between (bytesOf text ++ rest) hbetween).trans
    (h text tree htext rest hrest)
  rw [bytesOf_append, bytesOf_append, bytesOf_cons_ascii (by decide), bytesOf_append,
    List.append_assoc, List.append_assoc, List.cons_append, List.append_assoc, Tree.readNamed,
    bind_of_ok (quotedText_returns hname _ (hdelimited _)), bind_of_ok (hcolon _), bind_of_ok hvalue]
  rfl

theorem exists_quote_of_memberText {Value : List Char → Tree → Prop} {text : List Char}
    {member : String × Tree} (h : MemberText Value text member) :
    ∃ b tail, bytesOf text = b :: tail ∧ isSpace b = false ∧ b = '"'.toUInt8 := by
  obtain ⟨hname, -, -, -⟩ := h
  obtain ⟨tail, htail⟩ := hname.quoted_bytesOf
  rw [bytesOf_append, htail]
  exact ⟨_, _, rfl, by decide, rfl⟩

theorem Enclosed.exists_cons {Item : List Char → α → Prop} {opening closing : Char}
    {text : List Char} {as : List α} (h : Enclosed Item opening closing text as) :
    ∃ inside, text = opening :: inside := by
  cases h <;> exact ⟨_, rfl⟩

section Containers

variable {value? : Numeral → Option NumberValue} {Array : List Char → List Tree → Prop}
  {Object : List Char → List (String × Tree) → Prop} {text : List Char} {tree : Tree}

/-- A value of the grammar begins as its tree is announced. -/
theorem ValueTextWith.leads (h : ValueTextWith value? Array Object text tree)
    (harray : ∀ text elements, Array text elements → ∃ inside, text = '[' :: inside)
    (hobject : ∀ text members, Object text members → ∃ inside, text = '\x7b' :: inside) :
    Leads tree.announcement (bytesOf text) := by
  cases h with
  | null => exact ⟨'n'.toUInt8, _, rfl, by decide, by decide⟩
  | true => exact ⟨'t'.toUInt8, _, rfl, by decide, by decide⟩
  | false => exact ⟨'f'.toUInt8, _, rfl, by decide, by decide⟩
  | number htext _ =>
    have hread := Numeral.read_returns htext [] delimited_nil
    rw [List.append_nil] at hread
    exact leads_of_read hread
  | string htext => exact htext.quoted_bytesOf.leads
  | array htext =>
    obtain ⟨inside, rfl⟩ := harray _ _ htext
    exact ⟨'['.toUInt8, _, bytesOf_cons_ascii (by decide) _, by decide, rfl⟩
  | object htext =>
    obtain ⟨inside, rfl⟩ := hobject _ _ htext
    exact ⟨'\x7b'.toUInt8, _, bytesOf_cons_ascii (by decide) _, by decide, rfl⟩

/-- A value of the grammar is read when its arrays and objects are. -/
theorem ValueTextWith.readAs_returns {depth : Nat}
    (h : ValueTextWith Numeral.value? Array Object text tree)
    (harray : ∀ text elements, Array text elements →
      Returns (Tree.readAs depth .array) (bytesOf text) (.ok (.array elements)))
    (hobject : ∀ text members, Object text members →
      Returns (Tree.readAs depth .object) (bytesOf text) (.ok (.object members))) :
    Returns (Tree.readAs depth tree.announcement) (bytesOf text) (.ok tree) := by
  cases h with
  | null => exact fun rest _ => bind_of_ok (word_append (bytesOf ['n', 'u', 'l', 'l']) rest)
  | true => exact fun rest _ => bind_of_ok (word_append (bytesOf ['t', 'r', 'u', 'e']) rest)
  | false => exact fun rest _ => bind_of_ok (word_append (bytesOf ['f', 'a', 'l', 's', 'e']) rest)
  | number htext hvalue => exact (readNumber_returns htext hvalue).map Tree.number
  | string htext => exact (quotedText_returns htext).map Tree.string
  | array htext => exact harray _ _ htext
  | object htext => exact hobject _ _ htext

end Containers

theorem ValueText.leads {value? : Numeral → Option NumberValue} {depth : Nat} {text : List Char}
    {tree : Tree} (h : ValueText value? depth text tree) :
    Leads tree.announcement (bytesOf text) := by
  cases depth with
  | zero => exact ValueTextWith.leads h (fun _ _ h => h.elim) fun _ _ h => h.elim
  | succ depth =>
    exact ValueTextWith.leads h (fun _ _ h => h.exists_cons) fun _ _ h => h.exists_cons

theorem Tree.announcement_ne_other (tree : Tree) : tree.announcement ≠ .other := by
  cases tree with
  | bool b => cases b <;> decide
  | _ => exact nofun

theorem returns_of_readAs {depth : Nat} {kind : Lead} {piece : List UInt8}
    {outcome : Except Fault Tree} (hlead : Leads kind piece)
    (h : Returns (Tree.readAs depth kind) piece outcome) :
    Returns (Tree.read depth) piece outcome := by
  intro rest hrest
  rw [Tree.read_of_lead (hlead.lead_append rest)]
  exact h rest hrest

/-- Every value of the grammar is read. -/
theorem tree_returns {depth : Nat} {text : List Char} {tree : Tree}
    (h : ValueText Numeral.value? depth text tree) :
    Returns (Tree.read depth) (bytesOf text) (.ok tree) := by
  induction depth generalizing text tree with
  | zero =>
    exact returns_of_readAs h.leads
      (ValueTextWith.readAs_returns h (fun _ _ h => h.elim) fun _ _ h => h.elim)
  | succ depth ih =>
    refine returns_of_readAs h.leads (ValueTextWith.readAs_returns h ?_ ?_)
    · intro text elements harray rest _
      obtain ⟨inside, rfl, hsequence⟩ := closes_array.sequence_enclosed (fun _ _ h => ih h)
        (fun _ tree h => h.leads.starts tree.announcement_ne_other) harray rest
      have helements := (elements_eq_ok_iff (takes_tree depth)).2 hsequence
      rw [bytesOf_cons_ascii (by decide), List.cons_append]
      exact (next_bind_cons _ _ _).trans (bind_of_ok helements)
    · intro text members hobject rest _
      obtain ⟨inside, rfl, hsequence⟩ := closes_object.sequence_enclosed
        (fun _ _ h => readNamed_returns (fun _ _ h => ih h) h)
        (fun _ _ h => exists_quote_of_memberText h) hobject rest
      rw [← members.reverse_reverse] at hsequence
      have hmembers := Tree.members_eq_ok_iff.2 hsequence
      rw [bytesOf_cons_ascii (by decide), List.cons_append]
      refine (next_bind_cons _ _ _).trans ((bind_of_ok hmembers).trans ?_)
      rw [List.reverse_reverse]
      rfl

/-! ## Whole texts -/

/-- Whole texts that are read as trees are the documents of the grammar. -/
theorem Tree.complete_read_eq_ok_iff {depth : Nat} {text : String} {tree : Tree} :
    (Tree.read depth).complete (utf8 text) = .ok tree ↔
      DocumentText Numeral.value? depth text.toList tree := by
  rw [complete_eq_ok_iff, utf8_eq_bytesOf]
  constructor
  · rintro ⟨rest, hread, hspace⟩
    obtain ⟨_, after, hcs, ⟨before, value, rfl, hbefore, hvalue⟩, rfl⟩ :=
      accepts_tree depth _ _ _ hread
    rw [hcs, List.append_assoc]
    exact .document hbefore hvalue (spaces_of_isSpace (List.all_eq_true.1 hspace))
  · generalize text.toList = cs
    rintro ⟨hbefore, hvalue, hafter⟩
    rw [bytesOf_append, bytesOf_append]
    have hdelimited := delimited_spaces_append hafter delimited_nil
    rw [List.append_nil] at hdelimited
    refine ⟨_, (skips_tree depth _ _ hbefore).trans (tree_returns hvalue _ hdelimited), ?_⟩
    exact List.all_eq_true.2 (isSpace_of_mem_bytesOf hafter)

theorem Tree.parse_eq_ok_iff {text : String} {tree : Tree} :
    Tree.parse (utf8 text) = .ok tree ↔ DocumentText Numeral.value? maxDepth text.toList tree :=
  Tree.complete_read_eq_ok_iff

/-- A text is the document of one tree at most. -/
theorem DocumentText.unique {depth : Nat} {text : String} {tree tree' : Tree}
    (h : DocumentText Numeral.value? depth text.toList tree)
    (h' : DocumentText Numeral.value? depth text.toList tree') : tree = tree' := by
  have hread := Tree.complete_read_eq_ok_iff.2 h
  have hread' := Tree.complete_read_eq_ok_iff.2 h'
  exact Except.ok.inj (hread.symm.trans hread')

end RecordFilter.Json
