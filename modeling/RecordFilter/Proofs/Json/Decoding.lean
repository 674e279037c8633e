import Mathlib
import RecordFilter.Proofs.Json.Document
import RecordFilter.Proofs.Json.Form
import RecordFilter.Proofs.Json.Loop

/-!
# Decoding as the text is read

A reader that decodes while it reads does the same as one that reads a whole tree and decodes
that, as far as success goes: this is `Decodes`.  The tree takes the same text, so it also
breaks off at the same places.

There is one law for each way in which readers are put together.  A reader that looks at what
the next value is has one obligation for each kind of value (`decodes_of_lead`); arrays and
objects are handed to `DecodesElements` and `DecodesMembers`, which speak of the items that
are still to come.
-/

namespace RecordFilter.Json

open Reader

variable {α β κ σ : Type} {depth : Nat}

/-! ## Looking at the next value -/

theorem Reader.lead_of_lead {input rest : List UInt8} {kind : Lead}
    (h : lead input = .ok (kind, rest)) : lead rest = .ok (kind, rest) := by
  obtain ⟨b, middle, hpeek, hpure⟩ := bind_eq_ok_iff.1 h
  cases hpure
  exact bind_of_ok (peek_of_peek hpeek)

namespace Tree

/-- What a tree is announced by. -/
def announcement : Tree → Lead
  | .null => .null
  | .bool true => .true
  | .bool false => .false
  | .number _ => .number
  | .string _ => .string
  | .array _ => .array
  | .object _ => .object

/-- Takes a member with its name. -/
def readNamed (depth : Nat) : Reader (String × Tree) := do
  let name ← quotedText
  colon
  let tree ← Tree.read depth
  pure (name, tree)

/-- Takes a value that has been announced. -/
def readAs (depth : Nat) : Lead → Reader Tree
  | .null => do nullWord; pure .null
  | .true => do trueWord; pure (.bool true)
  | .false => do falseWord; pure (.bool false)
  | .number => .number <$> readNumber
  | .string => .string <$> quotedText
  | .array => enter depth fun depth => do
    let elements ← elements (read depth)
    pure (.array elements)
  | .object => enter depth fun depth => do
    let members ← members (readMember (read depth)) []
    pure (.object members.reverse)
  | .other => throw .malformed

theorem read_eq_lead_bind (depth : Nat) : read depth = lead >>= readAs depth := by
  cases depth <;> rfl

theorem read_of_lead {input rest : List UInt8} {kind : Lead} (h : lead input = .ok (kind, rest)) :
    read depth input = readAs depth kind rest := by
  rw [read_eq_lead_bind, bind_of_ok h]

theorem announcement_of_readAs {kind : Lead} {input rest : List UInt8} {tree : Tree}
    (h : readAs depth kind input = .ok (tree, rest)) : tree.announcement = kind := by
  cases kind with
  | null | true | false =>
    obtain ⟨_, _, -, hpure⟩ := bind_eq_ok_iff.1 h
    cases hpure
    rfl
  | number | string =>
    rw [readAs, map_eq_bind] at h
    obtain ⟨_, _, -, hpure⟩ := bind_eq_ok_iff.1 h
    cases hpure
    rfl
  | array | object =>
    cases depth with
    | zero => cases h
    | succ depth =>
      obtain ⟨_, _, -, h⟩ := bind_eq_ok_iff.1 h
      obtain ⟨_, _, -, hpure⟩ := bind_eq_ok_iff.1 h
      cases hpure
      rfl
  | other => cases h

end Tree

/-! ## Readers that decode -/

/-- A reader that succeeds when a tree can be read and decoded, with what that gives. -/
def Decodes (depth : Nat) (r : Reader α) (decode? : Tree → Option α) : Prop :=
  ∀ input a rest, r input = .ok (a, rest) ↔
    ∃ tree, Tree.read depth input = .ok (tree, rest) ∧ decode? tree = some a

/-- The same for a value that has been announced. -/
def DecodesAs (depth : Nat) (kind : Lead) (r : Reader α) (decode? : Tree → Option α) : Prop :=
  ∀ input, lead input = .ok (kind, input) → ∀ a rest, r input = .ok (a, rest) ↔
    ∃ tree, Tree.readAs depth kind input = .ok (tree, rest) ∧ decode? tree = some a

/-- A reader that takes nothing, and succeeds if there is something to return. -/
def Yields (r : Reader α) (outcome : Option α) : Prop :=
  ∀ input a rest, r input = .ok (a, rest) ↔ outcome = some a ∧ rest = input

/-- A reader that never succeeds. -/
def Fails (r : Reader α) : Prop :=
  ∀ input a rest, r input ≠ .ok (a, rest)

theorem yields_pure (a : α) : Yields (pure a : Reader α) (some a) := by
  intro input b rest
  simp [eq_comm]

theorem yields_named (ofName? : String → Option α) (names : List String) (name : String) :
    Yields (named ofName? names name) (ofName? name) := by
  intro input a rest
  cases h : ofName? name with
  | none => simp [named, h]
  | some b => simp [named, h, eq_comm]

theorem Yields.map {r : Reader α} {outcome : Option α} (h : Yields r outcome) (g : α → β) :
    Yields (g <$> r) (outcome.map g) := by
  intro input b rest
  rw [map_eq_bind, bind_eq_ok_iff]
  simp only [h input, pure_apply, Except.ok.injEq, Prod.mk.injEq, Option.map_eq_some_iff]
  grind

theorem fails_throw (fault : Fault) : Fails (throw fault : Reader α) := by
  intro input a rest h
  cases h

theorem fails_unexpected (expected : String) : Fails (unexpected expected : Reader α) := by
  intro input a rest h
  obtain ⟨_, _, -, hthrow⟩ := bind_eq_ok_iff.1 h
  cases hthrow

theorem decodes_read (depth : Nat) : Decodes depth (Tree.read depth) some := by
  intro input a rest
  simp

theorem Decodes.bind {r : Reader α} {decode? : Tree → Option α} (h : Decodes depth r decode?)
    {k : α → Reader β} {g : α → Option β} (hk : ∀ a, Yields (k a) (g a)) :
    Decodes depth (r >>= k) fun tree => (decode? tree).bind g := by
  intro input b rest
  rw [bind_eq_ok_iff]
  simp only [h input, hk _ _ b rest, Option.bind_eq_some_iff]
  grind

theorem DecodesAs.bind {kind : Lead} {r : Reader α} {decode? : Tree → Option α}
    (h : DecodesAs depth kind r decode?) {k : α → Reader β} {g : α → Option β}
    (hk : ∀ a, Yields (k a) (g a)) :
    DecodesAs depth kind (r >>= k) fun tree => (decode? tree).bind g := by
  intro input hlead b rest
  rw [bind_eq_ok_iff]
  simp only [h input hlead, hk _ _ b rest, Option.bind_eq_some_iff]
  grind

theorem Decodes.map {r : Reader α} {decode? : Tree → Option α} (h : Decodes depth r decode?)
    (g : α → β) : Decodes depth (g <$> r) fun tree => (decode? tree).map g := by
  rw [map_eq_bind]
  intro input b rest
  rw [h.bind fun a => yields_pure (g a)]
  simp [Option.bind_eq_some_iff, Option.map_eq_some_iff]

/-- A reader of whole texts decodes if the reader of values does. -/
theorem Decodes.complete_eq_ok_iff {r : Reader α} {decode? : Tree → Option α}
    (h : Decodes maxDepth r decode?) {input : List UInt8} {a : α} :
    r.complete input = .ok a ↔ ∃ tree, Tree.parse input = .ok tree ∧ decode? tree = some a := by
  simp only [Tree.parse, Reader.complete_eq_ok_iff, h input a]
  constructor
  · rintro ⟨rest, ⟨tree, hread, hdecode⟩, hspace⟩
    exact ⟨tree, ⟨rest, hread, hspace⟩, hdecode⟩
  · rintro ⟨tree, ⟨rest, hread, hspace⟩, hdecode⟩
    exact ⟨rest, ⟨tree, hread, hdecode⟩, hspace⟩

/-- A reader that looks at what the next value is decodes if every branch does. -/
theorem decodes_of_lead {branch : Lead → Reader α} {decode? : Tree → Option α}
    (h : ∀ kind, DecodesAs depth kind (branch kind) decode?) :
    Decodes depth (lead >>= branch) decode? := by
  intro input a rest
  cases hlead : lead input with
  | error fault =>
    rw [bind_of_error hlead, Tree.read_eq_lead_bind, bind_of_error hlead]
    simp
  | ok out =>
    obtain ⟨kind, middle⟩ := out
    rw [bind_of_ok hlead, Tree.read_of_lead hlead]
    exact h kind middle (lead_of_lead hlead) a rest

/-- A branch may decode in another way, as long as that makes no difference to the values
that lead to it. -/
theorem Decodes.decodesAs {kind : Lead} {r : Reader α} {f g : Tree → Option α}
    (h : Decodes depth r f) (hfg : ∀ tree : Tree, tree.announcement = kind → f tree = g tree) :
    DecodesAs depth kind r g := by
  intro input hlead a rest
  rw [h input a rest, Tree.read_of_lead hlead]
  refine exists_congr fun tree => and_congr_right fun hread => ?_
  rw [hfg tree (Tree.announcement_of_readAs hread)]

theorem DecodesAs.congr {kind : Lead} {r : Reader α} {f g : Tree → Option α}
    (h : DecodesAs depth kind r f) (hfg : ∀ tree : Tree, tree.announcement = kind → f tree = g tree) :
    DecodesAs depth kind r g := by
  intro input hlead a rest
  rw [h input hlead a rest]
  refine exists_congr fun tree => and_congr_right fun hread => ?_
  rw [hfg tree (Tree.announcement_of_readAs hread)]

/-- A branch that fails decodes if nothing that leads to it can be decoded. -/
theorem Fails.decodesAs {kind : Lead} {r : Reader α} {decode? : Tree → Option α} (h : Fails r)
    (hnone : ∀ tree : Tree, tree.announcement = kind → decode? tree = none) :
    DecodesAs depth kind r decode? := by
  intro input _ a rest
  refine iff_of_false (h input a rest) ?_
  rintro ⟨tree, hread, hsome⟩
  rw [hnone tree (Tree.announcement_of_readAs hread)] at hsome
  cases hsome

theorem decodesAs_null {a : α} {decode? : Tree → Option α} (h : decode? .null = some a) :
    DecodesAs depth .null (nullWord >>= fun _ => pure a) decode? := by
  intro input _ b rest
  simp only [Tree.readAs, bind_eq_ok_iff, pure_apply, Except.ok.injEq, Prod.mk.injEq]
  grind

theorem decodesAs_quotedText : DecodesAs depth .string quotedText Tree.text? := by
  intro input _ s rest
  rw [Tree.readAs, map_eq_bind]
  simp only [bind_eq_ok_iff, pure_apply, Except.ok.injEq, Prod.mk.injEq]
  constructor
  · intro h
    exact ⟨.string s, ⟨s, rest, h, rfl, rfl⟩, rfl⟩
  · rintro ⟨_, ⟨s', _, h, rfl, rfl⟩, ⟨⟩⟩
    exact h

/-! ## Arrays -/

/-- A reader of the elements that are still to come, and of the closing bracket. -/
def DecodesElements (depth : Nat) (first : Bool) (r : Reader α) (decode? : List Tree → Option α) :
    Prop :=
  ∀ input a rest, r input = .ok (a, rest) ↔
    ∃ trees, Sequence anotherElement closeArray (Tree.read depth) first input trees rest ∧
      decode? trees = some a

theorem decodesElements_read (depth : Nat) :
    DecodesElements depth true (elements (Tree.read depth)) some := by
  intro input trees rest
  rw [elements_eq_ok_iff (takes_tree depth)]
  simp

theorem Decodes.sequence {r : Reader α} {decode? : Tree → Option α} (h : Decodes depth r decode?)
    {first : Bool} {input rest : List UInt8} {as : List α} :
    Sequence anotherElement closeArray r first input as rest ↔
      ∃ trees, Sequence anotherElement closeArray (Tree.read depth) first input trees rest ∧
        trees.mapM decode? = some as := by
  constructor
  · intro hsequence
    induction hsequence with
    | done hanother hclose => exact ⟨[], .done hanother hclose, rfl⟩
    | item hanother hitem _ ih =>
      obtain ⟨tree, hread, hdecode⟩ := (h _ _ _).1 hitem
      obtain ⟨trees, hsequence, hmap⟩ := ih
      refine ⟨tree :: trees, .item hanother hread hsequence, ?_⟩
      rw [List.mapM_cons, hdecode, hmap]
      rfl
  · rintro ⟨trees, hsequence, hmap⟩
    induction hsequence generalizing as with
    | done hanother hclose =>
      cases hmap
      exact .done hanother hclose
    | item hanother hread _ ih =>
      rw [List.mapM_cons] at hmap
      simp only [Option.bind_eq_bind, Option.bind_eq_some_iff] at hmap
      obtain ⟨a, hdecode, as, hmap, hpure⟩ := hmap
      cases hpure
      exact .item hanother ((h _ _ _).2 ⟨_, hread, hdecode⟩) (ih hmap)

/-- Elements that are decoded one by one. -/
theorem Decodes.elements {r : Reader α} {decode? : Tree → Option α} (h : Decodes depth r decode?)
    (htakes : Takes 1 r) : DecodesElements depth true (elements r) (List.mapM decode?) := by
  intro input as rest
  rw [elements_eq_ok_iff htakes, h.sequence]

/-- A reader that asks whether there is another element. -/
theorem decodesElements_of_another {first : Bool} {more stop : Reader α}
    {decode? : List Tree → Option α}
    (hmore : ∀ input a rest, more input = .ok (a, rest) ↔ ∃ tree trees middle,
      Tree.read depth input = .ok (tree, middle) ∧
        Sequence anotherElement closeArray (Tree.read depth) false middle trees rest ∧
        decode? (tree :: trees) = some a)
    (hstop : ∀ input a rest, stop input = .ok (a, rest) ↔
      closeArray input = .ok ((), rest) ∧ decode? [] = some a) :
    DecodesElements depth first (anotherElement first >>= fun another => if another then more else stop)
      decode? := by
  intro input a rest
  rw [bind_eq_ok_iff]
  constructor
  · rintro ⟨another, middle, hanother, hbranch⟩
    cases another with
    | false =>
      obtain ⟨hclose, hdecode⟩ := (hstop middle a rest).1 hbranch
      exact ⟨[], .done hanother hclose, hdecode⟩
    | true =>
      obtain ⟨tree, trees, after, hread, hsequence, hdecode⟩ := (hmore middle a rest).1 hbranch
      exact ⟨tree :: trees, .item hanother hread hsequence, hdecode⟩
  · rintro ⟨trees, hsequence, hdecode⟩
    cases hsequence with
    | done hanother hclose =>
      exact ⟨false, _, hanother, (hstop _ a rest).2 ⟨hclose, hdecode⟩⟩
    | item hanother hread hsequence =>
      exact ⟨true, _, hanother, (hmore _ a rest).2 ⟨_, _, _, hread, hsequence, hdecode⟩⟩

/-- An element and then what the reader of the others makes of it. -/
theorem Decodes.more {r : Reader α} {f : Tree → Option α} (h : Decodes depth r f)
    {k : α → Reader β} {g : α → List Tree → Option β}
    (hk : ∀ a, DecodesElements depth false (k a) (g a)) {decode? : List Tree → Option β}
    (hdecode : ∀ tree trees, decode? (tree :: trees) = (f tree).bind fun a => g a trees)
    (input : List UInt8) (b : β) (rest : List UInt8) :
    (r >>= k) input = .ok (b, rest) ↔ ∃ tree trees middle,
      Tree.read depth input = .ok (tree, middle) ∧
        Sequence anotherElement closeArray (Tree.read depth) false middle trees rest ∧
        decode? (tree :: trees) = some b := by
  rw [bind_eq_ok_iff]
  simp only [h input, hk _ _ b rest, hdecode, Option.bind_eq_some_iff]
  grind

/-- A reader that takes the closing bracket without asking. -/
theorem decodesElements_close (a : α) {decode? : List Tree → Option α} (hnil : decode? [] = some a)
    (hcons : ∀ tree trees, decode? (tree :: trees) = none) :
    DecodesElements depth false (closeArray >>= fun _ => pure a) decode? := by
  intro input b rest
  have hiff : closeArray input = .ok ((), rest) ↔ _ :=
    separates_anotherElement.symbol_eq_ok_iff (by decide) false
  simp only [bind_eq_ok_iff, pure_apply, Except.ok.injEq, Prod.mk.injEq]
  constructor
  · rintro ⟨⟨⟩, _, hclose, rfl, rfl⟩
    obtain ⟨middle, hanother, hclose⟩ := hiff.1 hclose
    exact ⟨[], .done hanother hclose, hnil⟩
  · rintro ⟨trees, hsequence, hdecode⟩
    cases trees with
    | nil =>
      obtain rfl : a = b := Option.some.inj (hnil.symm.trans hdecode)
      exact ⟨(), rest, hiff.2 (sequence_nil_iff.1 hsequence), rfl, rfl⟩
    | cons tree trees =>
      rw [hcons] at hdecode
      cases hdecode

/-- Entering an array. -/
theorem decodesAs_array {body : Nat → Reader α} {decode? : Tree → Option α}
    (h : ∀ depth, DecodesElements depth true (body depth) fun trees => decode? (.array trees)) :
    DecodesAs depth .array (enter depth body) decode? := by
  intro input _ a rest
  cases depth with
  | zero =>
    refine iff_of_false (fails_throw _ input a rest) ?_
    rintro ⟨tree, hread, -⟩
    exact fails_throw _ input tree rest hread
  | succ depth =>
    simp only [enter, Tree.readAs, bind_eq_ok_iff, pure_apply, Except.ok.injEq, Prod.mk.injEq,
      h depth _ a rest, decodesElements_read depth _ _ _]
    grind

/-! ## Objects -/

/-- A reader of the members of an object, and of the closing brace. -/
def DecodesMembers (depth : Nat) (r : Reader α) (decode? : List (String × Tree) → Option α) : Prop :=
  ∀ input a rest, r input = .ok (a, rest) ↔
    ∃ trees, Sequence anotherMember closeObject (Tree.readNamed depth) true input trees rest ∧
      decode? trees = some a

theorem foldlM_cons_eq_reverse_append (as done : List α) :
    as.foldlM (fun done a => some (a :: done)) done = some (as.reverse ++ done) := by
  induction as generalizing done with
  | nil => rfl
  | cons a as ih =>
    rw [List.foldlM_cons, List.reverse_cons, List.append_assoc, List.singleton_append, ← ih]
    rfl

theorem Tree.takes_readMember (depth : Nat) (done : List (String × Tree)) :
    Takes 1 (Tree.readMember (Tree.read depth) done) :=
  takes_quotedText.bind_left fun _ => ((takes_symbol _).mono (Nat.zero_le 1)).bind_left fun _ =>
    ((takes_tree depth).mono (Nat.zero_le 1)).bind_left fun _ => takes_pure _

theorem Tree.readMember_eq_ok_iff {done done' : List (String × Tree)} {input rest : List UInt8} :
    Tree.readMember (Tree.read depth) done input = .ok (done', rest) ↔
      ∃ member, Tree.readNamed depth input = .ok (member, rest) ∧ some (member :: done) = some done' := by
  simp only [Tree.readMember, Tree.readNamed, bind_eq_ok_iff, pure_apply, Except.ok.injEq,
    Prod.mk.injEq, Option.some.injEq]
  grind

/-- The members of a tree, which are put in order only at the end. -/
theorem Tree.members_eq_ok_iff {done : List (String × Tree)} {input rest : List UInt8} :
    members (Tree.readMember (Tree.read depth)) [] input = .ok (done, rest) ↔
      Sequence anotherMember closeObject (Tree.readNamed depth) true input done.reverse rest := by
  rw [Reader.members_eq_ok_iff (Tree.takes_readMember depth) fun _ _ _ _ => Tree.readMember_eq_ok_iff]
  simp only [foldlM_cons_eq_reverse_append, List.append_nil, Option.some.injEq]
  constructor
  · rintro ⟨members, hsequence, rfl⟩
    rw [List.reverse_reverse]
    exact hsequence
  · intro hsequence
    exact ⟨done.reverse, hsequence, done.reverse_reverse⟩

/-- Entering an object. -/
theorem decodesAs_object {body : Nat → Reader α} {decode? : Tree → Option α}
    (h : ∀ depth, DecodesMembers depth (body depth) fun members => decode? (.object members)) :
    DecodesAs depth .object (enter depth body) decode? := by
  intro input _ a rest
  cases depth with
  | zero =>
    refine iff_of_false (fails_throw _ input a rest) ?_
    rintro ⟨tree, hread, -⟩
    exact fails_throw _ input tree rest hread
  | succ depth =>
    simp only [enter, Tree.readAs, bind_eq_ok_iff, pure_apply, Except.ok.injEq, Prod.mk.injEq,
      h depth _ a rest, Tree.members_eq_ok_iff]
    constructor
    · rintro ⟨b, tail, hnext, members, hsequence, hdecode⟩
      rw [← members.reverse_reverse] at hsequence
      refine ⟨.object members, ⟨b, tail, hnext, members.reverse, rest, hsequence, ?_, rfl⟩, hdecode⟩
      rw [List.reverse_reverse]
    · rintro ⟨_, ⟨b, tail, hnext, done, _, hsequence, rfl, rfl⟩, hdecode⟩
      exact ⟨b, tail, hnext, done.reverse, hsequence, hdecode⟩

end RecordFilter.Json
