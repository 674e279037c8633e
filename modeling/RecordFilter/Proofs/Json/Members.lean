import Mathlib
import RecordFilter.Proofs.Json.Decoding

/-!
# Decoding the members of an object

The members of an object fill slots, one for each member that there is (`Slots`).  A name
tells which slot, a slot may be filled once, and an unknown name is an error.  When all
members have been read, every slot holds what `atMostOne?` says of the members with its
names, in whatever order they came (`Slots.Fills.members`).
-/

namespace RecordFilter.Json

open Reader

variable {α κ σ : Type} {depth : Nat}

/-! ## Slots -/

/-- What a slot holds when one more value is given for it. -/
def fill? (before value : Option α) : Option (Option α) :=
  match before, value with
  | none, some a => some (some a)
  | _, _ => none

/-- What a slot holds when the values have been given for it one after the other. -/
def fillAll? (decode? : Tree → Option α) (before : Option α) (trees : List Tree) :
    Option (Option α) :=
  trees.foldlM (fun before tree => fill? before (decode? tree)) before

theorem fill?_eq_some_iff {before value filled : Option α} :
    fill? before value = some filled ↔ before = none ∧ ∃ a, value = some a ∧ filled = some a := by
  cases before <;> cases value <;> simp [fill?, eq_comm]

theorem fillAll?_cons (decode? : Tree → Option α) (before : Option α) (tree : Tree)
    (trees : List Tree) :
    fillAll? decode? before (tree :: trees) =
      (fill? before (decode? tree)).bind fun filled => fillAll? decode? filled trees :=
  List.foldlM_cons

/-- A slot that has to be filled twice is left with nothing. -/
theorem atMostOne?_eq_fillAll? (names : List String) (decode? : Tree → Option α)
    (members : List (String × Tree)) :
    atMostOne? names decode? members = fillAll? decode? none (valuesOf names members) := by
  unfold atMostOne?
  split
  · next h => rw [h]; rfl
  · next tree h =>
    rw [h, fillAll?_cons]
    cases decode? tree <;> rfl
  · next first second trees h =>
    rw [h, fillAll?_cons]
    cases decode? first with
    | none => rfl
    | some a =>
      show none = fillAll? decode? (some a) (second :: trees)
      rw [fillAll?_cons]
      rfl

theorem valuesOf_cons (names : List String) (name : String) (tree : Tree)
    (members : List (String × Tree)) :
    valuesOf names ((name, tree) :: members) =
      if name ∈ names then tree :: valuesOf names members else valuesOf names members := by
  by_cases h : name ∈ names <;> simp [valuesOf, h]

theorem onlyNamed_cons_iff {names : List String} {name : String} {tree : Tree}
    {members : List (String × Tree)} :
    onlyNamed names ((name, tree) :: members) ↔ name ∈ names ∧ onlyNamed names members := by
  simp [onlyNamed]

/-- The spellings of one member. -/
def namesOf [DecidableEq κ] (spellings : List (String × κ)) (k : κ) : List String :=
  (spellings.filter fun spelling => spelling.2 = k).map Prod.fst

theorem namesOf_subset [DecidableEq κ] (spellings : List (String × κ)) (k : κ) :
    namesOf spellings k ⊆ spellings.map Prod.fst :=
  List.map_subset _ (List.filter_subset_self _)

theorem lookup_eq_some_iff_mem_namesOf [DecidableEq κ] {spellings : List (String × κ)}
    (hnodup : (spellings.map Prod.fst).Nodup) {name : String} {k : κ} :
    spellings.lookup name = some k ↔ name ∈ namesOf spellings k := by
  induction spellings with
  | nil => simp [namesOf]
  | cons spelling spellings ih =>
    obtain ⟨name', k'⟩ := spelling
    rw [List.map_cons, List.nodup_cons] at hnodup
    rw [List.lookup_cons]
    by_cases hname : name = name'
    · subst hname
      rw [beq_self_eq_true]
      have hother : name ∉ namesOf spellings k := fun hmem =>
        hnodup.1 (namesOf_subset spellings k hmem)
      by_cases hk : k' = k
      · simp [namesOf, hk]
      · simp only [namesOf, List.filter_cons, hk, decide_false, Bool.false_eq_true, if_false]
        exact iff_of_false (fun h => hk (Option.some.inj h)) hother
    · rw [beq_false_of_ne hname]
      refine (ih hnodup.2).trans ?_
      by_cases hk : k' = k
      · simp [namesOf, hk, hname]
      · simp [namesOf, hk]

/-- Where the values of the members of an object are kept while it is read. -/
structure Slots (κ σ : Type) where
  Value : κ → Type
  get : σ → (k : κ) → Option (Value k)
  set : σ → (k : κ) → Option (Value k) → σ
  get_set_self : ∀ state k value, get (set state k value) k = value
  get_set_other : ∀ state k value k', k' ≠ k → get (set state k value) k' = get state k'
  ext : ∀ state state', (∀ k, get state k = get state' k) → state = state'

namespace Slots

variable (slots : Slots κ σ) (spellings : List (String × κ))
  (decode? : (k : κ) → Tree → Option (slots.Value k))

/-- The slots when one more member has been read, if its name is known and its slot empty. -/
def add? (before : σ) (member : String × Tree) : Option σ :=
  (spellings.lookup member.1).bind fun k =>
    (fill? (slots.get before k) (decode? k member.2)).map (slots.set before k)

theorem add?_of_lookup {name : String} {k : κ} (hk : spellings.lookup name = some k) (before : σ)
    (tree : Tree) :
    slots.add? spellings decode? before (name, tree) =
      (fill? (slots.get before k) (decode? k tree)).map (slots.set before k) := by
  rw [add?, hk, Option.bind_some]

/-- A member is given to the slot that its name belongs to, and to no other. -/
theorem valuesOf_cons_of_lookup [DecidableEq κ] (hnodup : (spellings.map Prod.fst).Nodup)
    {name : String} {k : κ} (hk : spellings.lookup name = some k) (tree : Tree)
    (members : List (String × Tree)) (k' : κ) :
    valuesOf (namesOf spellings k') ((name, tree) :: members) =
      if k = k' then tree :: valuesOf (namesOf spellings k') members
      else valuesOf (namesOf spellings k') members := by
  have hmem : name ∈ namesOf spellings k' ↔ k = k' := by
    rw [← lookup_eq_some_iff_mem_namesOf hnodup, hk, Option.some.injEq]
  simp only [valuesOf_cons, hmem]

/-- Filling the slot of the first member leaves the slots as they are for the others. -/
theorem fillAll?_cons_of_fill? [DecidableEq κ] (hnodup : (spellings.map Prod.fst).Nodup)
    {name : String} {k : κ} (hk : spellings.lookup name = some k) {before : σ} {tree : Tree}
    {filled : Option (slots.Value k)}
    (hfill : fill? (slots.get before k) (decode? k tree) = some filled)
    (members : List (String × Tree)) (k' : κ) :
    fillAll? (decode? k') (slots.get before k')
        (valuesOf (namesOf spellings k') ((name, tree) :: members)) =
      fillAll? (decode? k') (slots.get (slots.set before k filled) k')
        (valuesOf (namesOf spellings k') members) := by
  rw [valuesOf_cons_of_lookup spellings hnodup hk]
  by_cases heq : k = k'
  · subst heq
    rw [if_pos rfl, fillAll?_cons, hfill, slots.get_set_self]
    rfl
  · rw [if_neg heq, slots.get_set_other before k filled k' (Ne.symm heq)]

/-- What the members of an object leave in the slots.  The induction is on the members; each
of them fills the one slot that its name belongs to. -/
theorem foldlM_add?_eq_some_iff [DecidableEq κ] (hnodup : (spellings.map Prod.fst).Nodup)
    {members : List (String × Tree)} {before after : σ} :
    members.foldlM (slots.add? spellings decode?) before = some after ↔
      onlyNamed (spellings.map Prod.fst) members ∧ ∀ k,
        fillAll? (decode? k) (slots.get before k) (valuesOf (namesOf spellings k) members) =
          some (slots.get after k) := by
  induction members generalizing before with
  | nil =>
    simp only [List.foldlM_nil, onlyNamed, valuesOf, fillAll?, List.all_nil, List.filter_nil,
      List.map_nil, true_and]
    constructor
    · rintro ⟨⟩ k
      rfl
    · intro h
      exact congrArg some (slots.ext before after fun k => Option.some.inj (h k))
  | cons member members ih =>
    obtain ⟨name, tree⟩ := member
    rw [List.foldlM_cons, onlyNamed_cons_iff]
    cases hk : spellings.lookup name with
    | none =>
      have hunknown : name ∉ spellings.map Prod.fst := by
        intro hmem
        obtain ⟨spelling, hspelling, rfl⟩ := List.mem_map.1 hmem
        simpa using List.lookup_eq_none_iff.1 hk spelling hspelling
      simp [add?, hk, hunknown]
    | some k =>
      have hknown : name ∈ spellings.map Prod.fst :=
        namesOf_subset spellings k ((lookup_eq_some_iff_mem_namesOf hnodup).1 hk)
      rw [add?_of_lookup slots spellings decode? hk]
      cases hfill : fill? (slots.get before k) (decode? k tree) with
      | none =>
        refine iff_of_false nofun fun h => ?_
        have hnone := h.2 k
        rw [valuesOf_cons_of_lookup spellings hnodup hk, if_pos rfl, fillAll?_cons, hfill] at hnone
        cases hnone
      | some filled =>
        simp only [hknown, true_and,
          fillAll?_cons_of_fill? slots spellings decode? hnodup hk hfill]
        exact ih

end Slots

/-! ## Reading members -/

theorem readOnce_eq_ok_iff {value : Reader α} {decode? : Tree → Option α}
    (h : Decodes depth value decode?) {name : String} {before filled : Option α}
    {input rest : List UInt8} :
    readOnce name before value input = .ok (filled, rest) ↔
      ∃ tree, (colon >>= fun _ => Tree.read depth) input = .ok (tree, rest) ∧
        fill? before (decode? tree) = some filled := by
  simp only [unit_bind_eq_ok_iff, fill?_eq_some_iff]
  cases before with
  | some a => simp [readOnce]
  | none =>
    simp only [readOnce, map_eq_bind, bind_eq_ok_iff, h _ _ _, pure_apply, Except.ok.injEq,
      Prod.mk.injEq]
    grind

/-- A slot is filled with the value of a member. -/
theorem readOnce_bind_eq_ok_iff {value : Reader α} {decode? : Tree → Option α}
    (h : Decodes depth value decode?) (set : Option α → σ) {name : String} {before : Option α}
    {input rest : List UInt8} {state : σ} :
    (readOnce name before value >>= fun filled => pure (set filled)) input = .ok (state, rest) ↔
      ∃ tree, (colon >>= fun _ => Tree.read depth) input = .ok (tree, rest) ∧
        (fill? before (decode? tree)).map set = some state := by
  simp only [bind_eq_ok_iff (r := readOnce name before value), readOnce_eq_ok_iff h, pure_apply,
    Except.ok.injEq, Prod.mk.injEq, Option.map_eq_some_iff]
  grind

theorem readMemberName_eq_ok_iff {spellings : List (String × κ)} {member : κ}
    {input rest : List UInt8} :
    readMemberName spellings input = .ok (member, rest) ↔
      ∃ name, quotedText input = .ok (name, rest) ∧ spellings.lookup name = some member := by
  rw [readMemberName, bind_eq_ok_iff]
  refine exists_congr fun name => ?_
  cases hlookup : spellings.lookup name <;> simp

theorem Tree.readNamed_eq_ok_iff {member : String × Tree} {input rest : List UInt8} :
    Tree.readNamed depth input = .ok (member, rest) ↔
      ∃ middle, quotedText input = .ok (member.1, middle) ∧
        (colon >>= fun _ => Tree.read depth) middle = .ok (member.2, rest) := by
  obtain ⟨name, tree⟩ := member
  simp only [Tree.readNamed, bind_eq_ok_iff, pure_apply, Except.ok.injEq, Prod.mk.injEq]
  grind

namespace Slots

variable {slots : Slots κ σ} {spellings : List (String × κ)}
  {decode? : (k : κ) → Tree → Option (slots.Value k)} {read : σ → κ → Reader σ}

/-- What is asked of the reader of a member that goes by a known name: that it fills the slot
of that member. -/
def Fills (slots : Slots κ σ) (decode? : (k : κ) → Tree → Option (slots.Value k)) (depth : Nat)
    (read : σ → κ → Reader σ) : Prop :=
  ∀ before k input after rest, read before k input = .ok (after, rest) ↔
    ∃ tree, (colon >>= fun _ => Tree.read depth) input = .ok (tree, rest) ∧
      (fill? (slots.get before k) (decode? k tree)).map (slots.set before k) = some after

theorem Fills.readMember (h : slots.Fills decode? depth read) (before : σ) (input : List UInt8)
    (after : σ) (rest : List UInt8) :
    (readMemberName spellings >>= read before) input = .ok (after, rest) ↔
      ∃ member, Tree.readNamed depth input = .ok (member, rest) ∧
        slots.add? spellings decode? before member = some after := by
  simp only [bind_eq_ok_iff (r := readMemberName spellings), readMemberName_eq_ok_iff,
    h before _ _ after rest, Tree.readNamed_eq_ok_iff, add?, Option.bind_eq_some_iff, Prod.exists]
  grind

/-- The members of an object, as they come, leave the slots as the members with their names
do. -/
theorem Fills.members [DecidableEq κ] (h : slots.Fills decode? depth read)
    (htakes : ∀ before, Takes 1 (readMemberName spellings >>= read before))
    (hnodup : (spellings.map Prod.fst).Nodup) {start after : σ}
    (hstart : ∀ k, slots.get start k = none) {input rest : List UInt8} :
    Reader.members (fun before => readMemberName spellings >>= read before) start input =
        .ok (after, rest) ↔
      ∃ members, Sequence anotherMember closeObject (Tree.readNamed depth) true input members rest ∧
        onlyNamed (spellings.map Prod.fst) members ∧
        ∀ k, atMostOne? (namesOf spellings k) (decode? k) members = some (slots.get after k) := by
  rw [members_eq_ok_iff htakes h.readMember]
  refine exists_congr fun members => and_congr_right fun _ => ?_
  rw [slots.foldlM_add?_eq_some_iff spellings decode? hnodup]
  simp only [hstart, atMostOne?_eq_fillAll?]

end Slots

end RecordFilter.Json
