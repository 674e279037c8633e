import Mathlib
import RecordFilter.Proofs.Json.Reader

/-!
# Successful runs of the loops

A loop succeeds when there is a finite run of its step that ends in a result
(`iterate_eq_ok_iff`).  For the elements of an array and the members of an object such a run
is a `Sequence`: what was read, item by item, and the closing byte.

The members of an object add to a state.  When adding looks only at what an item reader
returns, the state is the items folded (`members_eq_ok_iff`), and so the loop can be
understood without the state.
-/

namespace RecordFilter.Json.Reader

variable {σ α β : Type}

/-! ## Punctuation -/

theorem peek_eq_ok_iff {input rest : List UInt8} {b : UInt8} :
    peek input = .ok (b, rest) ↔ ∃ tail, input.dropWhile isSpace = b :: tail ∧ rest = b :: tail := by
  unfold peek
  split
  · next h => simp [h]
  · next h =>
    simp only [h, Except.ok.injEq, Prod.mk.injEq, List.cons.injEq]
    grind

theorem isSpace_of_dropWhile {input tail : List UInt8} {b : UInt8}
    (h : input.dropWhile isSpace = b :: tail) : isSpace b = false := by
  have hhead := List.head?_dropWhile_not isSpace input
  rw [h] at hhead
  exact hhead

/-- After white space has been passed over there is no more of it. -/
theorem peek_of_peek {input rest : List UInt8} {b : UInt8} (h : peek input = .ok (b, rest)) :
    peek rest = .ok (b, rest) := by
  obtain ⟨tail, hdrop, rfl⟩ := peek_eq_ok_iff.1 h
  exact peek_cons (isSpace_of_dropWhile hdrop)

/-- A reader that has been told what the next value is stands before the byte that told. -/
theorem lead_eq_ok_iff {input rest : List UInt8} {kind : Lead} :
    lead input = .ok (kind, rest) ↔
      ∃ b tail, input.dropWhile isSpace = b :: tail ∧ Lead.ofByte b = kind ∧ rest = b :: tail := by
  simp only [lead, bind_eq_ok_iff, peek_eq_ok_iff, pure_apply, Except.ok.injEq, Prod.mk.injEq]
  grind

theorem symbol_eq_ok_iff {expected : UInt8} {input rest : List UInt8} :
    symbol expected input = .ok ((), rest) ↔ input.dropWhile isSpace = expected :: rest := by
  rw [symbol, bind_eq_ok_iff]
  constructor
  · rintro ⟨b, middle, hpeek, htake⟩
    obtain ⟨tail, hdrop, rfl⟩ := peek_eq_ok_iff.1 hpeek
    split at htake
    · next hb =>
      cases htake
      rw [hdrop, hb]
    · cases htake
  · intro hdrop
    refine ⟨expected, expected :: rest, peek_eq_ok_iff.2 ⟨rest, hdrop, rfl⟩, ?_⟩
    rw [if_pos rfl]
    rfl

/-- What the readers have in common that ask whether there is another item: they see the
closing byte, or a byte that an item may begin with, before which there is a comma unless the
item is the first. -/
structure Separates (closing : UInt8) (begins : UInt8 → Prop) (another : Bool → Reader Bool) :
    Prop where
  none_iff : ∀ first input rest, another first input = .ok (false, rest) ↔
    ∃ tail, input.dropWhile isSpace = closing :: tail ∧ rest = closing :: tail
  first_iff : ∀ input rest, another true input = .ok (true, rest) ↔
    ∃ b tail, input.dropWhile isSpace = b :: tail ∧ begins b ∧ rest = b :: tail
  next_iff : ∀ input rest, another false input = .ok (true, rest) ↔
    ∃ after b tail, input.dropWhile isSpace = ','.toUInt8 :: after ∧
      after.dropWhile isSpace = b :: tail ∧ begins b ∧ rest = b :: tail

theorem peek_bind_apply (f : UInt8 → Reader α) (input : List UInt8) :
    (peek >>= f) input =
      match input.dropWhile isSpace with
      | [] => .error .endOfText
      | b :: tail => f b (b :: tail) := by
  split
  · next h =>
    have hpeek : peek input = .error .endOfText := by rw [peek, h]
    exact bind_of_error hpeek
  · next b tail h => exact bind_of_ok (peek_eq_ok_iff.2 ⟨tail, h, rfl⟩)

theorem next_bind_cons (f : UInt8 → Reader α) (b : UInt8) (tail : List UInt8) :
    (next >>= f) (b :: tail) = f b tail :=
  bind_of_ok (next_cons b tail)

theorem if_apply (c : Prop) [Decidable c] (r s : Reader α) (input : List UInt8) :
    (if c then r else s) input = if c then r input else s input := by
  split <;> rfl

theorem separates_anotherElement :
    Separates ']'.toUInt8 (fun b => b ≠ ']'.toUInt8) anotherElement := by
  have hcomma : ','.toUInt8 ≠ ']'.toUInt8 := by decide
  constructor <;> intros <;>
    simp only [anotherElement, peek_bind_apply, if_apply, pure_apply, throw_apply, next_bind_cons] <;>
    grind

theorem separates_anotherMember :
    Separates '\x7d'.toUInt8 (fun b => b = '"'.toUInt8) anotherMember := by
  have hcomma : ','.toUInt8 ≠ '\x7d'.toUInt8 := by decide
  have hquote : '"'.toUInt8 ≠ '\x7d'.toUInt8 := by decide
  constructor <;> intros <;>
    simp only [anotherMember, peek_bind_apply, if_apply, pure_apply, throw_apply, next_bind_cons] <;>
    grind

/-- The closing byte may be taken without asking first. -/
theorem Separates.symbol_eq_ok_iff {closing : UInt8} {begins : UInt8 → Prop}
    {another : Bool → Reader Bool} (h : Separates closing begins another)
    (hspace : isSpace closing = false) (first : Bool) {input rest : List UInt8} :
    symbol closing input = .ok ((), rest) ↔
      ∃ middle, another first input = .ok (false, middle) ∧ symbol closing middle = .ok ((), rest) := by
  rw [Reader.symbol_eq_ok_iff]
  constructor
  · intro hdrop
    exact ⟨closing :: rest, (h.none_iff first input _).2 ⟨rest, hdrop, rfl⟩, symbol_cons hspace⟩
  · rintro ⟨middle, hanother, hclose⟩
    obtain ⟨tail, hdrop, rfl⟩ := (h.none_iff first input middle).1 hanother
    rw [symbol_cons hspace] at hclose
    cases hclose
    exact hdrop

/-! ## The loop -/

/-- The runs of a step that end in a result. -/
inductive Run (step : σ → Reader (σ ⊕ β)) : σ → List UInt8 → β → List UInt8 → Prop
  | result {state : σ} {input rest : List UInt8} {b : β} :
      step state input = .ok (.inr b, rest) → Run step state input b rest
  | again {state state' : σ} {input middle rest : List UInt8} {b : β} :
      step state input = .ok (.inl state', middle) → Run step state' middle b rest →
      Run step state input b rest

/-- The loop returns what its runs end in.  The induction is on the length of the text, which
every repeated step makes shorter. -/
theorem iterate_eq_ok_iff {step : σ → Reader (σ ⊕ β)} (hstep : Shrinks step) {state : σ}
    {input rest : List UInt8} {b : β} :
    iterate step state input = .ok (b, rest) ↔ Run step state input b rest := by
  constructor
  · intro hok
    induction hn : input.length using Nat.strong_induction_on generalizing state input with
    | _ n ih =>
      rw [iterate_of_shrinks hstep] at hok
      split at hok
      · cases hok
      · next hresult =>
        cases hok
        exact .result hresult
      · next state' middle hagain =>
        have hshorter := hstep state input state' middle hagain
        exact .again hagain (ih middle.length (by omega) hok rfl)
  · intro hrun
    induction hrun with
    | result hresult => rw [iterate_of_shrinks hstep, hresult]
    | again hagain _ ih =>
      rw [iterate_of_shrinks hstep, hagain]
      exact ih

/-! ## Items between brackets -/

/-- Items that are read one after the other, given what tells whether there is another and
what takes the closing byte. -/
inductive Sequence (another : Bool → Reader Bool) (close : Reader Unit) (item : Reader α) :
    Bool → List UInt8 → List α → List UInt8 → Prop
  | done {first : Bool} {input middle rest : List UInt8} :
      another first input = .ok (false, middle) → close middle = .ok ((), rest) →
      Sequence another close item first input [] rest
  | item {first : Bool} {input middle after rest : List UInt8} {a : α} {as : List α} :
      another first input = .ok (true, middle) → item middle = .ok (a, after) →
      Sequence another close item false after as rest →
      Sequence another close item first input (a :: as) rest

section Sequence

variable {another : Bool → Reader Bool} {close : Reader Unit} {item : Reader α}
  {first : Bool} {input rest : List UInt8} {a : α} {as : List α}

theorem sequence_nil_iff : Sequence another close item first input [] rest ↔
    ∃ middle, another first input = .ok (false, middle) ∧ close middle = .ok ((), rest) := by
  constructor
  · rintro (⟨hanother, hclose⟩ | _)
    exact ⟨_, hanother, hclose⟩
  · rintro ⟨middle, hanother, hclose⟩
    exact .done hanother hclose

theorem sequence_cons_iff : Sequence another close item first input (a :: as) rest ↔
    ∃ middle after, another first input = .ok (true, middle) ∧ item middle = .ok (a, after) ∧
      Sequence another close item false after as rest := by
  constructor
  · rintro (_ | ⟨hanother, hitem, hrest⟩)
    exact ⟨_, _, hanother, hitem, hrest⟩
  · rintro ⟨middle, after, hanother, hitem, hrest⟩
    exact .item hanother hitem hrest

end Sequence

/-! ## Arrays -/

section Elements

variable {element : Reader α} {input rest : List UInt8}

theorem elementStep_eq_ok_iff {done : List α} {out : List α ⊕ List α} :
    elementStep element done input = .ok (out, rest) ↔
      (∃ middle, anotherElement done.isEmpty input = .ok (false, middle) ∧
        closeArray middle = .ok ((), rest) ∧ out = .inr done.reverse) ∨
      (∃ middle a, anotherElement done.isEmpty input = .ok (true, middle) ∧
        element middle = .ok (a, rest) ∧ out = .inl (a :: done)) := by
  constructor
  · intro hok
    obtain ⟨another, middle, hanother, hok⟩ := bind_eq_ok_iff.1 hok
    cases another with
    | false =>
      obtain ⟨⟨⟩, after, hclose, hpure⟩ := bind_eq_ok_iff.1 hok
      cases hpure
      exact .inl ⟨middle, hanother, hclose, rfl⟩
    | true =>
      obtain ⟨a, after, helement, hpure⟩ := bind_eq_ok_iff.1 hok
      cases hpure
      exact .inr ⟨middle, a, hanother, helement, rfl⟩
  · rintro (⟨middle, hanother, hclose, rfl⟩ | ⟨middle, a, hanother, helement, rfl⟩)
    · rw [elementStep, bind_of_ok hanother]
      exact bind_of_ok hclose
    · rw [elementStep, bind_of_ok hanother]
      exact bind_of_ok helement

theorem sequence_of_run {done as : List α}
    (hrun : Run (elementStep element) done input as rest) :
    ∃ more, as = done.reverse ++ more ∧
      Sequence anotherElement closeArray element done.isEmpty input more rest := by
  induction hrun with
  | result hresult =>
    obtain ⟨middle, hanother, hclose, hout⟩ | ⟨_, _, _, _, ⟨⟩⟩ := elementStep_eq_ok_iff.1 hresult
    cases hout
    exact ⟨[], (List.append_nil _).symm, .done hanother hclose⟩
  | again hagain _ ih =>
    obtain ⟨_, _, _, ⟨⟩⟩ | ⟨middle, a, hanother, helement, hout⟩ := elementStep_eq_ok_iff.1 hagain
    cases hout
    obtain ⟨more, hmore, hsequence⟩ := ih
    refine ⟨a :: more, ?_, .item hanother helement hsequence⟩
    rw [hmore, List.reverse_cons, List.append_assoc, List.singleton_append]

theorem run_of_sequence {first : Bool} {done more : List α}
    (hsequence : Sequence anotherElement closeArray element first input more rest)
    (hfirst : done.isEmpty = first) :
    Run (elementStep element) done input (done.reverse ++ more) rest := by
  induction hsequence generalizing done with
  | done hanother hclose =>
    rw [List.append_nil]
    exact .result (elementStep_eq_ok_iff.2 (.inl ⟨_, hfirst ▸ hanother, hclose, rfl⟩))
  | @item _ _ _ _ _ a more hanother helement _ ih =>
    have hrest := @ih (a :: done) rfl
    rw [List.reverse_cons, List.append_assoc, List.singleton_append] at hrest
    exact .again (elementStep_eq_ok_iff.2 (.inr ⟨_, a, hfirst ▸ hanother, helement, rfl⟩)) hrest

theorem elements_eq_ok_iff (htakes : Takes 1 element) {as : List α} :
    elements element input = .ok (as, rest) ↔
      Sequence anotherElement closeArray element true input as rest := by
  rw [elements, iterate_eq_ok_iff (elementStep_shrinks htakes)]
  constructor
  · intro hrun
    obtain ⟨more, rfl, hsequence⟩ := sequence_of_run hrun
    exact hsequence
  · intro hsequence
    exact run_of_sequence hsequence rfl

end Elements

/-! ## Objects -/

section Members

variable {member : σ → Reader σ} {item : Reader α} {add : σ → α → Option σ}
  {input rest : List UInt8}

theorem memberStep_eq_ok_iff {first : Bool} {state : σ} {out : Bool × σ ⊕ σ} :
    memberStep member (first, state) input = .ok (out, rest) ↔
      (∃ middle, anotherMember first input = .ok (false, middle) ∧
        closeObject middle = .ok ((), rest) ∧ out = .inr state) ∨
      (∃ middle state', anotherMember first input = .ok (true, middle) ∧
        member state middle = .ok (state', rest) ∧ out = .inl (false, state')) := by
  constructor
  · intro hok
    obtain ⟨another, middle, hanother, hok⟩ := bind_eq_ok_iff.1 hok
    cases another with
    | false =>
      obtain ⟨⟨⟩, after, hclose, hpure⟩ := bind_eq_ok_iff.1 hok
      cases hpure
      exact .inl ⟨middle, hanother, hclose, rfl⟩
    | true =>
      obtain ⟨state', after, hread, hpure⟩ := bind_eq_ok_iff.1 hok
      cases hpure
      exact .inr ⟨middle, state', hanother, hread, rfl⟩
  · rintro (⟨middle, hanother, hclose, rfl⟩ | ⟨middle, state', hanother, hread, rfl⟩)
    · rw [memberStep, bind_of_ok hanother]
      exact bind_of_ok hclose
    · rw [memberStep, bind_of_ok hanother]
      exact bind_of_ok hread

theorem sequence_of_run_members
    (hmember : ∀ state input state' rest, member state input = .ok (state', rest) →
      ∃ a, item input = .ok (a, rest) ∧ add state a = some state') {loop : Bool × σ} {result : σ}
    (hrun : Run (memberStep member) loop input result rest) :
    ∃ as, Sequence anotherMember closeObject item loop.1 input as rest ∧
      as.foldlM add loop.2 = some result := by
  induction hrun with
  | result hresult =>
    obtain ⟨middle, hanother, hclose, hout⟩ | ⟨_, _, _, _, ⟨⟩⟩ := memberStep_eq_ok_iff.1 hresult
    cases hout
    exact ⟨[], .done hanother hclose, rfl⟩
  | again hagain _ ih =>
    obtain ⟨_, _, _, ⟨⟩⟩ | ⟨middle, state', hanother, hread, hout⟩ := memberStep_eq_ok_iff.1 hagain
    cases hout
    obtain ⟨a, hitem, hadd⟩ := hmember _ _ _ _ hread
    obtain ⟨as, hsequence, hfold⟩ := ih
    refine ⟨a :: as, .item hanother hitem hsequence, ?_⟩
    rw [List.foldlM_cons, hadd]
    exact hfold

theorem run_members_of_sequence
    (hmember : ∀ state input state' rest a, item input = .ok (a, rest) → add state a = some state' →
      member state input = .ok (state', rest)) {first : Bool} {state result : σ} {as : List α}
    (hsequence : Sequence anotherMember closeObject item first input as rest)
    (hfold : as.foldlM add state = some result) :
    Run (memberStep member) (first, state) input result rest := by
  induction hsequence generalizing state with
  | done hanother hclose =>
    cases hfold
    exact .result (memberStep_eq_ok_iff.2 (.inl ⟨_, hanother, hclose, rfl⟩))
  | item hanother hitem _ ih =>
    rw [List.foldlM_cons, Option.bind_eq_bind, Option.bind_eq_some_iff] at hfold
    obtain ⟨state', hadd, hfold⟩ := hfold
    have hread := hmember state _ state' _ _ hitem hadd
    exact .again (memberStep_eq_ok_iff.2 (.inr ⟨_, state', hanother, hread, rfl⟩)) (ih hfold)

/-- The members that a loop over members reads, each of them an item that is added to the
state. -/
theorem members_eq_ok_iff (htakes : ∀ state, Takes 1 (member state))
    (hmember : ∀ state input state' rest, member state input = .ok (state', rest) ↔
      ∃ a, item input = .ok (a, rest) ∧ add state a = some state') {start result : σ} :
    members member start input = .ok (result, rest) ↔
      ∃ as, Sequence anotherMember closeObject item true input as rest ∧
        as.foldlM add start = some result := by
  rw [members, iterate_eq_ok_iff (memberStep_shrinks htakes)]
  constructor
  · exact sequence_of_run_members fun state input state' rest => (hmember state input state' rest).1
  · rintro ⟨as, hsequence, hfold⟩
    exact run_members_of_sequence
      (fun state input state' rest a hitem hadd => (hmember state input state' rest).2 ⟨a, hitem, hadd⟩)
      hsequence hfold

end Members

end RecordFilter.Json.Reader
