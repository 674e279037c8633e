import Mathlib
import RecordFilter.Json.Container

/-!
# Running readers

A reader is run step by step: `bind_of_ok` and `bind_of_error` run a sequence, and the
statements on single bytes run the readers that take or look at one.

`Takes` counts the bytes that a reader takes at least.  Steps of the two loops take one
(`elementStep_shrinks`, `memberStep_shrinks`), so that the equation of `iterate` applies to
them.
-/

namespace RecordFilter.Json.Reader

variable {α β : Type}

/-! ## Sequences -/

theorem bind_of_ok {r : Reader α} {f : α → Reader β} {input rest : List UInt8} {a : α}
    (h : r input = .ok (a, rest)) : (r >>= f) input = f a rest := by
  show (r input >>= fun out => f out.1 out.2) = _
  rw [h]
  rfl

theorem bind_of_error {r : Reader α} {f : α → Reader β} {input : List UInt8} {fault : Fault}
    (h : r input = .error fault) : (r >>= f) input = .error fault := by
  show (r input >>= fun out => f out.1 out.2) = _
  rw [h]
  rfl

/-- A sequence succeeds when both of its parts do. -/
theorem bind_eq_ok_iff {r : Reader α} {f : α → Reader β} {input rest : List UInt8} {b : β} :
    (r >>= f) input = .ok (b, rest) ↔
      ∃ a middle, r input = .ok (a, middle) ∧ f a middle = .ok (b, rest) := by
  cases hr : r input with
  | error fault =>
    rw [bind_of_error hr]
    simp
  | ok out =>
    obtain ⟨a, middle⟩ := out
    rw [bind_of_ok hr]
    simp

/-- What comes after a reader that returns nothing depends on the text alone. -/
theorem unit_bind_eq_ok_iff {r : Reader Unit} {f : Unit → Reader β} {input rest : List UInt8}
    {b : β} :
    (r >>= f) input = .ok (b, rest) ↔
      ∃ middle, r input = .ok ((), middle) ∧ f () middle = .ok (b, rest) := by
  rw [bind_eq_ok_iff]
  exact ⟨fun ⟨(), middle, h⟩ => ⟨middle, h⟩, fun ⟨middle, h⟩ => ⟨(), middle, h⟩⟩

@[simp] theorem pure_apply (a : α) (input : List UInt8) :
    (pure a : Reader α) input = .ok (a, input) := rfl

@[simp] theorem throw_apply (fault : Fault) (input : List UInt8) :
    (throw fault : Reader α) input = .error fault := rfl

theorem map_eq_bind (g : α → β) (r : Reader α) : g <$> r = r >>= fun a => pure (g a) :=
  map_eq_pure_bind g r

/-- A whole text is a value with white space behind it. -/
theorem complete_eq_ok_iff {r : Reader α} {input : List UInt8} {a : α} :
    r.complete input = .ok a ↔ ∃ rest, r input = .ok (a, rest) ∧ rest.all isSpace := by
  unfold complete
  cases h : r input with
  | error fault => simp
  | ok out =>
    obtain ⟨b, rest⟩ := out
    cases hspace : rest.all isSpace <;> simp only [hspace] <;> grind

/-! ## Bytes taken -/

/-- Whenever a reader succeeds, it has taken so many bytes at least. -/
def Takes (n : Nat) (r : Reader α) : Prop :=
  ∀ input a rest, r input = .ok (a, rest) → rest.length + n ≤ input.length

theorem Takes.mono {m n : Nat} {r : Reader α} (h : Takes n r) (hmn : m ≤ n) : Takes m r := by
  intro input a rest hok
  have := h input a rest hok
  omega

theorem takes_pure (a : α) : Takes 0 (pure a : Reader α) := by
  intro input b rest hok
  cases hok
  exact Nat.le_refl _

theorem takes_throw (n : Nat) (fault : Fault) : Takes n (throw fault : Reader α) := by
  intro input b rest hok
  cases hok

theorem Takes.bind {m n : Nat} {r : Reader α} {f : α → Reader β} (hr : Takes m r)
    (hf : ∀ a, Takes n (f a)) : Takes (m + n) (r >>= f) := by
  intro input b rest hok
  obtain ⟨a, middle, ha, hb⟩ := bind_eq_ok_iff.1 hok
  have hfirst := hr input a middle ha
  have hsecond := hf a middle b rest hb
  omega

/-- What the first part takes, the sequence takes. -/
theorem Takes.bind_left {n : Nat} {r : Reader α} {f : α → Reader β} (hr : Takes n r)
    (hf : ∀ a, Takes 0 (f a)) : Takes n (r >>= f) :=
  hr.bind hf

/-- What the second part takes, the sequence takes. -/
theorem Takes.bind_right {n : Nat} {r : Reader α} {f : α → Reader β} (hr : Takes 0 r)
    (hf : ∀ a, Takes n (f a)) : Takes n (r >>= f) :=
  (hr.bind hf).mono (Nat.le_add_left n 0)

theorem Takes.map {n : Nat} {r : Reader α} (hr : Takes n r) (g : α → β) : Takes n (g <$> r) := by
  rw [map_eq_bind]
  exact hr.bind_left fun a => takes_pure (g a)

theorem takes_next : Takes 1 next := by
  intro input b rest hok
  cases input with
  | nil => cases hok
  | cons c input =>
    cases hok
    exact Nat.le_refl _

theorem takes_peek : Takes 0 peek := by
  intro input b rest hok
  have hsuffix := (List.dropWhile_suffix (l := input) isSpace).length_le
  unfold peek at hok
  cases hdrop : input.dropWhile isSpace with
  | nil =>
    rw [hdrop] at hok
    cases hok
  | cons c tail =>
    rw [hdrop] at hok hsuffix
    cases hok
    exact hsuffix

theorem takes_lead : Takes 0 lead :=
  takes_peek.bind_left fun _ => takes_pure _

theorem takes_word_length (expected : List UInt8) : Takes expected.length (word expected) := by
  induction expected with
  | nil => exact takes_pure ()
  | cons b expected ih =>
    rw [List.length_cons, Nat.add_comm]
    refine takes_next.bind fun c => ?_
    split
    · exact ih
    · exact takes_throw _ _

theorem takes_word (expected : List UInt8) : Takes 0 (word expected) :=
  (takes_word_length expected).mono (Nat.zero_le _)

theorem takes_symbol (expected : UInt8) : Takes 1 (symbol expected) := by
  refine takes_peek.bind_right fun b => ?_
  split
  · exact takes_next.bind_left fun _ => takes_pure ()
  · exact takes_throw 1 _

theorem takes_anotherElement (first : Bool) : Takes 0 (anotherElement first) := by
  refine takes_peek.bind_left fun b => ?_
  split
  · exact takes_pure false
  split
  · exact takes_pure true
  split
  · refine (takes_next.mono (Nat.zero_le 1)).bind_left fun _ => takes_peek.bind_left fun c => ?_
    split
    · exact takes_throw 0 _
    · exact takes_pure true
  · exact takes_throw 0 _

theorem takes_anotherMember (first : Bool) : Takes 0 (anotherMember first) := by
  refine takes_peek.bind_left fun b => ?_
  split
  · exact takes_pure false
  split
  · split
    · exact takes_pure true
    · exact takes_throw 0 _
  split
  · refine (takes_next.mono (Nat.zero_le 1)).bind_left fun _ => takes_peek.bind_left fun c => ?_
    split
    · exact takes_pure true
    · exact takes_throw 0 _
  · exact takes_throw 0 _

theorem takes_enter {body : Nat → Reader α} (hbody : ∀ depth, Takes 0 (body depth)) (depth : Nat) :
    Takes 1 (enter depth body) := by
  cases depth with
  | zero => exact takes_throw 1 _
  | succ depth => exact takes_next.bind_left fun _ => hbody depth

/-- A reader that always fails takes as much as one likes. -/
theorem takes_unexpected (n : Nat) (expected : String) :
    Takes n (unexpected expected : Reader α) := by
  intro input a rest hok
  obtain ⟨_, _, -, hthrow⟩ := bind_eq_ok_iff.1 hok
  cases hthrow

/-- The law of the loop.  What a reader that gives up has, and a step has if what comes after
it does, the loop has.  The induction is on the bound, of which each repetition uses up one
byte. -/
theorem iterateWithin_induction {P : α → Reader β → Prop} {step : α → Reader (α ⊕ β)}
    (hgiveUp : ∀ state, P state (throw .malformed))
    (hstep : ∀ state (after : α ⊕ β → Reader β), (∀ state', P state' (after (.inl state'))) →
      (∀ result, after (.inr result) = pure result) → P state (step state >>= after))
    (bound : List UInt8) (state : α) : P state (iterateWithin step bound state) := by
  induction bound generalizing state with
  | nil =>
    rw [iterateWithin.eq_def]
    exact hstep state _ hgiveUp fun _ => rfl
  | cons b bound ih =>
    rw [iterateWithin.eq_def]
    exact hstep state _ ih fun _ => rfl

theorem takes_iterate {step : α → Reader (α ⊕ β)} (hstep : ∀ state, Takes 0 (step state))
    (state : α) : Takes 0 (iterate step state) := by
  intro input
  refine iterateWithin_induction (P := fun _ => Takes 0) (fun _ => takes_throw 0 _) ?_ input state
    input
  intro state after hagain hresult
  refine (hstep state).bind_left fun out => ?_
  cases out with
  | inl state => exact hagain state
  | inr result => exact hresult result ▸ takes_pure result

theorem elementStep_shrinks {element : Reader α} (h : Takes 1 element) :
    Shrinks (elementStep element) := by
  intro done input state rest hok
  obtain ⟨another, middle, hanother, hok⟩ := bind_eq_ok_iff.1 hok
  have hfirst := takes_anotherElement done.isEmpty input another middle hanother
  cases another with
  | false =>
    obtain ⟨_, _, -, hpure⟩ := bind_eq_ok_iff.1 hok
    cases hpure
  | true =>
    obtain ⟨a, after, helement, hpure⟩ := bind_eq_ok_iff.1 hok
    have hsecond := h middle a after helement
    cases hpure
    omega

theorem memberStep_shrinks {member : α → Reader α} (h : ∀ state, Takes 1 (member state)) :
    Shrinks (memberStep member) := by
  intro state input next rest hok
  obtain ⟨first, state⟩ := state
  obtain ⟨another, middle, hanother, hok⟩ := bind_eq_ok_iff.1 hok
  have hfirst := takes_anotherMember first input another middle hanother
  cases another with
  | false =>
    obtain ⟨_, _, -, hpure⟩ := bind_eq_ok_iff.1 hok
    cases hpure
  | true =>
    obtain ⟨a, after, hmember, hpure⟩ := bind_eq_ok_iff.1 hok
    have hsecond := h state middle a after hmember
    cases hpure
    omega

theorem takes_elements {element : Reader α} (h : Takes 0 element) : Takes 0 (elements element) := by
  refine takes_iterate (fun done => ?_) []
  refine (takes_anotherElement _).bind_left fun another => ?_
  split
  · exact h.bind_left fun _ => takes_pure _
  · exact ((takes_symbol _).mono (Nat.zero_le 1)).bind_left fun _ => takes_pure _

theorem takes_members {member : α → Reader α} (h : ∀ state, Takes 0 (member state)) (start : α) :
    Takes 0 (members member start) := by
  refine takes_iterate (fun state => ?_) (true, start)
  refine (takes_anotherMember _).bind_left fun another => ?_
  split
  · exact (h _).bind_left fun _ => takes_pure _
  · exact ((takes_symbol _).mono (Nat.zero_le 1)).bind_left fun _ => takes_pure _

/-! ## Single bytes -/

section Bytes

variable {b : UInt8} {rest : List UInt8}

theorem next_cons (b : UInt8) (rest : List UInt8) : next (b :: rest) = .ok (b, rest) := rfl

theorem next_eq_ok_iff {input : List UInt8} : next input = .ok (b, rest) ↔ input = b :: rest := by
  cases input with
  | nil => simp [next]
  | cons c tail => simp [next]

theorem peek_cons (h : isSpace b = false) : peek (b :: rest) = .ok (b, b :: rest) := by
  rw [peek, List.dropWhile_cons_of_neg (by simpa using h)]

theorem lead_cons (h : isSpace b = false) : lead (b :: rest) = .ok (Lead.ofByte b, b :: rest) :=
  bind_of_ok (peek_cons h)

theorem symbol_cons (h : isSpace b = false) : symbol b (b :: rest) = .ok ((), rest) := by
  rw [symbol, bind_of_ok (peek_cons h), if_pos rfl]
  rfl

theorem word_append (bytes rest : List UInt8) : word bytes (bytes ++ rest) = .ok ((), rest) := by
  induction bytes with
  | nil => rfl
  | cons c bytes ih =>
    rw [word, List.cons_append, bind_of_ok (next_cons _ _), if_pos rfl]
    exact ih

theorem anotherElement_close (first : Bool) :
    anotherElement first (']'.toUInt8 :: rest) = .ok (false, ']'.toUInt8 :: rest) := by
  rw [anotherElement, bind_of_ok (peek_cons (by decide)), if_pos rfl]
  rfl

theorem anotherElement_first (hspace : isSpace b = false) (hclose : b ≠ ']'.toUInt8) :
    anotherElement true (b :: rest) = .ok (true, b :: rest) := by
  rw [anotherElement, bind_of_ok (peek_cons hspace), if_neg hclose]
  rfl

theorem anotherElement_next (hspace : isSpace b = false) (hclose : b ≠ ']'.toUInt8) :
    anotherElement false (','.toUInt8 :: b :: rest) = .ok (true, b :: rest) := by
  rw [anotherElement, bind_of_ok (peek_cons (by decide)), if_neg (by decide), if_neg (by decide),
    if_pos rfl, bind_of_ok (next_cons _ _), bind_of_ok (peek_cons hspace), if_neg hclose]
  rfl

theorem anotherMember_close (first : Bool) :
    anotherMember first ('\x7d'.toUInt8 :: rest) = .ok (false, '\x7d'.toUInt8 :: rest) := by
  rw [anotherMember, bind_of_ok (peek_cons (by decide)), if_pos rfl]
  rfl

theorem anotherMember_first :
    anotherMember true ('"'.toUInt8 :: rest) = .ok (true, '"'.toUInt8 :: rest) := by
  rw [anotherMember, bind_of_ok (peek_cons (by decide)), if_neg (by decide), if_pos rfl, if_pos rfl]
  rfl

theorem anotherMember_next :
    anotherMember false (','.toUInt8 :: '"'.toUInt8 :: rest) = .ok (true, '"'.toUInt8 :: rest) := by
  rw [anotherMember, bind_of_ok (peek_cons (by decide)), if_neg (by decide), if_neg (by decide),
    if_pos rfl, bind_of_ok (next_cons _ _), bind_of_ok (peek_cons (by decide)), if_pos rfl]
  rfl

end Bytes

end RecordFilter.Json.Reader
