import RecordFilter.Json.Fault

/-!
# Reading bytes

A reader takes bytes from the front of a text and returns a value, or the first problem that it meets.
This module has the readers that everything else is made of: the next byte, the next byte that is not
white space, fixed words, and `iterate`, the one loop.

`iterate` repeats a step for as long as the step asks for it.  A step that asks to be repeated takes at
least one byte, so the text that is left bounds the number of steps; `iterate_of_shrinks` is the
equation that the loop satisfies.
-/

namespace RecordFilter.Json

/-- Takes bytes from the front of a text. -/
abbrev Reader (α : Type) := StateT (List UInt8) (Except Fault) α

/-! ## Bytes -/

/-- White space between the tokens of a JSON text: space, tab, line feed and carriage return. -/
def isSpace (b : UInt8) : Bool :=
  b = 0x20 || b = 0x09 || b = 0x0A || b = 0x0D

namespace Reader

/-- Takes one byte. -/
def next : Reader UInt8
  | [] => .error .endOfText
  | b :: rest => .ok (b, rest)

/-- Passes over white space and returns the byte after it, which stays in the text. -/
def peek : Reader UInt8 := fun input =>
  match input.dropWhile isSpace with
  | [] => .error .endOfText
  | b :: rest => .ok (b, b :: rest)

/-- Takes the bytes of a word, one by one. -/
def word : List UInt8 → Reader Unit
  | [] => pure ()
  | expected :: more => do
    let b ← next
    if b = expected then word more else throw .malformed

/-- The word `null`. -/
def nullWord : Reader Unit :=
  word ['n'.toUInt8, 'u'.toUInt8, 'l'.toUInt8, 'l'.toUInt8]

/-- The word `true`. -/
def trueWord : Reader Unit :=
  word ['t'.toUInt8, 'r'.toUInt8, 'u'.toUInt8, 'e'.toUInt8]

/-- The word `false`. -/
def falseWord : Reader Unit :=
  word ['f'.toUInt8, 'a'.toUInt8, 'l'.toUInt8, 's'.toUInt8, 'e'.toUInt8]

/-- Passes over white space and takes a given byte. -/
def symbol (expected : UInt8) : Reader Unit := do
  let b ← peek
  if b = expected then do let _ ← next; pure () else throw .malformed

/-! ## The loop -/

variable {σ β : Type}

/-- Repeats a step, at most once more than the bound has bytes. -/
def iterateWithin (step : σ → Reader (σ ⊕ β)) (bound : List UInt8) (state : σ) : Reader β := do
  match ← step state with
  | .inr result => pure result
  | .inl state =>
    match bound with
    | [] => throw .malformed
    | _ :: bound => iterateWithin step bound state

/-- Repeats a step until it returns a result.  The text that is left serves as the bound. -/
def iterate (step : σ → Reader (σ ⊕ β)) (state : σ) : Reader β := fun input =>
  iterateWithin step input state input

/-- Steps that take a byte whenever they ask to be repeated. -/
def Shrinks (step : σ → Reader (σ ⊕ β)) : Prop :=
  ∀ state input state' rest, step state input = .ok (.inl state', rest) → rest.length < input.length

/-- One step of the loop, given what the step returns. -/
theorem iterateWithin_eq (step : σ → Reader (σ ⊕ β)) (bound : List UInt8) (state : σ)
    (input : List UInt8) :
    iterateWithin step bound state input =
      match step state input, bound with
      | .error fault, _ => .error fault
      | .ok (.inr result, rest), _ => .ok (result, rest)
      | .ok (.inl _, _), [] => .error .malformed
      | .ok (.inl state, rest), _ :: bound => iterateWithin step bound state rest := by
  rw [iterateWithin]
  simp only [bind, StateT.bind, Except.bind]
  split
  · next h => simp [h]
  · next out h =>
    obtain ⟨next | result, rest⟩ := out
    · cases bound with
      | nil => simp [h]; rfl
      | cons _ _ => simp [h]
    · simp [h]; rfl

/-- A bound as long as the text is as good as any other. -/
theorem iterateWithin_eq_of_le {step : σ → Reader (σ ⊕ β)} (hstep : Shrinks step) {n : Nat}
    {bound bound' : List UInt8} {state : σ} {input : List UInt8} (hn : input.length ≤ n)
    (hbound : input.length ≤ bound.length) (hbound' : input.length ≤ bound'.length) :
    iterateWithin step bound state input = iterateWithin step bound' state input := by
  induction n generalizing bound bound' state input with
  | zero =>
    rw [iterateWithin_eq, iterateWithin_eq]
    cases hs : step state input with
    | error fault => rfl
    | ok out =>
      obtain ⟨next | result, rest⟩ := out
      · have hlt := hstep state input next rest hs
        omega
      · rfl
  | succ n ih =>
    rw [iterateWithin_eq, iterateWithin_eq]
    cases hs : step state input with
    | error fault => rfl
    | ok out =>
      obtain ⟨next | result, rest⟩ := out
      · have hlt := hstep state input next rest hs
        obtain ⟨b, bound, rfl⟩ := List.exists_cons_of_length_pos (l := bound) (by omega)
        obtain ⟨b', bound', rfl⟩ := List.exists_cons_of_length_pos (l := bound') (by omega)
        simp only [List.length_cons] at hbound hbound'
        exact ih (by omega) (by omega) (by omega)
      · rfl

/-- The loop is its step and then, if the step asks for it, the loop again. -/
theorem iterate_of_shrinks {step : σ → Reader (σ ⊕ β)} (hstep : Shrinks step) (state : σ)
    (input : List UInt8) :
    iterate step state input =
      match step state input with
      | .error fault => .error fault
      | .ok (.inr result, rest) => .ok (result, rest)
      | .ok (.inl state, rest) => iterate step state rest := by
  rw [iterate, iterateWithin_eq]
  cases hs : step state input with
  | error fault => rfl
  | ok out =>
    obtain ⟨next | result, rest⟩ := out
    · have hlt := hstep state input next rest hs
      obtain ⟨b, bound, rfl⟩ := List.exists_cons_of_length_pos (l := input) (by omega)
      simp only [List.length_cons] at hlt
      exact iterateWithin_eq_of_le hstep (Nat.le_refl rest.length) (by omega) (Nat.le_refl rest.length)
    · rfl

end Reader

end RecordFilter.Json
