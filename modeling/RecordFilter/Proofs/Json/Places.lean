import Mathlib
import RecordFilter.Proofs.Json.Pieces

/-!
# Where in a text a byte stands

A byte of a JSON text stands between strings, inside one, or behind a backslash inside one.
Quotes and backslashes alone decide which it is, so this can be told from left to right
without reading the text: `Place.run`.

Numbers stand between strings.  `numberTokens` cuts the text between strings into the runs of
bytes that numbers are made of.  In a JSON text these are its numbers, and two kinds of short
ones: the empty runs, and the last letter of `true` and of `false`.
-/

namespace RecordFilter.Json

open Reader

/-- Where a byte stands. -/
inductive Place
  | between
  | string
  /-- Behind a backslash. -/
  | escape
deriving DecidableEq

namespace Place

/-- The place behind a byte that stands at a place. -/
def step : Place → UInt8 → Place
  | .between, b => if b = '"'.toUInt8 then .string else .between
  | .string, b =>
    if b = '"'.toUInt8 then .between else if b = '\\'.toUInt8 then .escape else .string
  | .escape, _ => .string

/-- The place behind a text. -/
def run (place : Place) (text : List UInt8) : Place :=
  text.foldl step place

@[simp] theorem run_nil (place : Place) : place.run [] = place := rfl

@[simp] theorem run_cons (place : Place) (b : UInt8) (text : List UInt8) :
    place.run (b :: text) = (place.step b).run text := rfl

/-- The place behind two texts is the place behind the second, from where the first ends. -/
@[simp] theorem run_append (place : Place) (first second : List UInt8) :
    place.run (first ++ second) = (place.run first).run second :=
  List.foldl_append

theorem step_between {b : UInt8} (h : b ≠ '"'.toUInt8) : Place.between.step b = .between :=
  if_neg h

/-- No string begins in a text without quotes. -/
theorem run_between {text : List UInt8} (h : ∀ b ∈ text, b ≠ '"'.toUInt8) :
    Place.between.run text = .between := by
  induction text with
  | nil => rfl
  | cons b text ih =>
    rw [List.forall_mem_cons] at h
    rw [run_cons, step_between h.1]
    exact ih h.2

/-- A string goes on through a text with neither quotes nor backslashes. -/
theorem run_string {text : List UInt8}
    (h : ∀ b ∈ text, b ≠ '"'.toUInt8 ∧ b ≠ '\\'.toUInt8) : Place.string.run text = .string := by
  induction text with
  | nil => rfl
  | cons b text ih =>
    rw [List.forall_mem_cons] at h
    rw [run_cons, step, if_neg h.1.1, if_neg h.1.2]
    exact ih h.2

end Place

/-! ## Numbers of a text -/

/-- The bytes of a text that stand between strings, with the opening quotes. -/
def outsideStrings : Place → List UInt8 → List UInt8
  | _, [] => []
  | .between, b :: text => b :: outsideStrings (Place.between.step b) text
  | place, b :: text => outsideStrings (place.step b) text

/-- The runs of number bytes in a text that stand between strings. -/
def numberTokens (text : List UInt8) : List (List UInt8) :=
  (outsideStrings .between text).splitOnP fun b => !isNumberByte b

theorem outsideStrings_append (place : Place) (first second : List UInt8) :
    outsideStrings place (first ++ second) =
      outsideStrings place first ++ outsideStrings (place.run first) second := by
  induction first generalizing place with
  | nil => rfl
  | cons b first ih => cases place <;> simp [outsideStrings, ih]

theorem outsideStrings_between {text : List UInt8} (h : ∀ b ∈ text, b ≠ '"'.toUInt8) :
    outsideStrings .between text = text := by
  induction text with
  | nil => rfl
  | cons b text ih =>
    rw [List.forall_mem_cons] at h
    rw [outsideStrings, Place.step_between h.1, ih h.2]

/-- A run that a cut goes through is as long as the part before the cut, at least. -/
theorem exists_run_of_append {p : UInt8 → Bool} {token : List UInt8}
    (htoken : ∀ b ∈ token, p b = false) (before after : List UInt8) :
    ∃ run ∈ (before ++ token ++ after).splitOnP p, token.length ≤ run.length := by
  induction before with
  | nil =>
    have hhead : ∃ run runs, (token ++ after).splitOnP p = run :: runs ∧
        token.length ≤ run.length := by
      induction token with
      | nil =>
        obtain ⟨run, runs, h⟩ := List.exists_cons_of_ne_nil (List.splitOnP_ne_nil p ([] ++ after))
        exact ⟨run, runs, h, Nat.zero_le _⟩
      | cons b token ih =>
        rw [List.forall_mem_cons] at htoken
        obtain ⟨run, runs, h, hle⟩ := ih htoken.2
        refine ⟨b :: run, runs, ?_, Nat.succ_le_succ hle⟩
        rw [List.cons_append, List.splitOnP_cons_eq_if_modifyHead, h, htoken.1]
        rfl
    obtain ⟨run, runs, h, hle⟩ := hhead
    exact ⟨run, by rw [List.nil_append, h]; exact List.mem_cons_self, hle⟩
  | cons b before ih =>
    obtain ⟨run, hrun, hle⟩ := ih
    rw [List.cons_append, List.cons_append, List.splitOnP_cons_eq_if_modifyHead]
    split
    · exact ⟨run, List.mem_cons_of_mem _ hrun, hle⟩
    · cases hsplit : (before ++ token ++ after).splitOnP p with
      | nil => exact absurd hsplit (List.splitOnP_ne_nil p _)
      | cons first runs =>
        rw [hsplit, List.mem_cons] at hrun
        rcases hrun with rfl | hrun
        · exact ⟨b :: run, List.mem_cons_self, Nat.le_succ_of_le hle⟩
        · exact ⟨run, List.mem_cons_of_mem _ hrun, hle⟩

theorem ne_quote_of_isNumberByte : ∀ b : UInt8, isNumberByte b → b ≠ '"'.toUInt8 := by
  decide +kernel

/-- Where a text is cut inside a number, one of its numbers is as long as the part before the
cut, at least. -/
theorem exists_numberToken {front token : List UInt8} (hfront : Place.between.run front = .between)
    (htoken : ∀ b ∈ token, isNumberByte b) (dropped : List UInt8) :
    ∃ run ∈ numberTokens (front ++ token ++ dropped), token.length ≤ run.length := by
  have hquote : ∀ b ∈ token, b ≠ '"'.toUInt8 :=
    fun b hb => ne_quote_of_isNumberByte b (htoken b hb)
  rw [numberTokens, outsideStrings_append, outsideStrings_append, Place.run_append, hfront,
    outsideStrings_between hquote]
  exact exists_run_of_append (fun b hb => by simp [htoken b hb]) _ _

end RecordFilter.Json
