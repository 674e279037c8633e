import RecordFilter.Record
import RecordFilter.Schema

/-!
# Paths

A path names a field of a record, or of a record nested in it, by the names on the way separated by
dots.  `segments` splits a path at its dots, and `resolve` walks the segments through the schemas of a
family.  A walk that succeeds knows the kind of the field at the end and the route to its slot; one
that fails names the segment at which it failed.

The main statement is `segments_append`: the segments of two paths joined by a dot are those of the
first and then those of the second.
-/

namespace RecordFilter.Path

/-! ## Segments -/

/-- A text split at its dots.  There is always at least one part, and parts may be empty. -/
def splitDots : List Char → List (List Char)
  | [] => [[]]
  | c :: cs =>
    if c = '.' then [] :: splitDots cs
    else
      match splitDots cs with
      | [] => [[c]]
      | part :: parts => (c :: part) :: parts

/-- The segments of a path. -/
def segments (path : String) : List String :=
  (splitDots path.toList).map String.ofList

theorem splitDots_ne_nil (cs : List Char) : splitDots cs ≠ [] := by
  cases cs with
  | nil => simp [splitDots]
  | cons c cs =>
    unfold splitDots
    split
    · simp
    · split <;> simp

/-- Every path has a segment. -/
theorem segments_ne_nil (path : String) : segments path ≠ [] := by
  simp [segments, splitDots_ne_nil]

/-- The parts of two texts joined by a dot are those of the first and then those of the second. -/
theorem splitDots_append (as bs : List Char) :
    splitDots (as ++ '.' :: bs) = splitDots as ++ splitDots bs := by
  induction as with
  | nil => simp [splitDots]
  | cons a as ih =>
    by_cases ha : a = '.'
    · simp [splitDots, ha, ih]
    · cases hs : splitDots as with
      | nil => exact absurd hs (splitDots_ne_nil as)
      | cons part parts => simp [splitDots, ha, ih, hs]

/-- The segments of two paths joined by a dot are those of the first and then those of the second. -/
theorem segments_append (p q : String) : segments (p ++ "." ++ q) = segments p ++ segments q := by
  simp [segments, splitDots_append]

/-! ## Walking -/

/-- Where a path leads. -/
structure Target where
  /-- The kind of the field at the end. -/
  kind : FieldKind
  /-- The route to the slot of that field. -/
  route : List Nat
deriving DecidableEq

/-- The target seen from a record that holds the record it was found in. -/
def Target.through (slot : Nat) (target : Target) : Target :=
  { target with route := slot :: target.route }

/-- Walks along segments, starting from a type of the family.  Fails with the segment that names no
field; the segment after a single value never does. -/
def resolve (family : Family) (type : Nat) : List String → Except String Target
  | [] => .error ""
  | segment :: rest =>
    match (family.schema type).lookup segment with
    | none => .error segment
    | some field =>
      match field.kind, rest with
      | kind, [] => .ok ⟨kind, [field.slot]⟩
      | .scalar _, next :: _ => .error next
      | .record inner, next :: rest =>
        (resolve family inner (next :: rest)).map (Target.through field.slot)

end RecordFilter.Path
