import Mathlib
import RecordFilter.Proofs.CompileCorrect
import RecordFilter.Proofs.PathFailure

/-!
# Paths behind paths

A path with another one behind it, joined by a dot, is walked in two parts.  What the first
part comes to decides what happens to the second.

* Where the first part gets lost, the whole path gets lost at the same segment.
* Where it leads to a single value, the whole path gets lost at the first segment behind it.
* Where it leads to a record, the second part is walked from the type of that record, and
  what it leads to is read through the record.

`resolve_append` says so for lists of names.  The induction is on the names of the first
part, and each of its steps is `resolve_cons`.

A walk of no names has an answer too, though no path ever comes to it.  `resolve_unique`
makes this precise: a walk that takes the same steps agrees with `resolve` on every list of
names but the empty one, whatever it answers there.

`resolvePath_outcome` puts this together with the outcomes of a single walk.
-/

namespace RecordFilter.Path

/-- A target as seen from the record from which a route leads to the record it is in. -/
def Target.behind (route : List Nat) (target : Target) : Target :=
  { target with route := route ++ target.route }

/-- The record at the end of the first route is the one that the second starts from. -/
theorem Target.read_behind (record : Record) (route : List Nat) (target : Target) :
    record.read (target.behind route).route = (record.read route).follow target.route :=
  FieldValue.follow_append (.record record) route target.route

/-- One step of a walk: what becomes of a segment, when `walk` is how a walk goes on. -/
def step (family : Family) (walk : Nat → List String → Except String Target) (type : Nat)
    (segment : String) (rest : List String) : Except String Target :=
  match (family.schema type).lookup segment with
  | none => .error segment
  | some field =>
    match field.kind, rest with
    | kind, [] => .ok ⟨kind, [field.slot]⟩
    | .scalar _, next :: _ => .error next
    | .record inner, next :: rest => (walk inner (next :: rest)).map (Target.through field.slot)

variable {family : Family} {type : Nat}

theorem resolve_cons (segment : String) (rest : List String) :
    resolve family type (segment :: rest) =
      step family (resolve family) type segment rest := by
  rw [resolve]
  rfl

/-- A step goes on with a list of names that is not empty, or not at all. -/
theorem step_congr {walk walk' : Nat → List String → Except String Target} {rest : List String}
    (h : rest ≠ [] → ∀ type, walk type rest = walk' type rest) (segment : String) :
    step family walk type segment rest = step family walk' type segment rest := by
  cases rest with
  | nil => rfl
  | cons next rest =>
    rw [step, step]
    cases (family.schema type).lookup segment with
    | none => rfl
    | some field =>
      obtain ⟨name, kind, slot⟩ := field
      cases kind with
      | scalar scalar => rfl
      | record inner =>
        show (walk inner (next :: rest)).map _ = (walk' inner (next :: rest)).map _
        rw [h (List.cons_ne_nil next rest)]

/-- A walk that takes the steps of `resolve` comes to the same end, whatever it makes of no
names at all. -/
theorem resolve_unique {walk : Nat → List String → Except String Target}
    (hwalk : ∀ type segment rest,
      walk type (segment :: rest) = step family walk type segment rest)
    {names : List String} (hne : names ≠ []) (type : Nat) :
    walk type names = resolve family type names := by
  induction names generalizing type with
  | nil => exact absurd rfl hne
  | cons segment rest ih =>
    rw [hwalk, resolve_cons]
    exact step_congr (fun hrest type => ih hrest type) segment

/-- How a walk goes on when there are more names behind those it has come through. -/
def goOn (family : Family) (next : String) (rest : List String) :
    Except String Target → Except String Target
  | .error segment => .error segment
  | .ok ⟨.scalar _, _⟩ => .error next
  | .ok ⟨.record inner, route⟩ =>
    (resolve family inner (next :: rest)).map (Target.behind route)

/-- Going on inside a record is going on from outside, with the record's slot on the way. -/
theorem goOn_through (slot : Nat) (next : String) (rest : List String)
    (outcome : Except String Target) :
    (goOn family next rest outcome).map (Target.through slot) =
      goOn family next rest (outcome.map (Target.through slot)) := by
  obtain segment | ⟨kind, route⟩ := outcome
  · rfl
  · cases kind with
    | scalar scalar => rfl
    | record inner =>
      show ((resolve family inner (next :: rest)).map (Target.behind route)).map _ =
        (resolve family inner (next :: rest)).map (Target.behind (slot :: route))
      cases resolve family inner (next :: rest) <;> rfl

/-- Names are walked in two parts, wherever the cut is. -/
theorem resolve_append {first : List String} (hne : first ≠ []) (next : String)
    (rest : List String) :
    resolve family type (first ++ next :: rest) =
      goOn family next rest (resolve family type first) := by
  induction first generalizing type with
  | nil => exact absurd rfl hne
  | cons segment names ih =>
    rw [List.cons_append, resolve_cons, resolve_cons, step, step]
    cases (family.schema type).lookup segment with
    | none => rfl
    | some field =>
      obtain ⟨name, kind, slot⟩ := field
      cases names with
      | nil => cases kind <;> rfl
      | cons name names =>
        cases kind with
        | scalar scalar => rfl
        | record inner =>
          show (resolve family inner (name :: names ++ next :: rest)).map _ =
            goOn family next rest ((resolve family inner (name :: names)).map _)
          rw [ih (List.cons_ne_nil name names), goOn_through]

end RecordFilter.Path

namespace RecordFilter

open RecordFilter.Path

variable {family : Family}

/-- A path with another behind it goes on from what the first one comes to. -/
theorem resolvePath_append {p q next : String} {rest : List String}
    (hq : segments q = next :: rest) :
    resolvePath family (p ++ "." ++ q) =
      (goOn family next rest (resolve family Family.root (segments p))).mapError
        (CompileError.fieldNotFound · (p ++ "." ++ q)) := by
  rw [resolvePath, segments_append, hq, resolve_append (segments_ne_nil p)]

theorem resolvePath_eq_notFound_iff {path segment : String} :
    resolvePath family path = .error (.fieldNotFound segment path) ↔
      resolve family Family.root (segments path) = .error segment := by
  simp [resolvePath, Except.mapError_eq_error_iff]

theorem resolvePath_append_of_lost {p segment : String}
    (h : resolvePath family p = .error (.fieldNotFound segment p)) (q : String) :
    resolvePath family (p ++ "." ++ q) = .error (.fieldNotFound segment (p ++ "." ++ q)) := by
  obtain ⟨next, rest, hq⟩ := List.exists_cons_of_ne_nil (segments_ne_nil q)
  rw [resolvePath_append hq, resolvePath_eq_notFound_iff.1 h]
  rfl

theorem resolvePath_append_of_record {p : String} {type : Nat} {route : List Nat}
    (h : resolvePath family p = .ok ⟨.record type, route⟩) (q : String) :
    resolvePath family (p ++ "." ++ q) =
      ((resolve family type (segments q)).map (Target.behind route)).mapError
        (CompileError.fieldNotFound · (p ++ "." ++ q)) := by
  obtain ⟨next, rest, hq⟩ := List.exists_cons_of_ne_nil (segments_ne_nil q)
  rw [resolvePath_append hq, resolvePath_eq_ok_iff.1 h, hq]
  rfl

theorem resolvePath_append_of_scalar {p : String} {scalar : ScalarType} {route : List Nat}
    (h : resolvePath family p = .ok ⟨.scalar scalar, route⟩) {q next : String}
    {rest : List String} (hq : Spells q (next :: rest)) :
    resolvePath family (p ++ "." ++ q) = .error (.fieldNotFound next (p ++ "." ++ q)) := by
  rw [resolvePath_append (segments_eq_iff.2 hq), resolvePath_eq_ok_iff.1 h]
  rfl

/-- A path leads to a field exactly where its names do, and reads what its names read;
otherwise it is not found, as a whole, for the segment at which its names get lost.  What it
comes to settles what becomes of every path that goes on behind it.  The answer to a walk of
no names is never asked for. -/
theorem resolvePath_outcome (family : Family) (p : String) :
    (∀ kind, (∃ route, resolvePath family p = .ok ⟨kind, route⟩) ↔
        ∃ names, Spells p names ∧ LeadsTo family Family.root names kind) ∧
      (∀ scalar route, resolvePath family p = .ok ⟨.scalar scalar, route⟩ →
        ∀ names, Spells p names → ∀ (record : Record) (value : Literal),
          (record.read route).literal? scalar = some value ↔
            Reads family Family.root record names scalar value) ∧
      (∀ e, resolvePath family p = .error e ↔
        ∃ names segment, Spells p names ∧ LostAt family Family.root names segment ∧
          e = .fieldNotFound segment p) ∧
      (∀ segment, resolvePath family p = .error (.fieldNotFound segment p) → ∀ q,
        resolvePath family (p ++ "." ++ q) = .error (.fieldNotFound segment (p ++ "." ++ q))) ∧
      (∀ type route, resolvePath family p = .ok ⟨.record type, route⟩ →
        (∀ q, resolvePath family (p ++ "." ++ q) =
          ((resolve family type (segments q)).map (Target.behind route)).mapError
            (CompileError.fieldNotFound · (p ++ "." ++ q))) ∧
        ∀ (record : Record) (target : Target),
          record.read (target.behind route).route =
            (record.read route).follow target.route) ∧
      (∀ scalar route, resolvePath family p = .ok ⟨.scalar scalar, route⟩ →
        ∀ q next rest, Spells q (next :: rest) →
          resolvePath family (p ++ "." ++ q) = .error (.fieldNotFound next (p ++ "." ++ q))) ∧
      ∀ walk : Nat → List String → Except String Target,
        (∀ type segment rest,
          walk type (segment :: rest) = step family walk type segment rest) →
        (walk Family.root (segments p)).mapError (CompileError.fieldNotFound · p) =
          resolvePath family p := by
  refine ⟨?_, ?_, ?_, ?_, ?_, ?_, ?_⟩
  · intro kind
    simp only [resolvePath_eq_ok_iff, exists_resolve_eq_ok_iff, ← segments_eq_iff,
      exists_eq_left']
  · intro scalar route h names hnames record value
    rw [← segments_eq_iff.2 hnames, reads_iff_of_resolve (resolvePath_eq_ok_iff.1 h)]
    exact (and_iff_right rfl).symm
  · intro e
    simp only [resolvePath_eq_error_iff, ← segments_eq_iff, exists_and_left, exists_eq_left']
  · intro segment h q
    exact resolvePath_append_of_lost h q
  · intro type route h
    exact ⟨resolvePath_append_of_record h,
      fun record target => Target.read_behind record route target⟩
  · intro scalar route h q next rest hq
    exact resolvePath_append_of_scalar h hq
  · intro walk hwalk
    rw [resolve_unique hwalk (segments_ne_nil p), resolvePath]

/-- Behind the superior of a person stands a person again. -/
theorem resolvePath_superior :
    resolvePath staff "Superior" = .ok ⟨.record 0, [1]⟩ ∧
      resolvePath staff ("Superior" ++ "." ++ "Superior.Name") =
        .ok ⟨.scalar .string, [1, 1, 2]⟩ ∧
      resolvePath staff ("Superior" ++ "." ++ "Name.First") =
        .error (.fieldNotFound "First" ("Superior" ++ "." ++ "Name.First")) := by
  have hsuperior : resolvePath staff "Superior" = .ok ⟨.record 0, [1]⟩ := by decide +kernel
  obtain ⟨-, -, -, -, hrecord, -⟩ := resolvePath_outcome staff "Superior"
  obtain ⟨hbehind, -⟩ := hrecord 0 [1] hsuperior
  refine ⟨hsuperior, ?_, ?_⟩
  · rw [hbehind]
    decide +kernel
  · rw [hbehind]
    decide +kernel

end RecordFilter
