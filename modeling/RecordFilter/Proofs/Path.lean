import Mathlib
import RecordFilter.Path
import RecordFilter.Proofs.Schema

/-!
# What a path spells, and where it leads

A path spells the names that it joins by dots, and only those: names with a dot in them
cannot be written in a path.  `segments_eq_iff` says that splitting a path recovers the
names.

`resolve_cons_eq_ok_iff` is one step of a walk that succeeds, told by declarations and not
by schemas.
-/

namespace Except

variable {ε ε' α β : Type} {x : Except ε α}

theorem map_eq_ok_iff {f : α → β} {b : β} : x.map f = .ok b ↔ ∃ a, x = .ok a ∧ f a = b := by
  cases x <;> simp [Except.map]

theorem map_eq_error_iff {f : α → β} {e : ε} : x.map f = .error e ↔ x = .error e := by
  cases x <;> simp [Except.map]

theorem mapError_eq_ok_iff {f : ε → ε'} {a : α} : x.mapError f = .ok a ↔ x = .ok a := by
  cases x <;> simp [Except.mapError]

theorem mapError_eq_error_iff {f : ε → ε'} {e : ε'} :
    x.mapError f = .error e ↔ ∃ cause, x = .error cause ∧ f cause = e := by
  cases x <;> simp [Except.mapError]

end Except

namespace RecordFilter.Path

/-- A path is made of names, none of which has a dot in it, joined by dots. -/
structure Spells (path : String) (names : List String) : Prop where
  ne_nil : names ≠ []
  no_dot : ∀ name ∈ names, '.' ∉ name.toList
  joined : ".".intercalate names = path

/-- Splitting at dots is splitting at one character. -/
theorem splitDots_eq_splitOn (cs : List Char) : splitDots cs = cs.splitOn '.' := by
  induction cs with
  | nil => rfl
  | cons c cs ih =>
    rw [splitDots, List.splitOn_cons_eq_if_modifyHead, ih]
    by_cases hc : c = '.'
    · simp [hc]
    · rw [if_neg hc, if_neg (by simpa using hc)]
      cases hs : cs.splitOn '.' with
      | nil => exact absurd hs (List.splitOn_ne_nil '.' cs)
      | cons part parts => rfl

/-- No part of a text that was split at a character has the character. -/
theorem not_mem_of_mem_splitDots {cs part : List Char} (h : part ∈ splitDots cs) : '.' ∉ part := by
  induction cs generalizing part with
  | nil =>
    rw [splitDots, List.mem_singleton] at h
    simp [h]
  | cons c cs ih =>
    by_cases hc : c = '.'
    · rw [splitDots, if_pos hc, List.mem_cons] at h
      rcases h with rfl | h
      · simp
      · exact ih h
    · rw [splitDots, if_neg hc] at h
      cases hs : splitDots cs with
      | nil => exact absurd hs (splitDots_ne_nil cs)
      | cons first rest =>
        rw [hs, List.mem_cons] at h
        rcases h with rfl | h
        · have hfirst : '.' ∉ first := ih (hs ▸ List.mem_cons_self)
          simp [hfirst, Ne.symm hc]
        · exact ih (hs ▸ List.mem_cons_of_mem first h)

/-- The segments of a path are the names that it spells. -/
theorem segments_eq_iff {path : String} {names : List String} :
    segments path = names ↔ Spells path names := by
  constructor
  · rintro rfl
    refine ⟨segments_ne_nil path, ?_, ?_⟩
    · intro name hname
      obtain ⟨part, hpart, rfl⟩ := List.mem_map.1 hname
      rw [String.toList_ofList]
      exact not_mem_of_mem_splitDots hpart
    · rw [← String.toList_inj, String.toList_intercalate, segments, List.map_map]
      have hid : String.toList ∘ String.ofList = id := by
        funext cs
        exact String.toList_ofList
      rw [hid, List.map_id, splitDots_eq_splitOn]
      exact List.intercalate_splitOn '.'
  · rintro ⟨hne, hdot, rfl⟩
    have hdots : ∀ part ∈ names.map String.toList, '.' ∉ part := by
      intro part hpart
      obtain ⟨name, hname, rfl⟩ := List.mem_map.1 hpart
      exact hdot name hname
    rw [segments, splitDots_eq_splitOn, String.toList_intercalate,
      show (".".toList : List Char) = ['.'] from rfl,
      List.splitOn_intercalate '.' hdots (by simpa using hne), List.map_map]
    have hid : String.ofList ∘ String.toList = id := by
      funext s
      exact String.ofList_toList
    rw [hid, List.map_id]

/-! ## Walking -/

variable {family : Family} {type : Nat}

theorem lookup_schema_of_lastDeclared {name : String} {slot : Nat} {kind : FieldKind}
    (h : LastDeclared (family.getD type []) name slot kind) :
    (family.schema type).lookup name = some ⟨name, kind, slot⟩ :=
  Family.lookup_schema_iff.2 ⟨rfl, h⟩

/-- A walk ends on the field that its last name means. -/
theorem resolve_last {name : String} {slot : Nat} {kind : FieldKind}
    (h : LastDeclared (family.getD type []) name slot kind) :
    resolve family type [name] = .ok ⟨kind, [slot]⟩ := by
  rw [resolve, lookup_schema_of_lastDeclared h]

/-- A walk gets lost behind a single value. -/
theorem resolve_behind_scalar {name : String} {slot : Nat} {scalar : ScalarType}
    (h : LastDeclared (family.getD type []) name slot (.scalar scalar)) (next : String)
    (rest : List String) : resolve family type (name :: next :: rest) = .error next := by
  rw [resolve, lookup_schema_of_lastDeclared h]

/-- A walk goes on in a record. -/
theorem resolve_behind_record {name : String} {slot inner : Nat}
    (h : LastDeclared (family.getD type []) name slot (.record inner)) (next : String)
    (rest : List String) :
    resolve family type (name :: next :: rest) =
      (resolve family inner (next :: rest)).map (Target.through slot) := by
  rw [resolve, lookup_schema_of_lastDeclared h]

/-- A walk from a name that is not declared gets lost there. -/
theorem resolve_undeclared {name : String}
    (h : ∀ d ∈ family.getD type [], d.name ≠ name) (names : List String) :
    resolve family type (name :: names) = .error name := by
  rw [resolve, Family.lookup_schema_eq_none_iff.2 h]

/-- A walk that succeeds ends on the field that the first name means, or goes on from the
record that it means. -/
theorem resolve_cons_eq_ok_iff {name : String} {names : List String} {target : Target} :
    resolve family type (name :: names) = .ok target ↔
      ∃ slot kind, LastDeclared (family.getD type []) name slot kind ∧
        (names = [] ∧ target = ⟨kind, [slot]⟩ ∨
          ∃ inner inside, kind = .record inner ∧ resolve family inner names = .ok inside ∧
            target = inside.through slot) := by
  constructor
  · intro h
    obtain ⟨slot, kind, hdeclared⟩ | hnone := lastDeclared_or_undeclared (family.getD type []) name
    · refine ⟨slot, kind, hdeclared, ?_⟩
      cases names with
      | nil =>
        rw [resolve_last hdeclared] at h
        exact .inl ⟨rfl, (Except.ok.inj h).symm⟩
      | cons next rest =>
        cases kind with
        | scalar scalar =>
          rw [resolve_behind_scalar hdeclared] at h
          cases h
        | record inner =>
          rw [resolve_behind_record hdeclared] at h
          obtain ⟨inside, hinside, rfl⟩ := Except.map_eq_ok_iff.1 h
          exact .inr ⟨inner, inside, rfl, hinside, rfl⟩
    · rw [resolve_undeclared hnone] at h
      cases h
  · rintro ⟨slot, kind, hdeclared, ⟨rfl, rfl⟩ | ⟨inner, inside, rfl, hinside, rfl⟩⟩
    · exact resolve_last hdeclared
    · cases names with
      | nil => cases hinside
      | cons next rest =>
        rw [resolve_behind_record hdeclared]
        exact Except.map_eq_ok_iff.2 ⟨inside, hinside, rfl⟩

theorem route_ne_nil_of_resolve {names : List String} {target : Target}
    (h : resolve family type names = .ok target) : target.route ≠ [] := by
  cases names with
  | nil => cases h
  | cons name names =>
    obtain ⟨slot, kind, -, ⟨-, rfl⟩ | ⟨inner, inside, -, -, rfl⟩⟩ := resolve_cons_eq_ok_iff.1 h
    · exact List.cons_ne_nil slot []
    · exact List.cons_ne_nil slot inside.route

end RecordFilter.Path
