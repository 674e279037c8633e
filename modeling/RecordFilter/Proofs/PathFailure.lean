import Mathlib
import RecordFilter.Proofs.Compile

/-!
# Where a path leads, and where it gets lost

A walk through a family either leads to a field or gets lost at a segment.  `LeadsTo` and
`LostAt` say both by declarations alone; `exists_resolve_eq_ok_iff` and
`resolve_eq_error_iff` say that these are the outcomes of `resolve`.

The second half is about empty segments.  Nothing in the walk singles them out, so they
match nothing as long as no declaration gives a field the empty name, and match such a field
if there is one.  `emptySegments_match_nothing_iff` says that this is the only exception.
-/

namespace RecordFilter.Path

/-! ## Outcomes of a walk -/

/-- Names lead from a type to a field of a kind: every name but the last to a record. -/
inductive LeadsTo (family : Family) : (type : Nat) → List String → FieldKind → Prop
  | here {type name slot kind}
      (hdeclared : LastDeclared (family.getD type []) name slot kind) :
      LeadsTo family type [name] kind
  | inward {type name slot inner names kind}
      (hdeclared : LastDeclared (family.getD type []) name slot (.record inner))
      (htail : LeadsTo family inner names kind) :
      LeadsTo family type (name :: names) kind

/-- Names get lost at a segment: at one that the type reached so far does not declare, or at
the one after a single value. -/
inductive LostAt (family : Family) : (type : Nat) → List String → (segment : String) → Prop
  | undeclared {type name names}
      (hname : ∀ d ∈ family.getD type [], d.name ≠ name) :
      LostAt family type (name :: names) name
  | scalar {type name slot scalar next names}
      (hdeclared : LastDeclared (family.getD type []) name slot (.scalar scalar)) :
      LostAt family type (name :: next :: names) next
  | inward {type name slot inner names segment}
      (hdeclared : LastDeclared (family.getD type []) name slot (.record inner))
      (htail : LostAt family inner names segment) :
      LostAt family type (name :: names) segment

variable {family : Family} {type : Nat} {names : List String}

theorem LeadsTo.ne_nil {kind : FieldKind} (h : LeadsTo family type names kind) : names ≠ [] := by
  cases h <;> simp

theorem LostAt.ne_nil {segment : String} (h : LostAt family type names segment) : names ≠ [] := by
  cases h <;> simp

/-- A walk succeeds where the names lead to a field. -/
theorem exists_resolve_eq_ok_iff {kind : FieldKind} :
    (∃ route, resolve family type names = .ok ⟨kind, route⟩) ↔ LeadsTo family type names kind := by
  constructor
  · rintro ⟨route, h⟩
    induction names generalizing type route with
    | nil => cases h
    | cons name names ih =>
      obtain ⟨slot, kind', hdeclared, ⟨rfl, htarget⟩ | ⟨inner, inside, rfl, hinside, htarget⟩⟩ :=
        resolve_cons_eq_ok_iff.1 h
      · cases htarget
        exact .here hdeclared
      · cases htarget
        exact .inward hdeclared (ih inside.route hinside)
  · intro h
    induction h with
    | here hdeclared => exact ⟨_, resolve_cons_eq_ok_iff.2 ⟨_, _, hdeclared, .inl ⟨rfl, rfl⟩⟩⟩
    | inward hdeclared htail ih =>
      obtain ⟨route, hinside⟩ := ih
      exact ⟨_, resolve_cons_eq_ok_iff.2 ⟨_, _, hdeclared, .inr ⟨_, _, rfl, hinside, rfl⟩⟩⟩

/-- One step of a walk that fails. -/
theorem resolve_cons_eq_error {name : String} {segment : String}
    (h : resolve family type (name :: names) = .error segment) :
    (∀ d ∈ family.getD type [], d.name ≠ name) ∧ segment = name ∨
      ∃ slot kind, LastDeclared (family.getD type []) name slot kind ∧
        ((∃ scalar rest, kind = .scalar scalar ∧ names = segment :: rest) ∨
          ∃ inner, kind = .record inner ∧ names ≠ [] ∧
            resolve family inner names = .error segment) := by
  obtain ⟨slot, kind, hdeclared⟩ | hnone := lastDeclared_or_undeclared (family.getD type []) name
  · refine .inr ⟨slot, kind, hdeclared, ?_⟩
    cases names with
    | nil =>
      rw [resolve_last hdeclared] at h
      cases h
    | cons next rest =>
      cases kind with
      | scalar scalar =>
        rw [resolve_behind_scalar hdeclared] at h
        cases h
        exact .inl ⟨scalar, rest, rfl, rfl⟩
      | record inner =>
        rw [resolve_behind_record hdeclared] at h
        exact .inr ⟨inner, rfl, List.cons_ne_nil next rest, Except.map_eq_error_iff.1 h⟩
  · rw [resolve_undeclared hnone] at h
    exact .inl ⟨hnone, (Except.error.inj h).symm⟩

/-- A walk fails with the segment at which the names get lost. -/
theorem resolve_eq_error_iff {segment : String} (hne : names ≠ []) :
    resolve family type names = .error segment ↔ LostAt family type names segment := by
  constructor
  · intro h
    induction names generalizing type with
    | nil => exact absurd rfl hne
    | cons name names ih =>
      rcases resolve_cons_eq_error h with ⟨hname, rfl⟩ | ⟨slot, kind, hdeclared, hkind⟩
      · exact .undeclared hname
      · rcases hkind with ⟨scalar, rest, rfl, rfl⟩ | ⟨inner, rfl, hnames, hinside⟩
        · exact .scalar hdeclared
        · exact .inward hdeclared (ih hnames hinside)
  · intro h
    clear hne
    induction h with
    | undeclared hname => exact resolve_undeclared hname _
    | scalar hdeclared => exact resolve_behind_scalar hdeclared _ _
    | inward hdeclared htail ih =>
      obtain ⟨next, rest, rfl⟩ := List.exists_cons_of_ne_nil htail.ne_nil
      rw [resolve_behind_record hdeclared]
      exact Except.map_eq_error_iff.2 ih

/-! ## Empty segments -/

/-- A path has an empty segment: there is nothing between two of its dots, before the first
of them or after the last, or there is nothing in it at all. -/
def HasEmptySegment (path : String) : Prop :=
  ∃ before after, path.toList = before ++ after ∧ (∀ c ∈ before.getLast?, c = '.') ∧
    ∀ c ∈ after.head?, c = '.'

theorem splitDots_head_nil {cs : List Char} {parts : List (List Char)}
    (h : splitDots cs = [] :: parts) : ∀ c ∈ cs.head?, c = '.' := by
  intro c hc
  cases cs with
  | nil => cases hc
  | cons b cs =>
    obtain rfl : b = c := Option.some.inj hc
    by_contra hdot
    rw [splitDots, if_neg hdot] at h
    split at h <;> cases h

/-- An empty part that is not the first stands behind a dot. -/
theorem exists_of_nil_mem_tail_splitDots {cs : List Char} (h : [] ∈ (splitDots cs).tail) :
    ∃ before after, cs = before ++ '.' :: after ∧ ∀ c ∈ after.head?, c = '.' := by
  induction cs with
  | nil => cases h
  | cons c cs ih =>
    obtain ⟨first, parts, hparts⟩ := List.exists_cons_of_ne_nil (splitDots_ne_nil cs)
    by_cases hc : c = '.'
    · subst hc
      rw [splitDots, if_pos rfl, List.tail_cons, hparts, List.mem_cons] at h
      rcases h with rfl | h
      · exact ⟨[], cs, rfl, splitDots_head_nil hparts⟩
      · obtain ⟨before, after, rfl, hafter⟩ := ih (by rw [hparts]; exact h)
        exact ⟨'.' :: before, after, rfl, hafter⟩
    · rw [splitDots, if_neg hc, hparts] at h
      obtain ⟨before, after, rfl, hafter⟩ := ih (by rw [hparts]; exact h)
      exact ⟨c :: before, after, rfl, hafter⟩

theorem nil_mem_splitDots_of_head {cs : List Char} (h : ∀ c ∈ cs.head?, c = '.') :
    [] ∈ splitDots cs := by
  cases cs with
  | nil => simp [splitDots]
  | cons c cs =>
    obtain rfl : c = '.' := h c rfl
    simp [splitDots]

/-- The empty text is among the segments of the paths that have an empty segment. -/
theorem empty_mem_segments_iff {path : String} : "" ∈ segments path ↔ HasEmptySegment path := by
  have hmem : "" ∈ segments path ↔ [] ∈ splitDots path.toList := by
    rw [segments, List.mem_map]
    constructor
    · rintro ⟨part, hpart, hempty⟩
      rwa [String.ofList_eq_empty_iff.1 hempty] at hpart
    · intro h
      exact ⟨[], h, rfl⟩
  rw [hmem]
  constructor
  · intro h
    obtain ⟨first, parts, hparts⟩ := List.exists_cons_of_ne_nil (splitDots_ne_nil path.toList)
    rw [hparts, List.mem_cons] at h
    rcases h with rfl | h
    · exact ⟨[], path.toList, rfl, by simp, splitDots_head_nil hparts⟩
    · have htail : [] ∈ (splitDots path.toList).tail := by rwa [hparts]
      obtain ⟨before, after, hpath, hafter⟩ := exists_of_nil_mem_tail_splitDots htail
      exact ⟨before ++ ['.'], after, by simp [hpath], by simp, hafter⟩
  · rintro ⟨before, after, hpath, hbefore, hafter⟩
    rw [hpath]
    have hnil := nil_mem_splitDots_of_head hafter
    rcases List.eq_nil_or_concat before with rfl | ⟨front, last, rfl⟩
    · exact hnil
    · obtain rfl : last = '.' := hbefore last (by simp)
      rw [List.concat_eq_append, List.append_assoc, List.singleton_append, splitDots_append]
      exact List.mem_append_right _ hnil

/-- The types that paths lead into.  A name with a dot in it stands in no path. -/
inductive Visited (family : Family) : (type : Nat) → Prop
  | root : Visited family Family.root
  | inward {type name slot inner} (hvisited : Visited family type)
      (hdeclared : LastDeclared (family.getD type []) name slot (.record inner))
      (hdot : '.' ∉ name.toList) :
      Visited family inner

/-- What names lead to from a visited type, longer names lead to from the root. -/
theorem Visited.exists_leads (h : Visited family type) {kind : FieldKind}
    (hleads : LeadsTo family type names kind) (hdot : ∀ name ∈ names, '.' ∉ name.toList) :
    ∃ before, LeadsTo family Family.root (before ++ names) kind ∧
      ∀ name ∈ before ++ names, '.' ∉ name.toList := by
  induction h generalizing names with
  | root => exact ⟨[], hleads, hdot⟩
  | inward _ hdeclared hname ih =>
    obtain ⟨before, hbefore, hdots⟩ :=
      ih (.inward hdeclared hleads) (List.forall_mem_cons.2 ⟨hname, hdot⟩)
    exact ⟨before ++ [_], by simpa using hbefore, by simpa using hdots⟩

/-- Where no visited type has a field with the empty name, names with an empty one among
them lead nowhere. -/
theorem LeadsTo.empty_notMem {kind : FieldKind} (h : LeadsTo family type names kind)
    (hvisited : Visited family type) (hdot : ∀ name ∈ names, '.' ∉ name.toList)
    (hnames : ∀ type, Visited family type → ∀ d ∈ family.getD type [], d.name ≠ "") :
    "" ∉ names := by
  induction h with
  | @here type name slot kind hdeclared =>
    obtain ⟨d, hd, rfl⟩ := exists_lastDeclared_iff.1 ⟨slot, kind, hdeclared⟩
    simpa using (hnames type hvisited d hd).symm
  | @inward type name slot inner names kind hdeclared htail ih =>
    rw [List.forall_mem_cons] at hdot
    obtain ⟨d, hd, rfl⟩ := exists_lastDeclared_iff.1 ⟨slot, _, hdeclared⟩
    rw [List.mem_cons, not_or]
    exact ⟨(hnames type hvisited d hd).symm, ih (.inward hvisited hdeclared hdot.1) hdot.2⟩

end RecordFilter.Path

namespace RecordFilter

open RecordFilter.Path

variable {family : Family}

theorem resolvePath_eq_error_iff {path : String} {e : CompileError} :
    resolvePath family path = .error e ↔
      ∃ segment, LostAt family Family.root (segments path) segment ∧
        e = .fieldNotFound segment path := by
  rw [resolvePath, Except.mapError_eq_error_iff]
  refine exists_congr fun segment => ?_
  rw [resolve_eq_error_iff (segments_ne_nil path), eq_comm (a := e)]

/-- A condition whose path gets lost keeps its rule set from compiling. -/
theorem RuleSet.exists_compile_eq_error {options : CompileOptions} {rules : RuleSet}
    {c : Condition} (hc : c ∈ rules.conditions) {e : CompileError}
    (hpath : resolvePath family c.field = .error e) :
    ∃ e', rules.compile options family = .error e' := by
  cases hcompile : rules.compile options family with
  | error e' => exact ⟨e', rfl⟩
  | ok p =>
    obtain ⟨-, -, hconditions⟩ := compile_eq_ok_iff.1 hcompile
    obtain ⟨compiled, hcompiled⟩ := exists_forall₂_iff.1 ⟨_, hconditions⟩ c hc
    obtain ⟨literal, type, route, -, hresolve, -⟩ := hcompiled.exists_test
    rw [resolvePath_eq_ok_iff.2 hresolve] at hpath
    cases hpath

/-- Empty segments match nothing exactly when no type that a path leads into declares the
empty name.  A path with an empty segment is then not found, as a whole, and no rule set
that has one compiles. -/
theorem emptySegments_match_nothing_iff (family : Family) :
    ((∀ path, HasEmptySegment path →
        ∃ segment, resolvePath family path = .error (.fieldNotFound segment path)) ∧
      ∀ (options : CompileOptions) (rules : RuleSet),
        (∃ c ∈ rules.conditions, HasEmptySegment c.field) →
          ∃ e, rules.compile options family = .error e) ↔
      ∀ type, Visited family type → ∀ d ∈ family.getD type [], d.name ≠ "" := by
  constructor
  · rintro ⟨hfails, -⟩ type hvisited d hd hname
    obtain ⟨slot, kind, hdeclared⟩ := exists_lastDeclared_iff.2 ⟨d, hd, hname⟩
    obtain ⟨before, hleads, hdot⟩ :=
      hvisited.exists_leads (.here hdeclared) (by simp)
    have hspells : Spells (".".intercalate (before ++ [""])) (before ++ [""]) :=
      ⟨hleads.ne_nil, hdot, rfl⟩
    have hsegments := segments_eq_iff.2 hspells
    obtain ⟨route, hresolve⟩ := exists_resolve_eq_ok_iff.2 hleads
    obtain ⟨segment, herror⟩ :=
      hfails _ (empty_mem_segments_iff.1 (by rw [hsegments]; simp))
    rw [← hsegments] at hresolve
    rw [resolvePath_eq_ok_iff.2 hresolve] at herror
    cases herror
  · intro hnames
    have hfails : ∀ path, HasEmptySegment path →
        ∃ segment, resolvePath family path = .error (.fieldNotFound segment path) := by
      intro path hempty
      cases hresolve : resolvePath family path with
      | error e =>
        obtain ⟨segment, -, rfl⟩ := resolvePath_eq_error_iff.1 hresolve
        exact ⟨segment, rfl⟩
      | ok target =>
        have hleads := exists_resolve_eq_ok_iff.1 ⟨_, resolvePath_eq_ok_iff.1 hresolve⟩
        have hdot := (segments_eq_iff.1 rfl : Spells path (segments path)).no_dot
        exact absurd (empty_mem_segments_iff.2 hempty)
          (hleads.empty_notMem .root hdot hnames)
    refine ⟨hfails, ?_⟩
    rintro options rules ⟨c, hc, hempty⟩
    obtain ⟨segment, herror⟩ := hfails c.field hempty
    exact RuleSet.exists_compile_eq_error hc herror

/-- Parcels with a label whose only field has the empty name. -/
def parcels : Family :=
  [[⟨"Label", .record 1⟩], [⟨"", .scalar .int⟩]]

/-- The path `Label.` has an empty segment after its dot, and yet leads to a field. -/
theorem emptySegment_matches :
    HasEmptySegment "Label." ∧
      resolvePath parcels "Label." = .ok ⟨.scalar .int, [0, 0]⟩ ∧
      (RuleSet.allOf [⟨"Label.", .equal, some (.int 1)⟩]).compile {} parcels =
        .ok ⟨.and, [⟨"Label.", .equal, .int [0, 0] .equal 1⟩]⟩ := by
  refine ⟨⟨['L', 'a', 'b', 'e', 'l', '.'], [], by simp, by simp, by simp⟩, ?_, ?_⟩
  · decide +kernel
  · decide +kernel

end RecordFilter
