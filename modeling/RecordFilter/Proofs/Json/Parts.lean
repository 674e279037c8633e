import Mathlib
import RecordFilter.Proofs.Json.Members

/-!
# Records with parts, in JSON

A record is written as an object with a member for each of its parts, or as an array of their values
in order.  A part may have several names, and a value that stands for it where it is left out.

`Respelling` is one step from a way to write a record to another: members change places, a member
takes another of its names or another spelling of its value, a member with the value for nothing is
left out, an object becomes an array.  None of them changes what the record is decoded to, if this
depends on the values of the parts and not on their spelling (`decode_values?_of_respelling`).  So
any number of them, one way or the other, do not (`Respelled.decode_values?_eq`).
-/

namespace RecordFilter.Json

/-- A part of a record. -/
structure Part where
  /-- The names that its member may have. -/
  names : List String
  /-- The value that stands for the part where it is left out, if it may be. -/
  blank : Option Tree
  /-- Whether a value is another spelling of a value. -/
  Respells : Tree → Tree → Prop

/-- No name belongs to two parts. -/
def NamedApart (parts : List Part) : Prop :=
  parts.Pairwise fun part part' => part.names.Disjoint part'.names

/-! ## The values of the parts -/

/-- The value of a part in an object.  A part may not be given twice. -/
def Part.inMembers? (part : Part) (members : List (String × Tree)) : Option Tree :=
  match valuesOf part.names members with
  | [] => part.blank
  | [tree] => some tree
  | _ :: _ :: _ => none

/-- The values of the parts in an object, in the order of the parts. -/
def arrange? (members : List (String × Tree)) : List Part → Option (List Tree)
  | [] => some []
  | part :: parts =>
    (part.inMembers? members).bind fun tree => (arrange? members parts).map (tree :: ·)

/-- The values of the parts in an array, those at the end that are left out included. -/
def complete? : List Part → List Tree → Option (List Tree)
  | [], [] => some []
  | [], _ :: _ => none
  | part :: parts, [] => part.blank.bind fun tree => (complete? parts []).map (tree :: ·)
  | _ :: parts, tree :: trees => (complete? parts trees).map (tree :: ·)

/-- The values of the parts of a record. -/
def values? (parts : List Part) : Tree → Option (List Tree)
  | .object members =>
    if onlyNamed (parts.flatMap Part.names) members then arrange? members parts else none
  | .array elements => complete? parts elements
  | .null | .bool _ | .number _ | .string _ => none

section Decoding

variable {α : Type} {members : List (String × Tree)} {decode? : Tree → Option α}

/-- A part that may be left out is decoded to what stands for it, or to what its member is. -/
theorem Part.inMembers?_bind (part : Part) {blank : Tree} {a : α} (hpart : part.blank = some blank)
    (hblank : decode? blank = some a) :
    (part.inMembers? members).bind decode? =
      (atMostOne? part.names decode? members).map (Option.getD · a) := by
  rw [atMostOne?, inMembers?, hpart]
  rcases valuesOf part.names members with _ | ⟨tree, _ | ⟨second, trees⟩⟩
  · exact hblank
  · cases h : decode? tree <;> simp [h]
  · rfl

/-- A part that must be given is decoded to what its member is. -/
theorem Part.inMembers?_bind_of_blank_eq_none (part : Part) (hpart : part.blank = none) :
    (part.inMembers? members).bind decode? = (atMostOne? part.names decode? members).join := by
  rw [atMostOne?, inMembers?, hpart]
  rcases valuesOf part.names members with _ | ⟨tree, _ | ⟨second, trees⟩⟩
  · rfl
  · cases h : decode? tree <;> simp [h]
  · rfl

end Decoding

/-! ## Respellings -/

/-- One step from a way to write a record to another.  A change within an array is one of the object
that the array stands for. -/
inductive Respelling (parts : List Part) : Tree → Tree → Prop
  | reorder {members members'} (hperm : members.Perm members') :
      Respelling parts (.object members) (.object members')
  | rename {part name name' value members} (hpart : part ∈ parts) (hname : name ∈ part.names)
      (hname' : name' ∈ part.names) :
      Respelling parts (.object ((name, value) :: members)) (.object ((name', value) :: members))
  | rewrite {part name value value' members} (hpart : part ∈ parts) (hname : name ∈ part.names)
      (hvalue : part.Respells value value') :
      Respelling parts (.object ((name, value) :: members)) (.object ((name, value') :: members))
  | leaveOut {part name value members} (hpart : part ∈ parts) (hname : name ∈ part.names)
      (hblank : part.blank = some value) (honly : ∀ member ∈ members, member.1 ∉ part.names) :
      Respelling parts (.object ((name, value) :: members)) (.object members)
  | toArray {names values}
      (hnames : List.Forall₂ (fun part name => name ∈ Part.names part) parts names)
      (hvalues : values.length = names.length) :
      Respelling parts (.object (names.zip values)) (.array values)
  | leaveOutLast {part value values} (hpart : parts[values.length]? = some part)
      (hblank : part.blank = some value) :
      Respelling parts (.array (values ++ [value])) (.array values)

/-- Any number of steps, one way or the other. -/
def Respelled (parts : List Part) : Tree → Tree → Prop :=
  Relation.EqvGen (Respelling parts)

/-- What a list of values is decoded to does not depend on how the values are spelled. -/
def Respects {α : Type} : List Part → (List Tree → Option α) → Prop
  | [], _ => True
  | part :: parts, decode? =>
    (∀ value value' values, part.Respells value value' →
      decode? (value :: values) = decode? (value' :: values)) ∧
    ∀ value, Respects parts fun values => decode? (value :: values)

/-! ## Steps in an object -/

section Members

variable {α : Type} {parts : List Part} {part : Part} {name : String} {value value' : Tree}
  {members members' : List (String × Tree)}

theorem Part.inMembers?_cons_of_not_mem (h : name ∉ part.names) :
    part.inMembers? ((name, value) :: members) = part.inMembers? members := by
  rw [inMembers?, valuesOf_cons, if_neg h, inMembers?]

theorem Part.inMembers?_perm (hperm : members.Perm members') :
    part.inMembers? members = part.inMembers? members' := by
  have hvalues : (valuesOf part.names members).Perm (valuesOf part.names members') :=
    (hperm.filter _).map _
  unfold inMembers?
  generalize valuesOf part.names members = trees at hvalues
  generalize valuesOf part.names members' = trees' at hvalues
  match trees, trees', hvalues.length_eq with
  | [], [], _ => rfl
  | [tree], [tree'], _ => rw [List.perm_singleton.1 hvalues.symm]
  | _ :: _ :: _, _ :: _ :: _, _ => rfl

theorem arrange?_congr (h : ∀ part ∈ parts, part.inMembers? members = part.inMembers? members') :
    arrange? members parts = arrange? members' parts := by
  induction parts with
  | nil => rfl
  | cons part parts ih =>
    obtain ⟨hpart, hparts⟩ := List.forall_mem_cons.1 h
    rw [arrange?, arrange?, hpart, ih hparts]

/-- The other parts do not see a member. -/
theorem arrange?_cons_of_not_mem (h : ∀ part ∈ parts, name ∉ part.names) :
    arrange? ((name, value) :: members) parts = arrange? members parts :=
  arrange?_congr fun part hpart => part.inMembers?_cons_of_not_mem (h part hpart)

theorem Part.inMembers?_cons_of_mem (h : name ∈ part.names) :
    part.inMembers? ((name, value) :: members) =
      if valuesOf part.names members = [] then some value else none := by
  rw [inMembers?, valuesOf_cons, if_pos h]
  cases valuesOf part.names members <;> rfl

theorem NamedApart.eq {part' : Part} (hapart : NamedApart parts) (hpart : part ∈ parts)
    (hpart' : part' ∈ parts) (hname : name ∈ part.names) (hname' : name ∈ part'.names) :
    part = part' := by
  by_contra hne
  have hsymm : Std.Symm fun part part' : Part => part.names.Disjoint part'.names :=
    ⟨fun _ _ h => h.symm⟩
  exact hapart.forall hpart hpart' hne hname hname'

theorem arrange?_rename {name' : String} (hapart : NamedApart parts) (hpart : part ∈ parts)
    (hname : name ∈ part.names) (hname' : name' ∈ part.names) :
    arrange? ((name, value) :: members) parts = arrange? ((name', value) :: members) parts := by
  refine arrange?_congr fun other hother => ?_
  by_cases heq : part = other
  · subst heq
    rw [part.inMembers?_cons_of_mem hname, part.inMembers?_cons_of_mem hname']
  · have hnot : ∀ {name}, name ∈ part.names → name ∉ other.names := fun hname hmem =>
      heq (hapart.eq hpart hother hname hmem)
    rw [other.inMembers?_cons_of_not_mem (hnot hname),
      other.inMembers?_cons_of_not_mem (hnot hname')]

theorem arrange?_leaveOut (hapart : NamedApart parts) (hpart : part ∈ parts)
    (hname : name ∈ part.names) (hblank : part.blank = some value)
    (honly : ∀ member ∈ members, member.1 ∉ part.names) :
    arrange? ((name, value) :: members) parts = arrange? members parts := by
  refine arrange?_congr fun other hother => ?_
  by_cases hmem : name ∈ other.names
  · obtain rfl := hapart.eq hpart hother hname hmem
    have hnone : valuesOf part.names members = [] := by
      rw [valuesOf, List.map_eq_nil_iff, List.filter_eq_nil_iff]
      simpa using honly
    rw [part.inMembers?_cons_of_mem hname, if_pos hnone, Part.inMembers?, hnone, hblank]
  · exact other.inMembers?_cons_of_not_mem hmem

/-- The induction is on the parts: those before the one that is rewritten, and those behind it, do
not see the member. -/
theorem decode_arrange?_rewrite {decode? : List Tree → Option α} (hapart : NamedApart parts)
    (hrespects : Respects parts decode?) (hpart : part ∈ parts) (hname : name ∈ part.names)
    (hvalue : part.Respells value value') :
    (arrange? ((name, value) :: members) parts).bind decode? =
      (arrange? ((name, value') :: members) parts).bind decode? := by
  induction parts generalizing decode? with
  | nil => cases hpart
  | cons first parts ih =>
    obtain ⟨hfirst, hrest⟩ := List.pairwise_cons.1 hapart
    by_cases hmem : name ∈ first.names
    · obtain rfl := hapart.eq hpart List.mem_cons_self hname hmem
      have hnot : ∀ other ∈ parts, name ∉ other.names := fun other hother =>
        hfirst other hother hname
      rw [arrange?, arrange?, arrange?_cons_of_not_mem hnot, arrange?_cons_of_not_mem hnot,
        part.inMembers?_cons_of_mem hname, part.inMembers?_cons_of_mem hname]
      split
      · cases arrange? members parts with
        | none => rfl
        | some values => exact hrespects.1 value value' values hvalue
      · rfl
    · rw [arrange?, arrange?, first.inMembers?_cons_of_not_mem hmem,
        first.inMembers?_cons_of_not_mem hmem]
      cases first.inMembers? members with
      | none => rfl
      | some tree =>
        have hpart' : part ∈ parts := by
          refine (List.mem_cons.1 hpart).resolve_left fun heq => hmem ?_
          rwa [← heq]
        rw [Option.bind_some, Option.bind_some, Option.bind_map, Option.bind_map]
        exact ih hrest (hrespects.2 tree) hpart'

end Members

/-! ## From objects to arrays -/

section Arrays

variable {parts : List Part} {names : List String} {values : List Tree}

theorem exists_part_of_mem_zip
    (hnames : List.Forall₂ (fun part name => name ∈ Part.names part) parts names) :
    ∀ member ∈ names.zip values, ∃ part ∈ parts, member.1 ∈ part.names := by
  intro member hmember
  have hname : member.1 ∈ names := (List.of_mem_zip hmember).1
  clear hmember
  induction hnames with
  | nil => cases hname
  | cons hfirst _ ih =>
    rcases List.mem_cons.1 hname with heq | hrest
    · exact ⟨_, List.mem_cons_self, by rwa [heq]⟩
    · obtain ⟨part, hpart, hmem⟩ := ih hrest
      exact ⟨part, List.mem_cons_of_mem _ hpart, hmem⟩

theorem arrange?_zip (hapart : NamedApart parts)
    (hnames : List.Forall₂ (fun part name => name ∈ Part.names part) parts names)
    (hvalues : values.length = names.length) : arrange? (names.zip values) parts = some values := by
  induction hnames generalizing values with
  | nil =>
    rw [List.length_nil, List.length_eq_zero_iff] at hvalues
    rw [hvalues]
    rfl
  | @cons part name parts names hname hrest ih =>
    obtain ⟨hfirst, hapart'⟩ := List.pairwise_cons.1 hapart
    cases values with
    | nil => cases hvalues
    | cons value values =>
      have hnot : ∀ other ∈ parts, name ∉ other.names := fun other hother =>
        hfirst other hother hname
      have hnone : valuesOf part.names (names.zip values) = [] := by
        rw [valuesOf, List.map_eq_nil_iff, List.filter_eq_nil_iff]
        intro member hmember hmem
        obtain ⟨other, hother, hname'⟩ := exists_part_of_mem_zip hrest member hmember
        exact hfirst other hother (of_decide_eq_true hmem) hname'
      rw [List.zip_cons_cons, arrange?, arrange?_cons_of_not_mem hnot,
        part.inMembers?_cons_of_mem hname, if_pos hnone, ih hapart' (Nat.succ.inj hvalues)]
      rfl

theorem complete?_of_length_eq (h : values.length = parts.length) :
    complete? parts values = some values := by
  induction parts generalizing values with
  | nil =>
    rw [List.length_nil, List.length_eq_zero_iff] at h
    rw [h]
    rfl
  | cons part parts ih =>
    cases values with
    | nil => cases h
    | cons value values =>
      rw [complete?, ih (Nat.succ.inj h)]
      rfl

theorem complete?_leaveOutLast {part : Part} {value : Tree}
    (hpart : parts[values.length]? = some part) (hblank : part.blank = some value) :
    complete? parts (values ++ [value]) = complete? parts values := by
  induction values generalizing parts with
  | nil =>
    cases parts with
    | nil => cases hpart
    | cons first parts =>
      obtain rfl := Option.some.inj hpart
      rw [List.nil_append, complete?, complete?, hblank]
      rfl
  | cons first values ih =>
    cases parts with
    | nil => cases hpart
    | cons _ parts =>
      rw [List.cons_append, complete?, complete?, ih hpart]

end Arrays

/-! ## What a record consists of -/

section Members

variable {parts : List Part} {members : List (String × Tree)} {values : List Tree}

theorem exists_inMembers?_of_arrange? (h : arrange? members parts = some values) :
    ∀ part ∈ parts, ∃ value ∈ values, part.inMembers? members = some value := by
  induction parts generalizing values with
  | nil => exact fun _ hpart => nomatch hpart
  | cons first parts ih =>
    obtain ⟨value, hvalue, hmap⟩ := Option.bind_eq_some_iff.1 h
    obtain ⟨rest, hrest, rfl⟩ := Option.map_eq_some_iff.1 hmap
    intro part hpart
    rcases List.mem_cons.1 hpart with rfl | hpart
    · exact ⟨value, List.mem_cons_self, hvalue⟩
    · obtain ⟨value', hmem, hvalue'⟩ := ih hrest part hpart
      exact ⟨value', List.mem_cons_of_mem _ hmem, hvalue'⟩

/-- In an object whose parts have values, every member is the value of a part. -/
theorem mem_of_arrange? (honly : onlyNamed (parts.flatMap Part.names) members)
    (h : arrange? members parts = some values) : ∀ member ∈ members, member.2 ∈ values := by
  intro member hmember
  have hnamed : member.1 ∈ parts.flatMap Part.names :=
    of_decide_eq_true (List.all_eq_true.1 honly _ hmember)
  obtain ⟨part, hpart, hname⟩ := List.mem_flatMap.1 hnamed
  obtain ⟨value, hvalue, hpartValue⟩ := exists_inMembers?_of_arrange? h part hpart
  have hmem : member.2 ∈ valuesOf part.names members :=
    List.mem_map_of_mem (List.mem_filter.2 ⟨hmember, decide_eq_true hname⟩)
  rw [Part.inMembers?] at hpartValue
  split at hpartValue
  · next hnone =>
    rw [hnone] at hmem
    cases hmem
  · next tree hone =>
    rw [hone, List.mem_singleton] at hmem
    rw [hmem, Option.some.inj hpartValue]
    exact hvalue
  · cases hpartValue

theorem mem_of_complete? {elements : List Tree} (h : complete? parts elements = some values) :
    ∀ element ∈ elements, element ∈ values := by
  induction elements generalizing parts values with
  | nil => exact fun _ helement => nomatch helement
  | cons first elements ih =>
    cases parts with
    | nil => cases h
    | cons part parts =>
      obtain ⟨rest, hrest, rfl⟩ := Option.map_eq_some_iff.1 h
      rw [List.forall_mem_cons]
      exact ⟨List.mem_cons_self, fun element helement =>
        List.mem_cons_of_mem _ (ih hrest element helement)⟩

end Members

/-! ## All steps -/

/-- A step changes nothing about what a record is decoded to. -/
theorem decode_values?_of_respelling {α : Type} {parts : List Part}
    {decode? : List Tree → Option α} (hapart : NamedApart parts)
    (hrespects : Respects parts decode?) {tree tree' : Tree} (h : Respelling parts tree tree') :
    (values? parts tree).bind decode? = (values? parts tree').bind decode? := by
  have hnamed : ∀ {part : Part} {name : String}, part ∈ parts → name ∈ part.names →
      name ∈ parts.flatMap Part.names := fun hpart hname => List.mem_flatMap.2 ⟨_, hpart, hname⟩
  cases h with
  | @reorder members members' hperm =>
    have honly : onlyNamed (parts.flatMap Part.names) members =
        onlyNamed (parts.flatMap Part.names) members' := hperm.all_eq
    rw [values?, values?, honly,
      arrange?_congr fun part _ => part.inMembers?_perm hperm]
  | rename hpart hname hname' =>
    simp only [values?, onlyNamed_cons_iff, hnamed hpart hname, hnamed hpart hname',
      arrange?_rename hapart hpart hname hname']
  | rewrite hpart hname hvalue =>
    simp only [values?, onlyNamed_cons_iff, hnamed hpart hname, true_and]
    split
    · exact decode_arrange?_rewrite hapart hrespects hpart hname hvalue
    · rfl
  | leaveOut hpart hname hblank honly =>
    simp only [values?, onlyNamed_cons_iff, hnamed hpart hname, true_and,
      arrange?_leaveOut hapart hpart hname hblank honly]
  | @toArray names values hnames hvalues =>
    have honly : onlyNamed (parts.flatMap Part.names) (names.zip values) = true := by
      rw [onlyNamed, List.all_eq_true]
      intro member hmember
      obtain ⟨part, hpart, hname⟩ := exists_part_of_mem_zip hnames member hmember
      exact decide_eq_true (hnamed hpart hname)
    rw [values?, values?, if_pos honly, arrange?_zip hapart hnames hvalues,
      complete?_of_length_eq (hvalues.trans hnames.length_eq.symm)]
  | leaveOutLast hpart hblank =>
    rw [values?, values?, complete?_leaveOutLast hpart hblank]

theorem Respelled.decode_values?_eq {α : Type} {parts : List Part}
    {decode? : List Tree → Option α} (hapart : NamedApart parts)
    (hrespects : Respects parts decode?) {tree tree' : Tree} (h : Respelled parts tree tree') :
    (values? parts tree).bind decode? = (values? parts tree').bind decode? := by
  induction h with
  | rel _ _ hstep => exact decode_values?_of_respelling hapart hrespects hstep
  | refl => rfl
  | symm _ _ _ ih => exact ih.symm
  | trans _ _ _ _ _ ih ih' => exact ih.trans ih'

end RecordFilter.Json
