import Mathlib
import RecordFilter.Proofs.Json.TreeLanguage

/-!
# How deep documents nest

The grammar of documents is given by how deep containers may nest.  A text that is a document for
one depth is the same document for any that its tree stays within (`ValueText.of_within`), and for
every larger one (`ValueText.mono`).  So a text denotes one tree, whatever the depth:
`Denotes.unique`.
-/

namespace RecordFilter.Json

/-- The containers of a value nest at most as deep as given. -/
def Tree.Within : Nat → Tree → Prop
  | _, .null | _, .bool _ | _, .number _ | _, .string _ => True
  | 0, .array _ | 0, .object _ => False
  | depth + 1, .array elements => ∀ element ∈ elements, element.Within depth
  | depth + 1, .object members => ∀ member ∈ members, member.2.Within depth

theorem Tree.Within.mono {depth depth' : Nat} {tree : Tree} (h : tree.Within depth)
    (hle : depth ≤ depth') : tree.Within depth' := by
  induction depth generalizing depth' tree with
  | zero =>
    cases tree with
    | array | object => exact h.elim
    | _ => simp [Within]
  | succ depth ih =>
    cases depth' with
    | zero => exact absurd hle (Nat.not_succ_le_zero depth)
    | succ depth' =>
      have hle' : depth ≤ depth' := Nat.le_of_succ_le_succ hle
      cases tree with
      | array => exact fun element helement => ih (h element helement) hle'
      | object => exact fun member hmember => ih (h member hmember) hle'
      | _ => trivial

/-- What knows no containers decodes none. -/
theorem Tree.within_of_decode? {α : Type} {decode? : Tree → Option α} {tree : Tree} {a : α}
    {depth : Nat} (harray : ∀ elements, decode? (.array elements) = none)
    (hobject : ∀ members, decode? (.object members) = none) (h : decode? tree = some a) :
    tree.Within depth := by
  cases tree with
  | array elements => cases (harray elements).symm.trans h
  | object members => cases (hobject members).symm.trans h
  | _ => simp [Tree.Within]

/-- A text is the document of a tree. -/
def Denotes (text : String) (tree : Tree) : Prop :=
  ∃ depth, DocumentText Numeral.value? depth text.toList tree

/-! ## Containers -/

section Lists

variable {α : Type} {Item Item' : List Char → α → Prop} {opening closing : Char}
  {text : List Char} {as : List α}

theorem Following.imp (h : Following Item text as)
    (himp : ∀ text, ∀ a ∈ as, Item text a → Item' text a) : Following Item' text as := by
  induction h with
  | done hspaces => exact .done hspaces
  | next hbefore hbetween hitem _ ih =>
    exact .next hbefore hbetween (himp _ _ List.mem_cons_self hitem)
      (ih fun text a ha => himp text a (List.mem_cons_of_mem _ ha))

theorem Enclosed.imp (h : Enclosed Item opening closing text as)
    (himp : ∀ text, ∀ a ∈ as, Item text a → Item' text a) :
    Enclosed Item' opening closing text as := by
  cases h with
  | empty hspaces => exact .empty hspaces
  | items hspaces hitem hrest =>
    exact .items hspaces (himp _ _ List.mem_cons_self hitem)
      (hrest.imp fun text a ha => himp text a (List.mem_cons_of_mem _ ha))

end Lists

theorem MemberText.imp {Value Value' : List Char → Tree → Prop} {text : List Char}
    {member : String × Tree} (h : MemberText Value text member)
    (himp : ∀ text, Value text member.2 → Value' text member.2) :
    MemberText Value' text member := by
  cases h with
  | member hname hbefore hbetween hvalue => exact .member hname hbefore hbetween (himp _ hvalue)

/-! ## Values -/

section Values

variable {value? : Numeral → Option NumberValue} {depth depth' : Nat} {text : List Char}
  {tree : Tree}

theorem ValueTextWith.imp {Array Array' : List Char → List Tree → Prop}
    {Object Object' : List Char → List (String × Tree) → Prop}
    (h : ValueTextWith value? Array Object text tree)
    (harray : ∀ elements, tree = .array elements → Array text elements → Array' text elements)
    (hobject : ∀ members, tree = .object members → Object text members →
      Object' text members) :
    ValueTextWith value? Array' Object' text tree := by
  cases h with
  | null => exact .null
  | true => exact .true
  | false => exact .false
  | number htext hvalue => exact .number htext hvalue
  | string htext => exact .string htext
  | array htext => exact .array (harray _ rfl htext)
  | object htext => exact .object (hobject _ rfl htext)

/-- A value may be taken for one that nests deeper. -/
theorem ValueText.mono (h : ValueText value? depth text tree) (hle : depth ≤ depth') :
    ValueText value? depth' text tree := by
  induction depth generalizing depth' text tree with
  | zero => cases depth' <;> exact ValueTextWith.imp h (fun _ _ h => h.elim) fun _ _ h => h.elim
  | succ depth ih =>
    cases depth' with
    | zero => exact absurd hle (Nat.not_succ_le_zero depth)
    | succ depth' =>
      have hle' : depth ≤ depth' := Nat.le_of_succ_le_succ hle
      refine ValueTextWith.imp h (fun _ _ harray => ?_) fun _ _ hobject => ?_
      · exact harray.imp fun text element _ htext => ih htext hle'
      · exact hobject.imp fun text member _ htext => htext.imp fun text hvalue => ih hvalue hle'

/-- A value may be taken for one that nests as deep as its tree. -/
theorem ValueText.of_within (h : ValueText value? depth text tree) (hwithin : tree.Within depth') :
    ValueText value? depth' text tree := by
  induction depth generalizing depth' text tree with
  | zero => exact h.mono (Nat.zero_le depth')
  | succ depth ih =>
    cases depth' with
    | zero =>
      refine ValueTextWith.imp h (fun elements htree _ => ?_) fun members htree _ => ?_
      · rw [htree] at hwithin
        exact hwithin.elim
      · rw [htree] at hwithin
        exact hwithin.elim
    | succ depth' =>
      refine ValueTextWith.imp h (fun elements htree harray => ?_) fun members htree hobject => ?_
      · rw [htree] at hwithin
        exact harray.imp fun text element helement htext => ih htext (hwithin element helement)
      · rw [htree] at hwithin
        exact hobject.imp fun text member hmember htext =>
          htext.imp fun text hvalue => ih hvalue (hwithin member hmember)

end Values

/-! ## Documents -/

theorem DocumentText.mono {depth depth' : Nat} {text : List Char} {tree : Tree}
    (h : DocumentText Numeral.value? depth text tree) (hle : depth ≤ depth') :
    DocumentText Numeral.value? depth' text tree := by
  obtain ⟨hbefore, hvalue, hafter⟩ := h
  exact .document hbefore (hvalue.mono hle) hafter

/-- A text of a tree that nests no deeper than the reader goes is read. -/
theorem Denotes.document {text : String} {tree : Tree} (h : Denotes text tree)
    (hwithin : tree.Within maxDepth) : DocumentText Numeral.value? maxDepth text.toList tree := by
  obtain ⟨depth, hdocument⟩ := h
  generalize text.toList = cs at hdocument ⊢
  obtain ⟨hbefore, hvalue, hafter⟩ := hdocument
  exact .document hbefore (hvalue.of_within hwithin) hafter

/-- A text denotes one tree, however deep it may nest. -/
theorem Denotes.unique {text : String} {tree tree' : Tree} (h : Denotes text tree)
    (h' : Denotes text tree') : tree = tree' := by
  obtain ⟨depth, hdocument⟩ := h
  obtain ⟨depth', hdocument'⟩ := h'
  exact (hdocument.mono (Nat.le_max_left depth depth')).unique
    (hdocument'.mono (Nat.le_max_right depth depth'))

end RecordFilter.Json
