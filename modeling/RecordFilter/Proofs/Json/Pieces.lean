import Mathlib
import RecordFilter.Proofs.Json.Reader

/-!
# Reading what was written

A text is made of pieces, one after the other.  `Returns` says what a reader makes of a
piece, whatever stands behind it: a value, with the rest left over, or a fault.  `Delimited`
is all that is asked of the rest; a number would go on otherwise.  Pieces come from
characters by `Text.bytesOf`.

`Leads` says what the first byte of a piece announces.  `elements_returns` and
`members_returns` run the loops over the pieces of an array and of an object.  The first
fault among the pieces is the outcome.
-/

namespace RecordFilter.Text

/-! ## Bytes of characters -/

def bytesOf (cs : List Char) : List UInt8 :=
  cs.flatMap String.utf8EncodeChar

@[simp] theorem bytesOf_nil : bytesOf [] = [] := rfl

@[simp] theorem bytesOf_cons (c : Char) (cs : List Char) :
    bytesOf (c :: cs) = String.utf8EncodeChar c ++ bytesOf cs :=
  List.flatMap_cons

@[simp] theorem bytesOf_append (cs ds : List Char) :
    bytesOf (cs ++ ds) = bytesOf cs ++ bytesOf ds :=
  List.flatMap_append

theorem utf8_ofList (cs : List Char) : utf8 (String.ofList cs) = bytesOf cs := by
  rw [utf8, String.toByteArray_ofList, List.utf8Encode, bytesOf]
  simp

theorem utf8_eq_bytesOf (s : String) : utf8 s = bytesOf s.toList := by
  rw [← utf8_ofList, String.ofList_toList]

theorem utf8EncodeChar_of_lt {c : Char} (h : c.toNat < 0x80) :
    String.utf8EncodeChar c = [UInt8.ofNat c.toNat] := by
  have hc : c.val.toNat ≤ 0x7F := Nat.lt_succ_iff.1 h
  rw [String.utf8EncodeChar]
  simp only [hc, if_true]
  rfl

/-- Characters outside ASCII have no byte of ASCII. -/
theorem le_of_mem_utf8EncodeChar {c : Char} (h : 0x80 ≤ c.toNat) {b : UInt8}
    (hb : b ∈ String.utf8EncodeChar c) : 0x80 ≤ b.toNat := by
  have hc : ¬ c.val.toNat ≤ 0x7F := Nat.not_le.2 h
  rw [String.utf8EncodeChar] at hb
  simp only [if_neg hc] at hb
  split at hb
  · simp only [List.mem_cons, List.not_mem_nil, or_false] at hb
    rcases hb with rfl | rfl <;> rw [UInt8.toNat_ofNat'] <;> omega
  split at hb
  · simp only [List.mem_cons, List.not_mem_nil, or_false] at hb
    rcases hb with rfl | rfl | rfl <;> rw [UInt8.toNat_ofNat'] <;> omega
  · simp only [List.mem_cons, List.not_mem_nil, or_false] at hb
    rcases hb with rfl | rfl | rfl | rfl <;> rw [UInt8.toNat_ofNat'] <;> omega

end RecordFilter.Text

namespace RecordFilter.Json.Reader

variable {α β : Type}

/-! ## Written pieces -/

/-- The bytes that numbers are made of. -/
def isNumberByte (b : UInt8) : Bool :=
  Numeral.isDigit b || b ∈ ['+'.toUInt8, '-'.toUInt8, '.'.toUInt8, 'e'.toUInt8, 'E'.toUInt8]

/-- A text that does not carry on a number that ends before it. -/
def Delimited (rest : List UInt8) : Prop :=
  ∀ b ∈ rest.head?, isNumberByte b = false

/-- What a reader makes of a piece, whatever stands behind the piece. -/
def Returns (r : Reader α) (piece : List UInt8) (outcome : Except Fault α) : Prop :=
  ∀ rest, Delimited rest → r (piece ++ rest) = outcome.map fun a => (a, rest)

/-- A piece that begins neither with white space nor with a closing bracket. -/
def Starts (piece : List UInt8) : Prop :=
  ∃ b tail, piece = b :: tail ∧ isSpace b = false ∧ b ≠ ']'.toUInt8

/-- A piece that begins with a quote, as the members of objects do. -/
def Quoted (piece : List UInt8) : Prop :=
  ∃ tail, piece = '"'.toUInt8 :: tail

theorem delimited_nil : Delimited [] := by
  intro b hb
  cases hb

theorem delimited_cons {b : UInt8} {rest : List UInt8} (h : isNumberByte b = false) :
    Delimited (b :: rest) := by
  intro c hc
  obtain rfl : b = c := Option.some.inj hc
  exact h

theorem Returns.of_ok {r : Reader α} {piece : List UInt8} {a : α}
    (h : ∀ rest, r (piece ++ rest) = .ok (a, rest)) : Returns r piece (.ok a) :=
  fun rest _ => h rest

theorem Returns.map {r : Reader α} {piece : List UInt8} {outcome : Except Fault α}
    (h : Returns r piece outcome) (g : α → β) : Returns (g <$> r) piece (outcome.map g) := by
  intro rest hrest
  rw [map_eq_bind]
  cases outcome with
  | error fault => exact bind_of_error (h rest hrest)
  | ok a => exact bind_of_ok (h rest hrest)

/-- Two pieces read one after the other.  The second must not carry on a number that ends
the first. -/
theorem Returns.bind {r : Reader α} {f : α → Reader β} {p q : List UInt8} {a : α}
    {outcome : Except Fault β} (hr : Returns r p (.ok a)) (hq : ∀ rest, Delimited (q ++ rest))
    (hf : Returns (f a) q outcome) : Returns (r >>= f) (p ++ q) outcome := by
  intro rest hrest
  rw [List.append_assoc, bind_of_ok (hr (q ++ rest) (hq rest))]
  exact hf rest hrest

theorem Returns.complete {r : Reader α} {piece : List UInt8} {outcome : Except Fault α}
    (h : Returns r piece outcome) : r.complete piece = outcome := by
  have hread := h [] delimited_nil
  rw [List.append_nil] at hread
  rw [Reader.complete, hread]
  cases outcome <;> rfl

/-- A piece whose first byte announces a value of a kind. -/
def Leads (kind : Lead) (piece : List UInt8) : Prop :=
  ∃ b tail, piece = b :: tail ∧ isSpace b = false ∧ Lead.ofByte b = kind

theorem Leads.lead_append {kind : Lead} {piece : List UInt8} (h : Leads kind piece)
    (rest : List UInt8) : lead (piece ++ rest) = .ok (kind, piece ++ rest) := by
  obtain ⟨b, tail, rfl, hspace, hkind⟩ := h
  rw [List.cons_append, lead_cons hspace, hkind]

theorem Leads.starts {kind : Lead} {piece : List UInt8} (h : Leads kind piece)
    (hkind : kind ≠ .other) : Starts piece := by
  obtain ⟨b, tail, hpiece, hspace, hb⟩ := h
  refine ⟨b, tail, hpiece, hspace, ?_⟩
  intro hclose
  rw [hclose] at hb
  exact hkind hb.symm

theorem Quoted.leads {piece : List UInt8} (h : Quoted piece) : Leads .string piece := by
  obtain ⟨tail, hpiece⟩ := h
  exact ⟨'"'.toUInt8, tail, hpiece, by decide, by decide⟩

/-- Pieces with a separator before each but the first. -/
theorem intercalate_cons_eq_append_flatMap {γ : Type} (sep : γ) (piece : List γ)
    (pieces : List (List γ)) :
    [sep].intercalate (piece :: pieces) = piece ++ pieces.flatMap (sep :: ·) := by
  induction pieces generalizing piece with
  | nil => simp
  | cons next pieces ih =>
    rw [List.intercalate_cons_of_ne_nil (List.cons_ne_nil next pieces), ih]
    simp

/-- After a piece come the pieces that follow, each led by a comma, and then the closing
byte. -/
theorem delimited_flatMap_append {γ : Type} (piece : γ → List UInt8) (items : List γ)
    {closing : UInt8} (hclosing : isNumberByte closing = false) (rest : List UInt8) :
    Delimited (items.flatMap (fun item => ','.toUInt8 :: piece item) ++ closing :: rest) := by
  cases items with
  | nil => exact delimited_cons hclosing
  | cons item items => exact delimited_cons (by decide)

/-! ## Arrays -/

section Elements

variable {element : Reader α} {items : List (List UInt8 × Except Fault α)}

theorem iterate_elementStep_close (htakes : Takes 1 element) (done : List α) (rest : List UInt8) :
    iterate (elementStep element) done (']'.toUInt8 :: rest) = .ok (done.reverse, rest) := by
  rw [iterate_of_shrinks (elementStep_shrinks htakes), elementStep,
    bind_of_ok (anotherElement_close _), if_neg (by decide), closeArray,
    bind_of_ok (symbol_cons (by decide)), pure_apply]

theorem iterate_elementStep_another (htakes : Takes 1 element) {done : List α}
    {input piece rest : List UInt8} {outcome : Except Fault α}
    (hanother : anotherElement done.isEmpty input = .ok (true, piece ++ rest))
    (hreturns : Returns element piece outcome) (hrest : Delimited rest) :
    iterate (elementStep element) done input =
      outcome.bind fun a => iterate (elementStep element) (a :: done) rest := by
  rw [iterate_of_shrinks (elementStep_shrinks htakes), elementStep, bind_of_ok hanother, if_pos rfl]
  have helement := hreturns rest hrest
  cases outcome with
  | error fault =>
    rw [bind_of_error helement]
    rfl
  | ok a =>
    rw [bind_of_ok helement]
    rfl

/-- The elements that are still to come, once one has been read.  The induction is on them;
`done` grows by each that is a value. -/
theorem iterate_elementStep_rest (htakes : Takes 1 element)
    (h : ∀ item ∈ items, Starts item.1 ∧ Returns element item.1 item.2) {done : List α}
    (hdone : done ≠ []) (rest : List UInt8) :
    iterate (elementStep element) done
        (items.flatMap (fun item => ','.toUInt8 :: item.1) ++ ']'.toUInt8 :: rest) =
      (items.mapM Prod.snd).map fun as => (done.reverse ++ as, rest) := by
  induction items generalizing done with
  | nil =>
    rw [List.flatMap_nil, List.nil_append, iterate_elementStep_close htakes]
    simp [Except.map, pure, Except.pure]
  | cons item items ih =>
    rw [List.forall_mem_cons] at h
    obtain ⟨⟨⟨b, tail, hpiece, hspace, hclose⟩, hreturns⟩, hitems⟩ := h
    have hempty : done.isEmpty = false := by simpa using hdone
    have hanother : anotherElement done.isEmpty
        (','.toUInt8 :: item.1 ++ (items.flatMap (fun item => ','.toUInt8 :: item.1) ++
          ']'.toUInt8 :: rest)) =
        .ok (true, item.1 ++ (items.flatMap (fun item => ','.toUInt8 :: item.1) ++
          ']'.toUInt8 :: rest)) := by
      rw [hempty, hpiece]
      exact anotherElement_next hspace hclose
    rw [List.flatMap_cons, List.append_assoc,
      iterate_elementStep_another htakes hanother hreturns
        (delimited_flatMap_append Prod.fst items (by decide) rest), List.mapM_cons]
    cases item.2 with
    | error fault => rfl
    | ok a =>
      show iterate (elementStep element) (a :: done) _ = _
      rw [ih hitems (List.cons_ne_nil a done)]
      cases items.mapM Prod.snd with
      | error fault => rfl
      | ok as => simp [Except.map, bind, Except.bind, pure, Except.pure]

/-- An array returns the values of its elements, or the fault of the first element that has
one. -/
theorem elements_returns (htakes : Takes 1 element)
    (h : ∀ item ∈ items, Starts item.1 ∧ Returns element item.1 item.2) (rest : List UInt8) :
    elements element ([','.toUInt8].intercalate (items.map Prod.fst) ++ ']'.toUInt8 :: rest) =
      (items.mapM Prod.snd).map fun as => (as, rest) := by
  cases items with
  | nil => exact iterate_elementStep_close htakes [] rest
  | cons item items =>
    rw [List.forall_mem_cons] at h
    obtain ⟨⟨⟨b, tail, hpiece, hspace, hclose⟩, hreturns⟩, hitems⟩ := h
    have hanother : anotherElement ([] : List α).isEmpty
        (item.1 ++ (items.flatMap (fun item => ','.toUInt8 :: item.1) ++ ']'.toUInt8 :: rest)) =
        .ok (true, item.1 ++ (items.flatMap (fun item => ','.toUInt8 :: item.1) ++
          ']'.toUInt8 :: rest)) := by
      rw [hpiece]
      exact anotherElement_first hspace hclose
    rw [elements, List.map_cons, intercalate_cons_eq_append_flatMap, List.flatMap_map,
      List.append_assoc, iterate_elementStep_another htakes hanother hreturns
        (delimited_flatMap_append Prod.fst items (by decide) rest), List.mapM_cons]
    cases item.2 with
    | error fault => rfl
    | ok a =>
      show iterate (elementStep element) [a] _ = _
      rw [iterate_elementStep_rest htakes hitems (List.cons_ne_nil a [])]
      cases items.mapM Prod.snd with
      | error fault => rfl
      | ok as => simp [Except.map, bind, Except.bind, pure, Except.pure]

end Elements

/-! ## Objects -/

section Members

variable {member : α → Reader α} {items : List (List UInt8 × (α → Except Fault α))}

/-- Where members lead that are given by what each makes of a state. -/
def foldMembers (items : List (List UInt8 × (α → Except Fault α))) (start : α) : Except Fault α :=
  (items.map Prod.snd).foldlM (fun state next => next state) start

theorem foldMembers_cons (item : List UInt8 × (α → Except Fault α)) (start : α) :
    foldMembers (item :: items) start = (item.2 start).bind (foldMembers items) := rfl

theorem iterate_memberStep_close (htakes : ∀ state, Takes 1 (member state)) (first : Bool)
    (state : α) (rest : List UInt8) :
    iterate (memberStep member) (first, state) ('\x7d'.toUInt8 :: rest) = .ok (state, rest) := by
  rw [iterate_of_shrinks (memberStep_shrinks htakes), memberStep,
    bind_of_ok (anotherMember_close _), if_neg (by decide), closeObject,
    bind_of_ok (symbol_cons (by decide)), pure_apply]

theorem iterate_memberStep_another (htakes : ∀ state, Takes 1 (member state)) {first : Bool}
    {state : α} {input piece rest : List UInt8} {outcome : Except Fault α}
    (hanother : anotherMember first input = .ok (true, piece ++ rest))
    (hreturns : Returns (member state) piece outcome) (hrest : Delimited rest) :
    iterate (memberStep member) (first, state) input =
      outcome.bind fun state => iterate (memberStep member) (false, state) rest := by
  rw [iterate_of_shrinks (memberStep_shrinks htakes), memberStep, bind_of_ok hanother, if_pos rfl]
  have hmember := hreturns rest hrest
  cases outcome with
  | error fault =>
    rw [bind_of_error hmember]
    rfl
  | ok a =>
    rw [bind_of_ok hmember]
    rfl

/-- The members that are still to come, once one has been read. -/
theorem iterate_memberStep_rest (htakes : ∀ state, Takes 1 (member state))
    (h : ∀ item ∈ items, Quoted item.1 ∧ ∀ state, Returns (member state) item.1 (item.2 state))
    (state : α) (rest : List UInt8) :
    iterate (memberStep member) (false, state)
        (items.flatMap (fun item => ','.toUInt8 :: item.1) ++ '\x7d'.toUInt8 :: rest) =
      (foldMembers items state).map fun state => (state, rest) := by
  induction items generalizing state with
  | nil => exact iterate_memberStep_close htakes false state rest
  | cons item items ih =>
    rw [List.forall_mem_cons] at h
    obtain ⟨⟨⟨tail, hpiece⟩, hreturns⟩, hitems⟩ := h
    have hanother : anotherMember false
        (','.toUInt8 :: item.1 ++ (items.flatMap (fun item => ','.toUInt8 :: item.1) ++
          '\x7d'.toUInt8 :: rest)) =
        .ok (true, item.1 ++ (items.flatMap (fun item => ','.toUInt8 :: item.1) ++
          '\x7d'.toUInt8 :: rest)) := by
      rw [hpiece]
      exact anotherMember_next
    rw [List.flatMap_cons, List.append_assoc,
      iterate_memberStep_another htakes hanother (hreturns state)
        (delimited_flatMap_append Prod.fst items (by decide) rest), foldMembers_cons]
    cases item.2 state with
    | error fault => rfl
    | ok state' => exact ih hitems state'

/-- An object returns the state that its members lead to one after the other, or the first
fault. -/
theorem members_returns (htakes : ∀ state, Takes 1 (member state))
    (h : ∀ item ∈ items, Quoted item.1 ∧ ∀ state, Returns (member state) item.1 (item.2 state))
    (start : α) (rest : List UInt8) :
    members member start
        ([','.toUInt8].intercalate (items.map Prod.fst) ++ '\x7d'.toUInt8 :: rest) =
      (foldMembers items start).map fun state => (state, rest) := by
  cases items with
  | nil => exact iterate_memberStep_close htakes true start rest
  | cons item items =>
    rw [List.forall_mem_cons] at h
    obtain ⟨⟨⟨tail, hpiece⟩, hreturns⟩, hitems⟩ := h
    have hanother : anotherMember true
        (item.1 ++ (items.flatMap (fun item => ','.toUInt8 :: item.1) ++ '\x7d'.toUInt8 :: rest)) =
        .ok (true, item.1 ++ (items.flatMap (fun item => ','.toUInt8 :: item.1) ++
          '\x7d'.toUInt8 :: rest)) := by
      rw [hpiece]
      exact anotherMember_first
    rw [members, List.map_cons, intercalate_cons_eq_append_flatMap, List.flatMap_map,
      List.append_assoc, iterate_memberStep_another htakes hanother (hreturns start)
        (delimited_flatMap_append Prod.fst items (by decide) rest), foldMembers_cons]
    cases item.2 start with
    | error fault => rfl
    | ok state => exact iterate_memberStep_rest htakes hitems state rest

end Members

end RecordFilter.Json.Reader
