import Mathlib
import RecordFilter.Proofs.CacheKey
import RecordFilter.Proofs.Json.TakesText
import RecordFilter.Proofs.OperatorLaws

/-!
# Contains as an order of texts

`Contains` on a string field asks whether the text of the literal is a substring of the value.
Substrings are those of characters; in UTF-8 they are those of bytes as well, since no character
begins inside another one (`bytesOf_infix_iff`).

Being a substring is an order, and so conditions with longer texts select fewer records:
`contains_substring_order`.
-/

namespace RecordFilter

open RecordFilter.Path

/-! ## Substrings -/

namespace Text

theorem bytesOf_inj {cs ds : List Char} (h : bytesOf cs = bytesOf ds) : cs = ds := by
  rw [← utf8_ofList, ← utf8_ofList] at h
  exact String.ofList_inj.1 (Cache.utf8_inj h)

/-- Where the bytes of one text occur among those of another, so do its characters. -/
theorem bytesOf_infix_iff {ns hs : List Char} : bytesOf ns <:+: bytesOf hs ↔ ns <:+: hs := by
  constructor
  · rintro ⟨x, y, hbytes⟩
    cases ns with
    | nil => exact List.nil_infix
    | cons c cs =>
      have htext : IsText (x ++ (bytesOf (c :: cs) ++ y)) := ⟨hs, by rw [← hbytes, List.append_assoc]⟩
      have hfront : IsText x := by
        rw [bytesOf_cons, List.append_assoc] at htext
        exact htext.of_append_utf8EncodeChar
      obtain ⟨ws, rfl⟩ := (IsText.append_iff ⟨c :: cs, rfl⟩).1 (hfront.append_iff.1 htext)
      obtain ⟨us, rfl⟩ := hfront
      refine ⟨us, ws, bytesOf_inj ?_⟩
      rw [bytesOf_append, bytesOf_append, hbytes]
  · rintro ⟨us, ws, rfl⟩
    exact ⟨bytesOf us, bytesOf ws, by rw [bytesOf_append, bytesOf_append]⟩

/-- A text is some text, then another, then some text, if the other is a substring. -/
theorem exists_append_iff {n h : String} : (∃ u w, h = u ++ n ++ w) ↔ n.toList <:+: h.toList := by
  constructor
  · rintro ⟨u, w, rfl⟩
    exact ⟨u.toList, w.toList, by rw [String.toList_append, String.toList_append]⟩
  · rintro ⟨us, ws, hlist⟩
    refine ⟨String.ofList us, String.ofList ws, String.toList_inj.1 ?_⟩
    rw [String.toList_append, String.toList_append, String.toList_ofList, String.toList_ofList, hlist]

end Text

/-! ## Conditions on strings -/

section StringField

variable {options : CompileOptions} {family : Family} {connector : Connector} {path : String}
  {names : List String} {literal : Literal} {n : String}
  (hblank : ¬ ∀ ch ∈ path.toList, Text.isBlank ch) (hspells : Spells path names)
  (hleads : LeadsTo family Family.root names (.scalar .string))
  (hn : literal.toString? options.stringCoercion = some n)

section

include hn

theorem Literal.fit?_string : literal.fit? options .string = some (.string n) := by
  rw [fit?, hn, Option.map_some]

end

include hblank hspells hleads hn

/-- On a string field, a condition with an operator of strings is well formed where its literal has a
text. -/
theorem Condition.wellFormed_string {op : Operator} (hop : ScalarType.string.Supports op) :
    (op.comparing path literal).WellFormed options family :=
  ⟨hblank, literal, .string, .string n, rfl, ⟨names, hspells, hleads⟩, Literal.fit?_string hn, hop⟩

/-- A record that passes such a condition has a string. -/
theorem Condition.exists_reads_of_passesAlone {op : Operator} (hop : ScalarType.string.Supports op)
    {record : Record}
    (hpasses : (op.comparing path literal).passesAlone options family connector record = true) :
    ∃ h, Reads family Family.root record names .string (.string h) := by
  have hwell := wellFormed_string hblank hspells hleads hn hop
  obtain ⟨names', type, value, -, -, hspells', hreads, -⟩ := (passesAlone_iff_holds hwell).1 hpasses
  obtain rfl : names' = names :=
    (segments_eq_iff.2 hspells').symm.trans (segments_eq_iff.2 hspells)
  have hpath : (op.comparing path literal).PathLeadsTo family (.scalar type) :=
    ⟨names', hspells, hreads.leadsTo⟩
  cases hpath.unique ⟨names', hspells, hleads⟩
  have hkind := hreads.kind_eq
  cases value with
  | string h => exact ⟨h, hreads⟩
  | _ => cases hkind

section Reads

variable {record : Record} {h : String}
  (hreads : Reads family Family.root record names .string (.string h))
include hreads

theorem Condition.passesAlone_contains_iff :
    (Operator.contains.comparing path literal).passesAlone options family connector record = true ↔
      n.toList <:+: h.toList := by
  have hwell : (Operator.contains.comparing path literal).WellFormed options family :=
    wellFormed_string hblank hspells hleads hn rfl
  rw [passesAlone_iff_holds hwell, holds_iff_relates hspells hreads (Literal.fit?_string hn)]
  rfl

theorem Condition.passesAlone_equal_iff :
    (Operator.equal.comparing path literal).passesAlone options family connector record = true ↔
      h = n := by
  have hwell : (Operator.equal.comparing path literal).WellFormed options family :=
    wellFormed_string hblank hspells hleads hn trivial
  rw [passesAlone_iff_holds hwell, holds_iff_relates hspells hreads (Literal.fit?_string hn)]
  simp [Operator.Relates, Literal.equal]

end Reads

end StringField

section Order

variable {options : CompileOptions} {family : Family} {path : String} {names : List String}

/-- On a string field, `Contains` with a literal selects the records whose value is some text, then
the text of the literal, then some text: always with no text, and never with one that is longer than
the value.  In UTF-8 these are the values whose bytes have those of the literal among them.

If one text is a substring of another then `Contains` with the shorter selects all that `Contains` or
`Equal` with the longer do; and two values that contain each other are equal. -/
theorem contains_substring_order (hblank : ¬ ∀ ch ∈ path.toList, Text.isBlank ch)
    (hspells : Spells path names) (hleads : LeadsTo family Family.root names (.scalar .string))
    {literal literal' : Literal} {n m : String}
    (hn : literal.toString? options.stringCoercion = some n)
    (hm : literal'.toString? options.stringCoercion = some m) (connector : Connector) :
    (Operator.contains.comparing path literal).CompilesAlone options family connector ∧
      (∀ (record : Record) (h : String),
        Reads family Family.root record names .string (.string h) →
          ((Operator.contains.comparing path literal).passesAlone options family connector record =
              true ↔ ∃ u w, h = u ++ n ++ w) ∧
            ((Operator.contains.comparing path literal).passesAlone options family connector record =
              true ↔ Text.utf8 n <:+: Text.utf8 h) ∧
            (n = "" →
              (Operator.contains.comparing path literal).passesAlone options family connector
                record = true) ∧
            (h.length < n.length →
              (Operator.contains.comparing path literal).passesAlone options family connector
                record = false)) ∧
      ((∃ u w, n = u ++ m ++ w) → ∀ record : Record, ∀ op ∈ [Operator.contains, .equal],
        (op.comparing path literal).passesAlone options family connector record = true →
          (Operator.contains.comparing path literal').passesAlone options family connector record =
            true) ∧
      ∀ record record' : Record, Reads family Family.root record names .string (.string n) →
        Reads family Family.root record' names .string (.string m) →
        (Operator.contains.comparing path literal').passesAlone options family connector record =
          true →
        (Operator.contains.comparing path literal).passesAlone options family connector record' =
          true → n = m := by
  have hcontains : ∀ {record : Record} {h : String},
      Reads family Family.root record names .string (.string h) →
        ((Operator.contains.comparing path literal).passesAlone options family connector record =
          true ↔ n.toList <:+: h.toList) :=
    fun hreads => Condition.passesAlone_contains_iff hblank hspells hleads hn hreads
  have hcontains' : ∀ {record : Record} {h : String},
      Reads family Family.root record names .string (.string h) →
        ((Operator.contains.comparing path literal').passesAlone options family connector record =
          true ↔ m.toList <:+: h.toList) :=
    fun hreads => Condition.passesAlone_contains_iff hblank hspells hleads hm hreads
  refine ⟨?_, ?_, ?_, ?_⟩
  · exact Condition.compilesAlone_iff.2 (Condition.wellFormed_string hblank hspells hleads hn rfl)
  · intro record h hreads
    refine ⟨?_, ?_, ?_, ?_⟩
    · rw [hcontains hreads, Text.exists_append_iff]
    · rw [hcontains hreads, Text.utf8_eq_bytesOf, Text.utf8_eq_bytesOf, Text.bytesOf_infix_iff]
    · rintro rfl
      exact (hcontains hreads).2 List.nil_infix
    · intro hlt
      rw [Bool.eq_false_iff, ne_eq, hcontains hreads]
      intro hinfix
      have hle := hinfix.length_le
      rw [String.length_toList, String.length_toList] at hle
      omega
  · intro hsubstring record op hop hpasses
    rw [Text.exists_append_iff] at hsubstring
    rw [List.mem_pair] at hop
    have hsupports : ScalarType.string.Supports op := by
      rcases hop with rfl | rfl
      · rfl
      · trivial
    obtain ⟨h, hreads⟩ :=
      Condition.exists_reads_of_passesAlone hblank hspells hleads hn hsupports hpasses
    rcases hop with rfl | rfl
    · exact (hcontains' hreads).2 (hsubstring.trans ((hcontains hreads).1 hpasses))
    · obtain rfl := (Condition.passesAlone_equal_iff hblank hspells hleads hn hreads).1 hpasses
      exact (hcontains' hreads).2 hsubstring
  · intro record record' hreads hreads' hpasses hpasses'
    have hle := (hcontains' hreads).1 hpasses
    have hle' := (hcontains hreads').1 hpasses'
    exact String.toList_inj.1 (hle'.eq_of_length_le hle.length_le)

/-- Boxes with a label. -/
def labels : Family := [[⟨"Label", .scalar .string⟩]]

/-- The text `1212` occurs twice in the value, one occurrence inside the other. -/
theorem contains_substring_order_labels :
    (Operator.contains.comparing "Label" (.int 1212)).passesAlone {} labels .and
        [.string "x121212"] = true ∧
      (Operator.contains.comparing "Label" (.string "21")).passesAlone {} labels .and
        [.string "x121212"] = true := by
  have hblank : ¬ ∀ ch ∈ "Label".toList, Text.isBlank ch :=
    fun hall => absurd (hall 'L' (by decide)) (by decide)
  have hspells : Spells "Label" ["Label"] := segments_eq_iff.1 (by decide +kernel)
  have hresolve : Path.resolve labels Family.root ["Label"] = .ok ⟨.scalar .string, [0]⟩ := by
    decide +kernel
  have hreads : Reads labels Family.root [.string "x121212"] ["Label"] .string (.string "x121212") :=
    (reads_iff_of_resolve hresolve).2 ⟨rfl, rfl⟩
  have hn : (Literal.int 1212).toString? ({} : CompileOptions).stringCoercion = some "1212" := by
    decide +kernel
  have hm : (Literal.string "21").toString? ({} : CompileOptions).stringCoercion = some "21" := rfl
  obtain ⟨-, hvalues, horder, -⟩ :=
    contains_substring_order hblank hspells hreads.leadsTo hn hm .and
  have hpasses := (hvalues _ _ hreads).1.2 ⟨"x12", "", by decide +kernel⟩
  exact ⟨hpasses, horder ⟨"1", "2", by decide +kernel⟩ _ .contains (by simp) hpasses⟩

end Order

end RecordFilter
