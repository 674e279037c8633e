import Mathlib
import RecordFilter.Proofs.CacheRun

/-!
# Which rule sets share an entry of a cache

`SameContent` compares rule sets part by part: strings character by character, whole numbers
and truth values by value, floats by their bits.  This is finer than `equal` for the two
zeros, and coarser for what is not a number.  It is what content keys distinguish, and so,
if the digest tells keys apart, what the entries of a cache stand for
(`sharesEntry_iff_sameContent`).

`entryOf?` is the place of the entry that answers a rule set.  A call to `get` adds entries
at the end only, so places stay what they are from one call to the next.
-/

namespace RecordFilter

open Number

/-! ## Content -/

/-- Literals of one kind with the same value; floats with the same bits. -/
def Literal.SameContent : Literal → Literal → Prop
  | .bool a, .bool b => a = b
  | .int a, .int b => a.toInt = b.toInt
  | .float a, .float b => a.toBits = b.toBits
  | .string a, .string b => a.toList = b.toList
  | _, _ => False

/-- Conditions with the same path, the same operator, and literals with the same content, if
there are any. -/
structure Condition.SameContent (a b : Condition) : Prop where
  field : a.field.toList = b.field.toList
  operator : a.operator = b.operator
  value : Option.Rel Literal.SameContent a.value b.value

/-- Rule sets with the same connector, or both without one, and the same conditions place by
place. -/
structure RuleSet.SameContent (a b : RuleSet) : Prop where
  connector : a.connector = b.connector
  conditions : List.Forall₂ Condition.SameContent a.conditions b.conditions

theorem Literal.sameContent_iff {a b : Literal} : a.SameContent b ↔ a = b := by
  cases a <;> cases b <;> simp only [SameContent, reduceCtorEq]
  case bool.bool => simp
  case int.int m n => rw [Int64.toInt_inj, Literal.int.injEq]
  case float.float x y =>
    rw [Literal.float.injEq]
    exact ⟨Cache.toBits_inj, congrArg Binary64.toBits⟩
  case string.string s t => rw [String.toList_inj, Literal.string.injEq]

theorem Condition.sameContent_iff {a b : Condition} : a.SameContent b ↔ a = b := by
  obtain ⟨field, operator, value⟩ := a
  obtain ⟨field', operator', value'⟩ := b
  have hrel : Option.Rel Literal.SameContent value value' ↔ value = value' := by
    cases value <;> cases value' <;>
      simp [Option.rel_some_some, Literal.sameContent_iff]
  constructor
  · rintro ⟨hfield, hoperator, hvalue⟩
    simp only at hfield hoperator hvalue
    rw [String.toList_inj.1 hfield, hoperator, hrel.1 hvalue]
  · intro h
    cases h
    exact ⟨rfl, rfl, hrel.2 rfl⟩

/-- Two rule sets with the same content are the same. -/
theorem RuleSet.sameContent_iff {a b : RuleSet} : a.SameContent b ↔ a = b := by
  have heq : Condition.SameContent = Eq := by
    funext a b
    exact propext Condition.sameContent_iff
  obtain ⟨connector, conditions⟩ := a
  obtain ⟨connector', conditions'⟩ := b
  constructor
  · rintro ⟨hconnector, hconditions⟩
    rw [heq, List.forall₂_eq_eq_eq] at hconditions
    simp only at hconnector hconditions
    rw [hconnector, hconditions]
  · intro h
    cases h
    exact ⟨rfl, by rw [heq, List.forall₂_eq_eq_eq]⟩

namespace Cache

/-- Rule sets with the same key are those with the same content. -/
theorem key_eq_iff {a b : RuleSet} (ha : a.Fits) (hb : b.Fits) :
    key a = key b ↔ a.SameContent b := by
  rw [RuleSet.sameContent_iff]
  exact ⟨key_inj ha hb, congrArg key⟩

/-! ## Entries -/

variable {digest : List UInt8 → List UInt8} {cache : Cache}

/-- The place of the entry that answers a rule set, if there is one. -/
def entryOf? (digest : List UInt8 → List UInt8) (cache : Cache) (rules : RuleSet) : Option Nat :=
  cache.entries.findIdx? fun entry => digest (key rules) == entry.1

theorem entryOf?_eq_none_iff {rules : RuleSet} :
    entryOf? digest cache rules = none ↔ cache.lookup (digest (key rules)) = none := by
  rw [entryOf?, List.findIdx?_eq_none_iff, lookup, List.lookup_eq_none_iff]
  simp

/-- A rule set that has an entry is answered with the predicate in it, and the cache stays
as it is. -/
theorem get_eq_of_entryOf? {rules : RuleSet} {i : Nat}
    (h : entryOf? digest cache rules = some i) :
    ∃ p, cache.entries[i]? = some (digest (key rules), p) ∧
      cache.get rules digest = (.ok p, cache) := by
  obtain ⟨hi, hdigest, hfirst⟩ := List.findIdx?_eq_some_iff_getElem.1 h
  cases hentry : cache.entries[i] with
  | mk k p =>
    rw [hentry, beq_iff_eq] at hdigest
    have hlookup : cache.lookup k = some p := by
      refine List.lookup_eq_some_iff.2
        ⟨cache.entries.take i, cache.entries.drop (i + 1), ?_, ?_⟩
      · rw [← hentry, ← List.drop_eq_getElem_cons hi, List.take_append_drop]
      · intro entry hmem
        obtain ⟨j, hj, rfl⟩ := List.mem_take_iff_getElem.1 hmem
        have hne := hfirst j (by omega)
        simpa [hdigest] using hne
    refine ⟨p, by rw [List.getElem?_eq_getElem hi, hentry, hdigest], ?_⟩
    rw [Cache.get, hdigest, hlookup]

/-- A call adds entries at the end only. -/
theorem entries_prefix_get (cache : Cache) (rules : RuleSet) (digest : List UInt8 → List UInt8) :
    cache.entries <+: (cache.get rules digest).2.entries := by
  unfold Cache.get
  cases hkept : cache.lookup (digest (key rules)) with
  | some kept => exact List.prefix_refl _
  | none =>
    cases hcompile : cache.compile rules with
    | error e => exact List.prefix_refl _
    | ok p =>
      simp only [insertIfAbsent, hkept]
      exact List.prefix_append _ _

/-- A rule set keeps the entry that answers it. -/
theorem entryOf?_get_of_eq_some {rules other : RuleSet} {i : Nat}
    (h : entryOf? digest cache rules = some i) :
    entryOf? digest (cache.get other digest).2 rules = some i :=
  (entries_prefix_get cache other digest).findIdx?_eq_some h

/-- A rule set that compiles has an entry once it was asked for. -/
theorem exists_entryOf?_get {rules : RuleSet} {p : Predicate}
    (hcompile : cache.compile rules = .ok p) :
    ∃ i, entryOf? digest (cache.get rules digest).2 rules = some i := by
  rw [← Option.isSome_iff_exists, Option.isSome_iff_ne_none, ne_eq, entryOf?_eq_none_iff]
  unfold Cache.get
  cases hkept : cache.lookup (digest (key rules)) with
  | some kept => simp [hkept]
  | none => simp [hcompile, lookup_insertIfAbsent]

/-- Content keys are the same exactly for rule sets with the same content.  So, if the digest
tells keys apart, two rule sets that compile and are asked for one after the other, in
whatever state of the cache, are answered by one entry exactly when they have the same
content. -/
theorem sharesEntry_iff_sameContent {a b : RuleSet} (ha : a.Fits) (hb : b.Fits) :
    (key a = key b ↔ a.SameContent b) ∧
      ∀ digest : List UInt8 → List UInt8, Function.Injective digest →
        ∀ (cache : Cache) (p q : Predicate), cache.compile a = .ok p → cache.compile b = .ok q →
          ∃ i j, entryOf? digest ((cache.get a digest).2.get b digest).2 a = some i ∧
            entryOf? digest ((cache.get a digest).2.get b digest).2 b = some j ∧
              (i = j ↔ a.SameContent b) := by
  refine ⟨key_eq_iff ha hb, fun digest hdigest cache p q hp hq => ?_⟩
  have hfirst : ∃ i, entryOf? digest (cache.get a digest).2 a = some i := exists_entryOf?_get hp
  obtain ⟨i, hfirst⟩ := hfirst
  rw [← compile_get cache a digest] at hq
  obtain ⟨j, hj⟩ := exists_entryOf?_get hq
  have hi : entryOf? digest ((cache.get a digest).2.get b digest).2 a = some i :=
    entryOf?_get_of_eq_some hfirst
  refine ⟨i, j, hi, hj, ?_, ?_⟩
  · rintro rfl
    obtain ⟨_, hentry, -⟩ := get_eq_of_entryOf? hi
    obtain ⟨_, hentry', -⟩ := get_eq_of_entryOf? hj
    rw [hentry, Option.some.injEq, Prod.mk.injEq] at hentry'
    exact (key_eq_iff ha hb).1 (hdigest hentry'.1)
  · intro hsame
    obtain rfl := RuleSet.sameContent_iff.1 hsame
    exact Option.some.inj (hi.symm.trans hj)

/-- A rule set on the balance of an account. -/
def balanceRules (x : Binary64) : RuleSet :=
  .allOf [⟨"Balance", .equal, some (.float x)⟩]

/-- Zero and minus zero compare equal, and yet have keys and entries of their own; what is
not a number does not compare equal with itself, and yet has one key. -/
theorem sharesEntry_zeros :
    (balanceRules ⟨false, 0⟩).equal (balanceRules ⟨true, 0⟩) = true ∧
      key (balanceRules ⟨false, 0⟩) ≠ key (balanceRules ⟨true, 0⟩) ∧
      (∃ i j, i ≠ j ∧
        let cache : Cache := ⟨[[⟨"Balance", .scalar .float⟩]], {}, []⟩
        let after := ((cache.get (balanceRules ⟨false, 0⟩) List.reverse).2.get
          (balanceRules ⟨true, 0⟩) List.reverse).2
        entryOf? List.reverse after (balanceRules ⟨false, 0⟩) = some i ∧
          entryOf? List.reverse after (balanceRules ⟨true, 0⟩) = some j) ∧
      (balanceRules .nan).equal (balanceRules .nan) = false ∧
      (balanceRules .nan).SameContent (balanceRules .nan) := by
  have hfits : ∀ x, (balanceRules x).Fits := by
    intro x c hc
    obtain rfl := List.mem_singleton.1 hc
    have hfield : "Balance".utf8ByteSize < 2 ^ 64 := by decide
    exact ⟨hfield, fun s hs => by cases hs⟩
  have hdiffer : ¬ (balanceRules ⟨false, 0⟩).SameContent (balanceRules ⟨true, 0⟩) := by
    rw [RuleSet.sameContent_iff]
    decide
  obtain ⟨hkey, hentries⟩ := sharesEntry_iff_sameContent (hfits ⟨false, 0⟩) (hfits ⟨true, 0⟩)
  obtain ⟨i, j, hi, hj, hij⟩ := hentries List.reverse List.reverse_injective
    ⟨[[⟨"Balance", .scalar .float⟩]], {}, []⟩
    ⟨.and, [⟨"Balance", .equal, .float [0] .equal ⟨false, 0⟩⟩]⟩
    ⟨.and, [⟨"Balance", .equal, .float [0] .equal ⟨true, 0⟩⟩]⟩ (by decide +kernel)
    (by decide +kernel)
  refine ⟨by decide +kernel, fun h => hdiffer (hkey.1 h), ⟨i, j, fun h => hdiffer (hij.1 h), hi, hj⟩,
    by decide +kernel, ?_⟩
  exact (sharesEntry_iff_sameContent (hfits .nan) (hfits .nan)).1.1 rfl

end Cache

end RecordFilter
