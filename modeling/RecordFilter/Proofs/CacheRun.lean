import Mathlib
import RecordFilter.Cache
import RecordFilter.Proofs.CacheKey

/-!
# A cache gives the answers of the compiler

A run is a sequence of calls to one cache, each of which sees the entries that the calls
before it left.  Rule sets are given to a call as they are at that moment, so edits between
calls are covered.

`Faithful` is the invariant: whatever is found under the digest of a rule set is what the
rule set compiles to.  It holds of a new cache (`faithful_empty`), every call keeps it
(`Faithful.step`), and so no call in a run answers anything else than the compiler
(`answers_get_eq_compile`).  The digest has to tell content keys apart; no other property of
it is used.
-/

namespace RecordFilter.Cache

/-! ## Runs -/

/-- A call to a cache. -/
inductive Call
  | get (rules : RuleSet)
  | clear
  | size
  | isEmpty

/-- What a call returns. -/
inductive Answer
  | predicate (result : Except CompileError Predicate)
  | cleared
  | size (n : Nat)
  | isEmpty (b : Bool)

/-- What one call returns, and the cache after it. -/
def step (digest : List UInt8 → List UInt8) (cache : Cache) : Call → Answer × Cache
  | .get rules =>
    let (result, cache) := cache.get rules digest
    (.predicate result, cache)
  | .clear => (.cleared, cache.clear)
  | .size => (.size cache.size, cache)
  | .isEmpty => (.isEmpty cache.isEmpty, cache)

/-- What the calls of a run return, in order. -/
def answers (digest : List UInt8 → List UInt8) : Cache → List Call → List Answer
  | _, [] => []
  | cache, call :: calls =>
    let (answer, cache) := step digest cache call
    answer :: answers digest cache calls

variable {digest : List UInt8 → List UInt8} {cache : Cache}

/-! ## The invariant -/

/-- What is kept for a rule set is what the rule set compiles to. -/
def Faithful (digest : List UInt8 → List UInt8) (cache : Cache) : Prop :=
  ∀ (rules : RuleSet) (p : Predicate), rules.Fits → cache.lookup (digest (key rules)) = some p →
    cache.compile rules = .ok p

theorem faithful_empty (digest : List UInt8 → List UInt8) (family : Family)
    (options : CompileOptions) : Faithful digest ⟨family, options, []⟩ := by
  intro rules p _ hlookup
  cases hlookup

theorem Faithful.clear (cache : Cache) : Faithful digest cache.clear := by
  intro rules p _ hlookup
  rw [lookup_clear] at hlookup
  cases hlookup

theorem compile_insertIfAbsent (cache : Cache) (k : List UInt8) (p : Predicate) :
    (cache.insertIfAbsent k p).2.compile = cache.compile := by
  unfold insertIfAbsent
  split <;> rfl

/-- Keeping what a rule set compiles to keeps the invariant.  Another rule set with the same
digest would have the same content. -/
theorem Faithful.insertIfAbsent (h : Faithful digest cache) (hdigest : Function.Injective digest)
    {rules : RuleSet} {p : Predicate} (hfits : rules.Fits) (hcompile : cache.compile rules = .ok p) :
    Faithful digest (cache.insertIfAbsent (digest (key rules)) p).2 := by
  intro other q hother hlookup
  rw [compile_insertIfAbsent]
  by_cases hkey : digest (key other) = digest (key rules)
  · have hsame : other = rules := key_inj hother hfits (hdigest hkey)
    subst hsame
    rw [lookup_insertIfAbsent, Option.some.injEq] at hlookup
    rw [← hlookup, Cache.insertIfAbsent]
    cases hkept : cache.lookup (digest (key other)) with
    | some kept => exact h other kept hfits hkept
    | none => exact hcompile
  · rw [lookup_insertIfAbsent_of_ne cache p hkey] at hlookup
    exact h other q hother hlookup

/-- Asked for a rule set, a faithful cache answers what the compiler answers. -/
theorem Faithful.get_fst (h : Faithful digest cache) {rules : RuleSet} (hfits : rules.Fits) :
    (cache.get rules digest).1 = cache.compile rules := by
  unfold Cache.get
  cases hkept : cache.lookup (digest (key rules)) with
  | some kept => exact (h rules kept hfits hkept).symm
  | none =>
    cases hcompile : cache.compile rules with
    | error e => rfl
    | ok p =>
      simp only [Cache.insertIfAbsent, hkept]

theorem Faithful.get_snd (h : Faithful digest cache) (hdigest : Function.Injective digest)
    {rules : RuleSet} (hfits : rules.Fits) : Faithful digest (cache.get rules digest).2 := by
  unfold Cache.get
  cases hkept : cache.lookup (digest (key rules)) with
  | some kept => exact h
  | none =>
    cases hcompile : cache.compile rules with
    | error e => exact h
    | ok p => exact h.insertIfAbsent hdigest hfits hcompile

/-- A call keeps the invariant. -/
theorem Faithful.step (h : Faithful digest cache) (hdigest : Function.Injective digest)
    (call : Call) (hfits : ∀ rules, call = .get rules → rules.Fits) :
    Faithful digest (step digest cache call).2 := by
  cases call with
  | get rules => exact h.get_snd hdigest (hfits rules rfl)
  | clear => exact Faithful.clear cache
  | size => exact h
  | isEmpty => exact h

theorem compile_get (cache : Cache) (rules : RuleSet) (digest : List UInt8 → List UInt8) :
    (cache.get rules digest).2.compile = cache.compile := by
  unfold Cache.get
  split
  · rfl
  · split
    · rfl
    · exact compile_insertIfAbsent cache _ _

/-- No call changes the family or the options. -/
theorem compile_step (cache : Cache) (call : Call) :
    (Cache.step digest cache call).2.compile = cache.compile := by
  cases call with
  | get rules => exact compile_get cache rules digest
  | _ => rfl

/-! ## Whole runs -/

/-- In a run from a faithful cache every answer to a rule set is the compiler's.  The
induction is on the calls, and the invariant passes from each cache to the next. -/
theorem Faithful.answers_getElem? (h : Faithful digest cache) (hdigest : Function.Injective digest)
    {calls : List Call} (hfits : ∀ rules, .get rules ∈ calls → rules.Fits) {i : Nat}
    {rules : RuleSet} (hcall : calls[i]? = some (.get rules)) :
    (answers digest cache calls)[i]? = some (.predicate (cache.compile rules)) := by
  induction calls generalizing cache i with
  | nil => cases hcall
  | cons call calls ih =>
    cases i with
    | zero =>
      obtain rfl : call = .get rules := Option.some.inj hcall
      show some (Answer.predicate (cache.get rules digest).1) = _
      rw [h.get_fst (hfits rules List.mem_cons_self)]
    | succ i =>
      have hnext : Faithful digest (Cache.step digest cache call).2 :=
        h.step hdigest call fun other hother => hfits other (hother ▸ List.mem_cons_self)
      have hfitsTail : ∀ other, .get other ∈ calls → other.Fits :=
        fun other hother => hfits other (List.mem_cons_of_mem call hother)
      have hanswer := ih hnext hfitsTail hcall
      rw [compile_step] at hanswer
      exact hanswer

/-- In every run of a new cache, every rule set is answered as if it were compiled afresh:
with the same predicate, or the same error. -/
theorem answers_get_eq_compile (hdigest : Function.Injective digest) (family : Family)
    (options : CompileOptions) {calls : List Call} (hfits : ∀ rules, .get rules ∈ calls → rules.Fits)
    {i : Nat} {rules : RuleSet} (hcall : calls[i]? = some (.get rules)) :
    (answers digest ⟨family, options, []⟩ calls)[i]? =
      some (.predicate (rules.compile options family)) :=
  (faithful_empty digest family options).answers_getElem? hdigest hfits hcall

/-- A rule set on one field. -/
def minors : RuleSet := .allOf [⟨"Age", .lessThan, some (.int 18)⟩]

/-- The same predicate comes out before an error and after the cache was cleared. -/
theorem answers_minors :
    (answers List.reverse ⟨[[⟨"Age", .scalar .int⟩]], {}, []⟩
      [.get minors, .get (minors.setConnector none), .clear, .get minors])[3]? =
        some (.predicate (.ok ⟨.and, [⟨"Age", .lessThan, .int [0] .lessThan 18⟩]⟩)) := by
  have hfits : minors.Fits := by
    intro c hc
    obtain rfl := List.mem_singleton.1 hc
    exact ⟨by decide, fun s hs => by cases hs⟩
  have hcompile : minors.compile {} [[⟨"Age", .scalar .int⟩]] =
      .ok ⟨.and, [⟨"Age", .lessThan, .int [0] .lessThan 18⟩]⟩ := by decide +kernel
  rw [← hcompile]
  refine answers_get_eq_compile List.reverse_injective _ _ ?_ rfl
  intro rules hrules
  simp only [List.mem_cons, reduceCtorEq, Call.get.injEq, List.not_mem_nil, or_false,
    false_or] at hrules
  rcases hrules with rfl | rfl | rfl
  · exact hfits
  · exact hfits
  · exact hfits

end RecordFilter.Cache
