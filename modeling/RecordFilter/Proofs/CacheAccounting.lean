import Mathlib
import RecordFilter.Proofs.CacheEntries
import RecordFilter.Proofs.CacheSharing

/-!
# How the entries of a cache are counted

The calls of a run and what they returned tell which rule sets were served since the cache
was last cleared: those that were answered with a predicate.  The entries are those of their
contents.  Whether a rule set was found or compiled does not matter for this, and rule sets
that were refused leave no trace.

`EntriesOf.step` is the invariant for one call and `EntriesOf.after` for a run.
`Accounted` is what the invariant means for a user of the cache, and `accounted_after` says
that it holds at every moment.
-/

namespace RecordFilter.Cache

variable {digest : List UInt8 → List UInt8} {cache : Cache}

/-! ## What a run has served -/

/-- The cache after the calls of a run. -/
def after (digest : List UInt8 → List UInt8) : Cache → List Call → Cache
  | cache, [] => cache
  | cache, call :: calls => after digest (step digest cache call).2 calls

/-- The rule sets that were served, after one more call and its answer. -/
def serve (served : List RuleSet) : Call × Answer → List RuleSet
  | (.get rules, .predicate (.ok _)) => served ++ [rules]
  | (.clear, _) => []
  | _ => served

/-- The rule sets that were served since the last call that cleared the cache, in order. -/
def served (log : List (Call × Answer)) : List RuleSet :=
  log.foldl serve []

/-! ## The invariant -/

/-- A call serves its rule set exactly if there is an entry for it afterwards that it made
or found. -/
theorem EntriesOf.step {contents : List RuleSet} (h : EntriesOf digest cache contents)
    (call : Call) :
    EntriesOf digest (Cache.step digest cache call).2
      (serve contents (call, (Cache.step digest cache call).1)) := by
  cases call with
  | get rules =>
    rw [Cache.step]
    rcases get_cases cache rules digest with
      ⟨kept, hlookup, hget⟩ | ⟨hlookup, ⟨e, -, hget⟩ | ⟨p, -, hget⟩⟩
    · rw [hget]
      exact h.hit (mem_digests_of_lookup hlookup)
    · rw [hget]
      exact h
    · rw [hget]
      exact h.concat p (lookup_eq_none_iff.1 hlookup)
  | clear => exact entriesOf_clear cache
  | size => exact h
  | isEmpty => exact h

/-- The entries after a run are those of the rule sets that it served.  The induction is on
the calls. -/
theorem EntriesOf.after {contents : List RuleSet} (h : EntriesOf digest cache contents)
    (calls : List Call) :
    EntriesOf digest (Cache.after digest cache calls)
      ((calls.zip (answers digest cache calls)).foldl serve contents) := by
  induction calls generalizing cache contents with
  | nil => exact h
  | cons call calls ih => exact ih (h.step call)

/-! ## The account -/

/-- What the entries of a cache amount to when some rule sets were served, and what the next
call does to them. -/
structure Accounted (digest : List UInt8 → List UInt8) (cache : Cache) (served : List RuleSet) :
    Prop where
  /-- There are as many entries as different contents that were served, and asking for their
  number changes nothing. -/
  size : step digest cache .size = (.size (served.map key).toFinset.card, cache)
  /-- There is no entry when there are none to count. -/
  isEmpty : step digest cache .isEmpty = (.isEmpty (cache.size == 0), cache)
  /-- A rule set is found when its content was served. -/
  found_iff : ∀ rules, (∃ kept, cache.lookup (digest (key rules)) = some kept) ↔
    ∃ other ∈ served, key other = key rules
  /-- A rule set that is found changes nothing. -/
  hit : ∀ rules kept, cache.lookup (digest (key rules)) = some kept →
    cache.get rules digest = (.ok kept, cache)
  /-- A rule set that is not found is compiled. -/
  missed : ∀ rules, cache.lookup (digest (key rules)) = none →
    (cache.get rules digest).1 = cache.compile rules
  /-- A rule set that is refused changes nothing. -/
  refused : ∀ rules e, (cache.get rules digest).1 = .error e → (cache.get rules digest).2 = cache
  /-- A rule set that is not found, and compiles, adds one entry and leaves the others. -/
  added : ∀ rules p, cache.lookup (digest (key rules)) = none →
    (cache.get rules digest).1 = .ok p →
      digest (key rules) ∉ cache.digests ∧
        (cache.get rules digest).2.entries = cache.entries ++ [(digest (key rules), p)]
  /-- Clearing leaves no entry. -/
  cleared : (step digest cache .clear).2.entries = []
  /-- A rule set with the content of one that was served changes nothing, whether it was
  copied, decoded, or edited until it was the same again. -/
  again : ∀ rules ∈ served, ∀ other : RuleSet, other.SameContent rules →
    ∃ kept, cache.get other digest = (.ok kept, cache)

theorem EntriesOf.accounted {contents : List RuleSet} (h : EntriesOf digest cache contents)
    (hdigest : Function.Injective digest) : Accounted digest cache contents := by
  have hfound : ∀ rules, (∃ kept, cache.lookup (digest (key rules)) = some kept) ↔
      ∃ other ∈ contents, key other = key rules := by
    intro rules
    rw [← Option.isSome_iff_exists, h.lookup_isSome_iff]
    simp only [hdigest.eq_iff]
  refine
    { size := by rw [Cache.step, h.size_eq hdigest]
      isEmpty := by rw [Cache.step, isEmpty_eq]
      found_iff := hfound
      hit := fun _ _ => get_of_lookup
      missed := fun _ => get_fst_of_lookup_eq_none
      refused := fun _ _ => get_snd_of_error
      added := fun _ _ hlookup hok =>
        ⟨lookup_eq_none_iff.1 hlookup, entries_get_of_lookup_eq_none hlookup hok⟩
      cleared := rfl
      again := ?_ }
  intro rules hrules other hsame
  obtain rfl := RuleSet.sameContent_iff.1 hsame
  obtain ⟨kept, hlookup⟩ := (hfound other).2 ⟨other, hrules, rfl⟩
  exact ⟨kept, get_of_lookup hlookup⟩

/-- After every run of a new cache, its entries are those of the different contents that the
run has served since the cache was last cleared. -/
theorem accounted_after (hdigest : Function.Injective digest) (family : Family)
    (options : CompileOptions) (calls : List Call) :
    Accounted digest (after digest ⟨family, options, []⟩ calls)
      (served (calls.zip (answers digest ⟨family, options, []⟩ calls))) :=
  EntriesOf.accounted ((entriesOf_clear ⟨family, options, []⟩).after calls) hdigest

/-- Calls for one rule set: before the cache is cleared and after, without its connector, and
once it was edited and edited back. -/
def minorsCalls : List Call :=
  [.get minors, .clear, .get minors, .get (minors.setConnector none),
    .get ((minors.push ⟨"Age", .equal, none⟩).pop)]

/-- The rule set has one entry, and every copy of it finds that one. -/
theorem accounted_minors :
    let cache := after List.reverse ⟨[[⟨"Age", .scalar .int⟩]], {}, []⟩ minorsCalls
    cache.size = 1 ∧
      ∀ other : RuleSet, other.SameContent minors →
        ∃ kept, cache.get other List.reverse = (.ok kept, cache) := by
  intro cache
  have hserved : served (minorsCalls.zip
      (answers List.reverse ⟨[[⟨"Age", .scalar .int⟩]], {}, []⟩ minorsCalls)) =
        [minors, minors] := by
    decide +kernel
  have haccounted :=
    accounted_after List.reverse_injective [[⟨"Age", .scalar .int⟩]] {} minorsCalls
  rw [hserved] at haccounted
  refine ⟨?_, haccounted.again minors List.mem_cons_self⟩
  have hsize := congrArg Prod.fst haccounted.size
  have hcard : ([minors, minors].map key).toFinset.card = 1 := by simp
  rw [hcard] at hsize
  exact Answer.size.inj hsize

end RecordFilter.Cache
