import Mathlib
import RecordFilter.Cache

/-!
# What the entries of a cache stand for

Rule sets reach the entries of a cache by their digests only.  `EntriesOf` says that a cache
has an entry for each content of some rule sets, and no other: one entry, however often a
content occurs among them.  The three steps that touch a cache keep this in view: an
insertion adds its rule set (`EntriesOf.insertIfAbsent`), a rule set that is found changes
nothing (`EntriesOf.hit`), and clearing leaves none (`entriesOf_clear`).

If the digest tells keys apart, the number of entries is the number of different keys
(`EntriesOf.size_eq`).

`insertIfAbsent_cases` and `get_cases` list what an insertion and a call to `get` can do.
-/

namespace RecordFilter.Cache

variable {digest : List UInt8 → List UInt8} {cache : Cache}

/-! ## What the steps can do -/

/-- The digests that have an entry, in the order in which the entries were made. -/
def digests (cache : Cache) : List (List UInt8) :=
  cache.entries.map Prod.fst

theorem lookup_eq_none_iff {k : List UInt8} : cache.lookup k = none ↔ k ∉ cache.digests := by
  rw [lookup, List.lookup_eq_none_iff, digests, List.mem_map]
  constructor
  · rintro hne ⟨entry, hentry, rfl⟩
    simpa using hne entry hentry
  · intro hmem entry hentry
    rw [bne_iff_ne]
    rintro rfl
    exact hmem ⟨entry, hentry, rfl⟩

theorem mem_digests_of_lookup {k : List UInt8} {p : Predicate} (h : cache.lookup k = some p) :
    k ∈ cache.digests := by
  by_contra hmem
  rw [lookup_eq_none_iff.2 hmem] at h
  cases h

/-- An insertion finds an entry and leaves the cache as it is, or adds an entry at the end. -/
theorem insertIfAbsent_cases (cache : Cache) (k : List UInt8) (p : Predicate) :
    (∃ kept, cache.lookup k = some kept ∧ cache.insertIfAbsent k p = (kept, cache)) ∨
      cache.lookup k = none ∧
        cache.insertIfAbsent k p = (p, { cache with entries := cache.entries ++ [(k, p)] }) := by
  unfold insertIfAbsent
  cases hlookup : cache.lookup k with
  | some kept => exact .inl ⟨kept, rfl, rfl⟩
  | none => exact .inr ⟨rfl, rfl⟩

/-- A call to `get` finds an entry, or is refused, or adds an entry at the end.  Only in the
last case the cache changes. -/
theorem get_cases (cache : Cache) (rules : RuleSet) (digest : List UInt8 → List UInt8) :
    (∃ kept, cache.lookup (digest (key rules)) = some kept ∧
        cache.get rules digest = (.ok kept, cache)) ∨
      cache.lookup (digest (key rules)) = none ∧
        ((∃ e, cache.compile rules = .error e ∧ cache.get rules digest = (.error e, cache)) ∨
          ∃ p, cache.compile rules = .ok p ∧ cache.get rules digest =
            (.ok p, { cache with entries := cache.entries ++ [(digest (key rules), p)] })) := by
  unfold Cache.get
  cases hlookup : cache.lookup (digest (key rules)) with
  | some kept => exact .inl ⟨kept, rfl, rfl⟩
  | none =>
    refine .inr ⟨rfl, ?_⟩
    cases hcompile : cache.compile rules with
    | error e => exact .inl ⟨e, rfl, rfl⟩
    | ok p => exact .inr ⟨p, rfl, by simp only [insertIfAbsent, hlookup]⟩

theorem get_of_lookup {rules : RuleSet} {kept : Predicate}
    (hlookup : cache.lookup (digest (key rules)) = some kept) :
    cache.get rules digest = (.ok kept, cache) := by
  rw [Cache.get, hlookup]

theorem get_fst_of_lookup_eq_none {rules : RuleSet}
    (hlookup : cache.lookup (digest (key rules)) = none) :
    (cache.get rules digest).1 = cache.compile rules := by
  rcases get_cases cache rules digest with
    ⟨kept, hkept, -⟩ | ⟨-, ⟨e, hcompile, hget⟩ | ⟨p, hcompile, hget⟩⟩
  · rw [hlookup] at hkept
    cases hkept
  · rw [hget, hcompile]
  · rw [hget, hcompile]

theorem get_snd_of_error {rules : RuleSet} {e : CompileError}
    (herror : (cache.get rules digest).1 = .error e) : (cache.get rules digest).2 = cache := by
  rcases get_cases cache rules digest with
    ⟨kept, -, hget⟩ | ⟨-, ⟨e', -, hget⟩ | ⟨p, -, hget⟩⟩
  · rw [hget]
  · rw [hget]
  · rw [hget] at herror
    cases herror

theorem entries_get_of_lookup_eq_none {rules : RuleSet} {p : Predicate}
    (hlookup : cache.lookup (digest (key rules)) = none)
    (hok : (cache.get rules digest).1 = .ok p) :
    (cache.get rules digest).2.entries = cache.entries ++ [(digest (key rules), p)] := by
  rcases get_cases cache rules digest with
    ⟨kept, hkept, -⟩ | ⟨-, ⟨e, -, hget⟩ | ⟨q, -, hget⟩⟩
  · rw [hlookup] at hkept
    cases hkept
  · rw [hget] at hok
    cases hok
  · rw [hget] at hok ⊢
    cases hok
    rfl

theorem isEmpty_eq (cache : Cache) : cache.isEmpty = (cache.size == 0) := by
  rw [isEmpty, size]
  cases cache.entries <;> rfl

/-- Where no two entries have one digest, the entry that is looked up is the only one. -/
theorem filter_entries_eq {k : List UInt8} {p : Predicate} (hnodup : cache.digests.Nodup)
    (h : cache.lookup k = some p) :
    cache.entries.filter (fun entry => entry.1 == k) = [(k, p)] := by
  obtain ⟨before, after, hentries, hbefore⟩ := List.lookup_eq_some_iff.1 h
  rw [digests, hentries, List.map_append, List.map_cons, List.nodup_middle, List.nodup_cons,
    List.mem_append, not_or] at hnodup
  have hbefore' : before.filter (fun entry => entry.1 == k) = [] := by
    refine List.filter_eq_nil_iff.2 fun entry hentry => ?_
    have hne := hbefore entry hentry
    rw [bne_iff_ne] at hne
    rw [beq_iff_eq]
    exact Ne.symm hne
  have hafter : after.filter (fun entry => entry.1 == k) = [] := by
    refine List.filter_eq_nil_iff.2 fun entry hentry heq => hnodup.1.2 ?_
    rw [beq_iff_eq] at heq
    exact List.mem_map.2 ⟨entry, hentry, heq⟩
  rw [hentries, List.filter_append, hbefore', List.nil_append, List.filter_cons, hafter]
  exact if_pos (beq_self_eq_true k)

/-! ## Contents -/

/-- The entries of a cache are those of the contents of some rule sets, one for each. -/
structure EntriesOf (digest : List UInt8 → List UInt8) (cache : Cache) (contents : List RuleSet) :
    Prop where
  nodup : cache.digests.Nodup
  mem_iff : ∀ k, k ∈ cache.digests ↔ ∃ rules ∈ contents, digest (key rules) = k

theorem entriesOf_clear (cache : Cache) : EntriesOf digest cache.clear [] :=
  ⟨List.nodup_nil, by simp [digests, Cache.clear]⟩

variable {contents : List RuleSet}

/-- A rule set is found when one with the same digest is among the contents. -/
theorem EntriesOf.lookup_isSome_iff (h : EntriesOf digest cache contents) {k : List UInt8} :
    (cache.lookup k).isSome ↔ ∃ rules ∈ contents, digest (key rules) = k := by
  rw [← h.mem_iff, Option.isSome_iff_ne_none, ne_eq, lookup_eq_none_iff, not_not]

/-- A rule set that is found is no new content. -/
theorem EntriesOf.hit (h : EntriesOf digest cache contents) {rules : RuleSet}
    (hmem : digest (key rules) ∈ cache.digests) : EntriesOf digest cache (contents ++ [rules]) := by
  refine ⟨h.nodup, fun k => ?_⟩
  simp only [List.mem_append, List.mem_singleton, or_and_right, exists_or, exists_eq_left]
  rw [← h.mem_iff]
  constructor
  · exact .inl
  · rintro (hk | rfl)
    · exact hk
    · exact hmem

/-- An entry at the end makes its rule set one of the contents. -/
theorem EntriesOf.concat (h : EntriesOf digest cache contents) {rules : RuleSet} (p : Predicate)
    (hmem : digest (key rules) ∉ cache.digests) :
    EntriesOf digest { cache with entries := cache.entries ++ [(digest (key rules), p)] }
      (contents ++ [rules]) := by
  have hdigests : digests { cache with entries := cache.entries ++ [(digest (key rules), p)] } =
      cache.digests ++ [digest (key rules)] := List.map_append
  refine ⟨?_, fun k => ?_⟩
  · rw [hdigests, ← List.concat_eq_append]
    exact h.nodup.concat hmem
  · rw [hdigests, List.mem_append, List.mem_singleton, h.mem_iff]
    simp only [List.mem_append, List.mem_singleton, or_and_right, exists_or, exists_eq_left,
      eq_comm (a := k)]

theorem EntriesOf.insertIfAbsent (h : EntriesOf digest cache contents) (rules : RuleSet)
    (p : Predicate) :
    EntriesOf digest (cache.insertIfAbsent (digest (key rules)) p).2 (contents ++ [rules]) := by
  rcases insertIfAbsent_cases cache (digest (key rules)) p with
    ⟨kept, hlookup, hinsert⟩ | ⟨hlookup, hinsert⟩
  · rw [hinsert]
    exact h.hit (mem_digests_of_lookup hlookup)
  · rw [hinsert]
    exact h.concat p (lookup_eq_none_iff.1 hlookup)

/-- There are as many entries as different keys. -/
theorem EntriesOf.size_eq (h : EntriesOf digest cache contents)
    (hdigest : Function.Injective digest) :
    cache.size = (contents.map key).toFinset.card := by
  have himage : cache.digests.toFinset = (contents.map key).toFinset.image digest := by
    ext k
    simp only [List.mem_toFinset, h.mem_iff, Finset.mem_image, List.mem_map,
      exists_exists_and_eq_and]
  rw [← Finset.card_image_of_injective _ hdigest, ← himage, List.toFinset_card_of_nodup h.nodup,
    digests, List.length_map, size]

end RecordFilter.Cache
