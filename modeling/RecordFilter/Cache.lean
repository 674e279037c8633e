import RecordFilter.Cache.Key
import RecordFilter.Compile

/-!
# A cache of compiled rule sets

A cache belongs to one family and one choice of options, and keeps the predicates compiled with them by
a digest of the content of the rule sets.  Errors are never kept.  The digest is a parameter: any
function of the content key, such as a cryptographic hash, and the key itself if none is given.

Three steps change or read the entries, and each is atomic: `lookup`, `insertIfAbsent` and `clear`.
Callers that run at the same time interleave these steps only, so `insertIfAbsent` keeps the entry that
another caller may have made meanwhile and returns that one.  `get` is the sequence of steps that one
caller goes through.
-/

namespace RecordFilter

/-- Compiled predicates by the content of the rule sets they came from. -/
structure Cache where
  family : Family
  options : CompileOptions
  /-- The kept predicates by digest; no digest occurs twice. -/
  entries : List (List UInt8 × Predicate) := []

namespace Cache

/-- The predicate kept under a key. -/
def lookup (cache : Cache) (key : List UInt8) : Option Predicate :=
  cache.entries.lookup key

/-- Keeps a predicate under a key, unless the key has one already.  Returns the predicate that the key
has then. -/
def insertIfAbsent (cache : Cache) (key : List UInt8) (p : Predicate) : Predicate × Cache :=
  match cache.lookup key with
  | some kept => (kept, cache)
  | none => (p, { cache with entries := cache.entries ++ [(key, p)] })

/-- Drops every entry. -/
def clear (cache : Cache) : Cache :=
  { cache with entries := [] }

/-- The number of entries. -/
def size (cache : Cache) : Nat :=
  cache.entries.length

/-- Whether there is no entry. -/
def isEmpty (cache : Cache) : Bool :=
  cache.entries.isEmpty

/-- Compiles a rule set with the cache's family and options. -/
def compile (cache : Cache) (rules : RuleSet) : Except CompileError Predicate :=
  rules.compile cache.options cache.family

/-- The predicate of a rule set: the one that is kept for its content, or a new one, which is then
kept. -/
def get (cache : Cache) (rules : RuleSet) (digest : List UInt8 → List UInt8 := id) :
    Except CompileError Predicate × Cache :=
  match cache.lookup (digest (key rules)) with
  | some kept => (.ok kept, cache)
  | none =>
    match cache.compile rules with
    | .error e => (.error e, cache)
    | .ok p =>
      let (stored, cache) := cache.insertIfAbsent (digest (key rules)) p
      (.ok stored, cache)

@[simp] theorem lookup_clear (cache : Cache) (key : List UInt8) :
    cache.clear.lookup key = none := rfl

/-- After an insertion the key has the predicate that the insertion returned. -/
theorem lookup_insertIfAbsent (cache : Cache) (key : List UInt8) (p : Predicate) :
    (cache.insertIfAbsent key p).2.lookup key = some (cache.insertIfAbsent key p).1 := by
  unfold insertIfAbsent
  split
  · assumption
  · next h =>
    simp only [lookup] at h ⊢
    simp [List.lookup_append, h]

/-- An insertion leaves what is kept under other keys. -/
theorem lookup_insertIfAbsent_of_ne (cache : Cache) {key other : List UInt8} (p : Predicate)
    (h : other ≠ key) : (cache.insertIfAbsent key p).2.lookup other = cache.lookup other := by
  unfold insertIfAbsent
  split
  · rfl
  · have hbeq : (other == key) = false := by simpa using h
    simp [lookup, List.lookup_append, List.lookup_cons, hbeq]

end Cache

end RecordFilter
