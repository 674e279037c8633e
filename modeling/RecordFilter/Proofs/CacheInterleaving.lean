import Mathlib
import RecordFilter.Proofs.CacheEntries
import RecordFilter.Proofs.CacheSharing

/-!
# Callers that share a cache

Any number of callers use one cache at the same time.  A caller that asks for a rule set
looks it up, compiles it if there is no entry, and then inserts what it has compiled unless
another caller was first.  Only the lookup, the insertion and clearing are atomic, so steps of
other callers can fall between them.  `Step` is one such step and `Run` any interleaving of
steps.  A caller that nobody interrupts does what `Cache.get` does (`exists_run_get`).

Two invariants carry the proofs, each with a lemma for one step and one for a run.

* `Sound`: the entries are what the compiler gives, and so is every predicate that a caller
  holds and has not inserted yet, even when the cache was cleared meanwhile.
* `EntriesOf`: the entries are those of the rule sets that were inserted since the cache was
  last cleared.

`Consistent` is what they mean for the callers, and `consistent_of_run` says that it holds
after every interleaving.
-/

namespace RecordFilter.Cache

/-! ## Interleavings -/

/-- How far a caller is with the rule set that it asked for. -/
inductive Phase
  /-- It has asked for none. -/
  | idle
  /-- It has found no entry, and compiles next. -/
  | missed (rules : RuleSet)
  /-- It holds what the rule set compiles to, and inserts next. -/
  | compiled (rules : RuleSet) (p : Predicate)

/-- A cache and its callers. -/
structure System where
  cache : Cache
  phase : Nat → Phase

/-- A new cache, for which nobody has asked. -/
def System.new (family : Family) (options : CompileOptions) : System :=
  ⟨⟨family, options, []⟩, fun _ => .idle⟩

/-- The system after a caller has moved to another phase. -/
def System.setPhase (s : System) (a : Nat) (phase : Phase) : System :=
  { s with phase := Function.update s.phase a phase }

theorem System.phase_setPhase_self (s : System) (a : Nat) (phase : Phase) :
    (s.setPhase a phase).phase a = phase := by
  simp [System.setPhase]

theorem System.phase_setPhase_of_ne (s : System) {a b : Nat} (phase : Phase) (h : b ≠ a) :
    (s.setPhase a phase).phase b = s.phase b := by
  simp [System.setPhase, h]

theorem System.setPhase_setPhase (s : System) (a : Nat) (first second : Phase) :
    (s.setPhase a first).setPhase a second = s.setPhase a second := by
  simp [System.setPhase]

theorem System.setPhase_self {s : System} {a : Nat} {phase : Phase} (h : s.phase a = phase) :
    s.setPhase a phase = s := by
  simp [System.setPhase, ← h]

/-- What a step of a caller is seen to do. -/
inductive Event
  /-- It finds an entry and returns the predicate in it. -/
  | hit (rules : RuleSet) (p : Predicate)
  /-- It finds no entry. -/
  | miss (rules : RuleSet)
  /-- It compiles its rule set. -/
  | compile (rules : RuleSet) (p : Predicate)
  /-- Its rule set does not compile, and it returns the error. -/
  | refuse (rules : RuleSet) (e : CompileError)
  /-- It inserts its predicate, and returns the one that is in the entry then. -/
  | insert (rules : RuleSet) (kept : Predicate)
  | clear

namespace Event

/-- The rule set that a step is about. -/
def rules? : Event → Option RuleSet
  | .hit rules _ | .miss rules | .compile rules _ | .refuse rules _ | .insert rules _ => some rules
  | .clear => none

/-- The rule set and the result of a call that a step completes. -/
def returned? : Event → Option (RuleSet × Except CompileError Predicate)
  | .hit rules p | .insert rules p => some (rules, .ok p)
  | .refuse rules e => some (rules, .error e)
  | .miss _ | .compile _ _ | .clear => none

/-- How a step may change the entries.  An insertion finds its entry or adds it at the end,
clearing removes all entries, and the other steps leave them. -/
def Changes (digest : List UInt8 → List UInt8) (before after : List (List UInt8 × Predicate)) :
    Event → Prop
  | .insert rules kept =>
    (digest (key rules), kept) ∈ before ∧ after = before ∨
      digest (key rules) ∉ before.map Prod.fst ∧ after = before ++ [(digest (key rules), kept)]
  | .clear => after = []
  | .hit _ _ | .miss _ | .compile _ _ | .refuse _ _ => after = before

end Event

/-- One atomic step of caller `a`. -/
inductive Step (digest : List UInt8 → List UInt8) (s : System) (a : Nat) : Event → System → Prop
  | hit {rules : RuleSet} {p : Predicate} (hphase : s.phase a = .idle)
      (hlookup : s.cache.lookup (digest (key rules)) = some p) : Step digest s a (.hit rules p) s
  | miss {rules : RuleSet} (hphase : s.phase a = .idle)
      (hlookup : s.cache.lookup (digest (key rules)) = none) :
      Step digest s a (.miss rules) (s.setPhase a (.missed rules))
  | compile {rules : RuleSet} {p : Predicate} (hphase : s.phase a = .missed rules)
      (hcompile : s.cache.compile rules = .ok p) :
      Step digest s a (.compile rules p) (s.setPhase a (.compiled rules p))
  | refuse {rules : RuleSet} {e : CompileError} (hphase : s.phase a = .missed rules)
      (hcompile : s.cache.compile rules = .error e) :
      Step digest s a (.refuse rules e) (s.setPhase a .idle)
  | insert {rules : RuleSet} {p : Predicate} (hphase : s.phase a = .compiled rules p) :
      Step digest s a (.insert rules (s.cache.insertIfAbsent (digest (key rules)) p).1)
        { s.setPhase a .idle with cache := (s.cache.insertIfAbsent (digest (key rules)) p).2 }
  | clear (hphase : s.phase a = .idle) :
      Step digest s a .clear { s with cache := s.cache.clear }

/-- Any interleaving of the steps of the callers, with the events in order. -/
inductive Run (digest : List UInt8 → List UInt8) : System → List (Nat × Event) → System → Prop
  | nil (s : System) : Run digest s [] s
  | cons {s s' s'' : System} {a : Nat} {event : Event} {trace : List (Nat × Event)}
      (hstep : Step digest s a event s') (hrun : Run digest s' trace s'') :
      Run digest s ((a, event) :: trace) s''

variable {digest : List UInt8 → List UInt8} {s s' : System} {a : Nat} {event : Event}
  {trace : List (Nat × Event)}

/-- The step of the caller that inserts first. -/
theorem Step.insert_first {rules : RuleSet} {p : Predicate}
    (hphase : s.phase a = .compiled rules p)
    (hlookup : s.cache.lookup (digest (key rules)) = none) :
    Step digest s a (.insert rules p) { s.setPhase a .idle with
      cache := { s.cache with entries := s.cache.entries ++ [(digest (key rules), p)] } } := by
  have hstep : Step digest s a _ _ := .insert hphase
  rwa [insertIfAbsent, hlookup] at hstep

/-- The step of a caller that inserts after another. -/
theorem Step.insert_again {rules : RuleSet} {p kept : Predicate}
    (hphase : s.phase a = .compiled rules p)
    (hlookup : s.cache.lookup (digest (key rules)) = some kept) :
    Step digest s a (.insert rules kept) (s.setPhase a .idle) := by
  have hstep : Step digest s a _ _ := .insert hphase
  rwa [insertIfAbsent, hlookup] at hstep

theorem Run.exists_of_append {before after : List (Nat × Event)}
    (h : Run digest s (before ++ after) s') :
    ∃ between, Run digest s before between ∧ Run digest between after s' := by
  induction before generalizing s with
  | nil => exact ⟨s, .nil s, h⟩
  | cons e before ih =>
    cases h with
    | cons hstep hrun =>
      obtain ⟨between, hbefore, hafter⟩ := ih hrun
      exact ⟨between, .cons hstep hbefore, hafter⟩

/-! ## The steps of a call -/

/-- The steps of one call with nothing between them return what `Cache.get` returns, and
leave the cache that `Cache.get` leaves. -/
theorem exists_run_get (digest : List UInt8 → List UInt8) (hphase : s.phase a = .idle)
    (rules : RuleSet) :
    ∃ trace event, Run digest s (trace ++ [(a, event)])
        { s with cache := (s.cache.get rules digest).2 } ∧
      (∀ e ∈ trace, e.1 = a) ∧
      event.returned? = some (rules, (s.cache.get rules digest).1) := by
  have hmissed := s.phase_setPhase_self a (.missed rules)
  unfold Cache.get
  cases hlookup : s.cache.lookup (digest (key rules)) with
  | some kept => exact ⟨[], _, .cons (.hit hphase hlookup) (.nil s), by simp, rfl⟩
  | none =>
    cases hcompile : s.cache.compile rules with
    | error e =>
      have hrefuse : Step digest (s.setPhase a (.missed rules)) a (.refuse rules e)
          ((s.setPhase a (.missed rules)).setPhase a .idle) := .refuse hmissed hcompile
      rw [System.setPhase_setPhase, System.setPhase_self hphase] at hrefuse
      exact ⟨[(a, .miss rules)], _, .cons (.miss hphase hlookup) (.cons hrefuse (.nil s)),
        by simp, rfl⟩
    | ok p =>
      have hcompiled : Step digest (s.setPhase a (.missed rules)) a (.compile rules p)
          ((s.setPhase a (.missed rules)).setPhase a (.compiled rules p)) :=
        .compile hmissed hcompile
      rw [System.setPhase_setPhase] at hcompiled
      have hinsert : Step digest _ a _ _ := .insert (s.phase_setPhase_self a (.compiled rules p))
      rw [System.setPhase_setPhase, System.setPhase_self hphase] at hinsert
      exact ⟨[(a, .miss rules), (a, .compile rules p)], _,
        .cons (.miss hphase hlookup) (.cons hcompiled (.cons hinsert (.nil _))), by simp, rfl⟩

/-- A step leaves the other callers where they are. -/
theorem Step.phase_of_ne (hstep : Step digest s a event s') {b : Nat} (hb : b ≠ a) :
    s'.phase b = s.phase b := by
  cases hstep with
  | hit | clear => rfl
  | insert => exact s.phase_setPhase_of_ne .idle hb
  | miss | compile | refuse => exact s.phase_setPhase_of_ne _ hb

/-- Looking a rule set up is the only step after which its caller has found no entry. -/
theorem Step.eq_miss (hstep : Step digest s a event s') {rules : RuleSet}
    (hphase : s'.phase a = .missed rules) : event = .miss rules := by
  cases hstep with
  | hit hidle | clear hidle => cases hidle.symm.trans hphase
  | miss =>
    rw [System.phase_setPhase_self] at hphase
    cases hphase
    rfl
  | compile | refuse =>
    rw [System.phase_setPhase_self] at hphase
    cases hphase
  | insert => cases (s.phase_setPhase_self a .idle).symm.trans hphase

/-- A caller that is to compile has looked its rule set up, and has done nothing since. -/
theorem Run.miss_of_phase (hrun : Run digest s trace s') {rules : RuleSet}
    (hphase : s'.phase a = .missed rules) :
    s.phase a = .missed rules ∧ (∀ e ∈ trace, e.1 ≠ a) ∨
      ∃ before after, trace = before ++ (a, .miss rules) :: after ∧ ∀ e ∈ after, e.1 ≠ a := by
  induction hrun with
  | nil s => exact .inl ⟨hphase, by simp⟩
  | @cons s _ _ b event trace hstep hrun ih =>
    rcases ih hphase with ⟨hmissed, htrace⟩ | ⟨before, after, rfl, hafter⟩
    · by_cases hb : a = b
      · subst hb
        obtain rfl := hstep.eq_miss hmissed
        exact .inr ⟨[], trace, rfl, htrace⟩
      · refine .inl ⟨(hstep.phase_of_ne hb).symm.trans hmissed, fun e he => ?_⟩
        rcases List.mem_cons.1 he with rfl | he
        · exact Ne.symm hb
        · exact htrace e he
    · exact .inr ⟨(b, event) :: before, after, rfl, hafter⟩

/-- A call that fails consists of two steps: it finds no entry, and does not compile. -/
theorem Run.miss_of_refuse {family : Family} {options : CompileOptions}
    {before after : List (Nat × Event)} {rules : RuleSet} {e : CompileError}
    (hrun : Run digest (.new family options) (before ++ (a, .refuse rules e) :: after) s) :
    ∃ earlier later, before = earlier ++ (a, .miss rules) :: later ∧ ∀ x ∈ later, x.1 ≠ a := by
  obtain ⟨between, hbefore, hrest⟩ := hrun.exists_of_append
  cases hrest with
  | cons hstep hafter =>
    cases hstep with
    | refuse hphase =>
      rcases hbefore.miss_of_phase hphase with ⟨hnew, -⟩ | hmiss
      · cases hnew
      · exact hmiss

/-! ## Soundness -/

/-- The entries are what the compiler gives, and so are the predicates that callers hold. -/
structure Sound (digest : List UInt8 → List UInt8) (family : Family) (options : CompileOptions)
    (s : System) : Prop where
  faithful : Faithful digest s.cache
  compile_eq : ∀ rules, s.cache.compile rules = rules.compile options family
  compiled : ∀ a rules p, s.phase a = .compiled rules p → rules.compile options family = .ok p

variable {family : Family} {options : CompileOptions}

theorem sound_new : Sound digest family options (.new family options) :=
  ⟨faithful_empty digest family options, fun _ => rfl, fun _ _ _ h => by cases h⟩

theorem Sound.setPhase (h : Sound digest family options s) (a : Nat) {phase : Phase}
    (hphase : ∀ rules p, phase = .compiled rules p → rules.compile options family = .ok p) :
    Sound digest family options (s.setPhase a phase) := by
  refine ⟨h.faithful, h.compile_eq, fun b rules p hb => ?_⟩
  by_cases hba : b = a
  · subst hba
    rw [System.phase_setPhase_self] at hb
    exact hphase rules p hb
  · rw [System.phase_setPhase_of_ne s phase hba] at hb
    exact h.compiled b rules p hb

/-- The cache can be replaced while callers hold predicates: what they hold depends on the
family and the options alone. -/
theorem Sound.setCache (h : Sound digest family options s) {cache : Cache}
    (hfaithful : Faithful digest cache) (hcompile : cache.compile = s.cache.compile) :
    Sound digest family options { s with cache } :=
  ⟨hfaithful, fun rules => by rw [hcompile, h.compile_eq], h.compiled⟩

/-- A step keeps soundness. -/
theorem Sound.step (h : Sound digest family options s) (hdigest : Function.Injective digest)
    (hstep : Step digest s a event s') (hfits : ∀ rules, event.rules? = some rules → rules.Fits) :
    Sound digest family options s' := by
  cases hstep with
  | hit => exact h
  | miss => exact h.setPhase a fun _ _ hphase => by cases hphase
  | compile hphase hcompile =>
    rw [h.compile_eq] at hcompile
    refine h.setPhase a fun rules p hcompiled => ?_
    cases hcompiled
    exact hcompile
  | refuse => exact h.setPhase a fun _ _ hphase => by cases hphase
  | @insert rules p hphase =>
    have hidle : Sound digest family options (s.setPhase a .idle) :=
      h.setPhase a fun _ _ hphase => by cases hphase
    have hcompile : s.cache.compile rules = .ok p := by
      rw [h.compile_eq]
      exact h.compiled a rules p hphase
    exact hidle.setCache (h.faithful.insertIfAbsent hdigest (hfits rules rfl) hcompile)
      (compile_insertIfAbsent s.cache _ _)
  | clear => exact h.setCache (Faithful.clear s.cache) rfl

/-- A step that completes a call returns what the compiler gives. -/
theorem Sound.returned (h : Sound digest family options s) (hdigest : Function.Injective digest)
    (hstep : Step digest s a event s') (hfits : ∀ rules, event.rules? = some rules → rules.Fits)
    {rules : RuleSet} {result : Except CompileError Predicate}
    (hreturned : event.returned? = some (rules, result)) :
    result = rules.compile options family := by
  have hsound := h.step hdigest hstep hfits
  cases hstep with
  | hit hphase hlookup =>
    cases hreturned
    rw [← h.compile_eq]
    exact (h.faithful rules _ (hfits rules rfl) hlookup).symm
  | refuse hphase hcompile =>
    cases hreturned
    rw [← h.compile_eq, hcompile]
  | insert hphase =>
    cases hreturned
    -- The insertion returns what is found in the cache that it leaves, which is sound.
    rw [← hsound.compile_eq]
    exact (hsound.faithful rules _ (hfits rules rfl) (lookup_insertIfAbsent s.cache _ _)).symm
  | miss | compile | clear => cases hreturned

/-- The rule sets that the steps of a trace are about have strings whose lengths can be
written into keys. -/
def Fits (trace : List (Nat × Event)) : Prop :=
  ∀ e ∈ trace, ∀ rules, e.2.rules? = some rules → rules.Fits

/-- A run keeps soundness, and all calls that it completes return what the compiler gives.
The induction is on the run. -/
theorem Sound.run (h : Sound digest family options s) (hdigest : Function.Injective digest)
    (hrun : Run digest s trace s') (hfits : Fits trace) :
    Sound digest family options s' ∧
      ∀ e ∈ trace, ∀ rules result, e.2.returned? = some (rules, result) →
        result = rules.compile options family := by
  induction hrun with
  | nil s => exact ⟨h, by simp⟩
  | @cons s _ _ a event trace hstep hrun ih =>
    have hfitsHead := hfits (a, event) List.mem_cons_self
    have hfitsTail : Fits trace := fun e he => hfits e (List.mem_cons_of_mem _ he)
    obtain ⟨hsound, hreturned⟩ := ih (h.step hdigest hstep hfitsHead) hfitsTail
    refine ⟨hsound, fun e he rules result => ?_⟩
    rcases List.mem_cons.1 he with rfl | he
    · exact h.returned hdigest hstep hfitsHead
    · exact hreturned e he rules result

/-! ## The entries -/

/-- The rule sets that were inserted since the cache was last cleared, after one more event. -/
def keep (inserted : List RuleSet) : Nat × Event → List RuleSet
  | (_, .insert rules _) => inserted ++ [rules]
  | (_, .clear) => []
  | _ => inserted

/-- The rule sets that were inserted since the cache was last cleared, in order. -/
def inserted (trace : List (Nat × Event)) : List RuleSet :=
  trace.foldl keep []

theorem mem_foldl_keep {contents : List RuleSet} {rules : RuleSet}
    (h : rules ∈ trace.foldl keep contents) :
    rules ∈ contents ∨ ∃ a kept, (a, .insert rules kept) ∈ trace := by
  induction trace generalizing contents with
  | nil => exact .inl h
  | cons e trace ih =>
    rcases ih h with hkeep | ⟨a, kept, hmem⟩
    · obtain ⟨a, event⟩ := e
      cases event with
      | insert other kept =>
        rcases List.mem_append.1 hkeep with hmem | hmem
        · exact .inl hmem
        · obtain rfl := List.mem_singleton.1 hmem
          exact .inr ⟨a, kept, List.mem_cons_self⟩
      | clear => cases hkeep
      | _ => exact .inl hkeep
    · exact .inr ⟨a, kept, List.mem_cons_of_mem e hmem⟩

theorem Step.entriesOf (hstep : Step digest s a event s') {contents : List RuleSet}
    (h : EntriesOf digest s.cache contents) :
    EntriesOf digest s'.cache (keep contents (a, event)) := by
  cases hstep with
  | insert hphase => exact h.insertIfAbsent _ _
  | clear => exact entriesOf_clear s.cache
  | _ => exact h

theorem Run.entriesOf (hrun : Run digest s trace s') {contents : List RuleSet}
    (h : EntriesOf digest s.cache contents) :
    EntriesOf digest s'.cache (trace.foldl keep contents) := by
  induction hrun generalizing contents with
  | nil s => exact h
  | cons hstep hrun ih => exact ih (hstep.entriesOf h)

theorem Step.changes (hstep : Step digest s a event s') :
    event.Changes digest s.cache.entries s'.cache.entries := by
  cases hstep with
  | @insert rules p hphase =>
    rcases insertIfAbsent_cases s.cache (digest (key rules)) p with
      ⟨kept, hlookup, hinsert⟩ | ⟨hlookup, hinsert⟩
    · rw [hinsert]
      obtain ⟨before, after, hentries, -⟩ := List.lookup_eq_some_iff.1 hlookup
      refine .inl ⟨?_, rfl⟩
      rw [hentries]
      exact List.mem_append_right before List.mem_cons_self
    · rw [hinsert]
      exact .inr ⟨lookup_eq_none_iff.1 hlookup, rfl⟩
  | _ => exact rfl

/-- What is found stays as long as nobody clears the cache. -/
theorem Step.lookup_eq_some (hstep : Step digest s a event s') (hclear : event ≠ .clear)
    {k : List UInt8} {p : Predicate} (h : s.cache.lookup k = some p) :
    s'.cache.lookup k = some p := by
  cases hstep with
  | @insert rules q hphase =>
    rcases insertIfAbsent_cases s.cache (digest (key rules)) q with
      ⟨kept, -, hinsert⟩ | ⟨-, hinsert⟩
    · rw [hinsert]
      exact h
    · rw [hinsert]
      rw [lookup] at h ⊢
      rw [List.lookup_append, h, Option.some_or]
  | clear => exact absurd rfl hclear
  | _ => exact h

theorem Run.lookup_eq_some (hrun : Run digest s trace s') (hclear : ∀ e ∈ trace, e.2 ≠ .clear)
    {k : List UInt8} {p : Predicate} (h : s.cache.lookup k = some p) :
    s'.cache.lookup k = some p := by
  induction hrun with
  | nil s => exact h
  | cons hstep hrun ih =>
    have hhead := hstep.lookup_eq_some (hclear _ List.mem_cons_self) h
    exact ih (fun e he => hclear e (List.mem_cons_of_mem _ he)) hhead

/-- What an insertion returns is found as long as nobody clears the cache. -/
theorem Run.lookup_insert {before after : List (Nat × Event)} {rules : RuleSet}
    {kept : Predicate} (hrun : Run digest s (before ++ (a, .insert rules kept) :: after) s')
    (hclear : ∀ e ∈ after, e.2 ≠ .clear) :
    s'.cache.lookup (digest (key rules)) = some kept := by
  obtain ⟨between, -, hrest⟩ := hrun.exists_of_append
  cases hrest with
  | cons hstep hafter =>
    cases hstep with
    | insert hphase =>
      exact hafter.lookup_eq_some hclear (lookup_insertIfAbsent between.cache _ _)

/-! ## What callers can rely on -/

/-- What the callers that share a cache can rely on after an interleaving of their steps. -/
structure Consistent (digest : List UInt8 → List UInt8) (family : Family)
    (options : CompileOptions) (trace : List (Nat × Event)) (s : System) : Prop where
  /-- Every call that was completed has returned what compiling its rule set gives. -/
  returned : ∀ e ∈ trace, ∀ rules result, e.2.returned? = some (rules, result) →
    result = rules.compile options family
  /-- No digest has two entries, and those that have one belong to the rule sets that were
  inserted since the cache was last cleared. -/
  entriesOf : EntriesOf digest s.cache (inserted trace)
  /-- The entry of such a rule set holds what it compiles to. -/
  entry : ∀ rules ∈ inserted trace, ∃ p, rules.compile options family = .ok p ∧
    s.cache.entries.filter (fun entry => entry.1 == digest (key rules)) = [(digest (key rules), p)]
  /-- There are as many entries as different contents of such rule sets. -/
  size : s.cache.size = ((inserted trace).map key).toFinset.card
  /-- An insertion replaces and removes nothing, only clearing does, and steps that find an
  entry or none, compile or fail change nothing. -/
  changes : ∀ a event s', Step digest s a event s' →
    event.Changes digest s.cache.entries s'.cache.entries
  /-- A call that has failed has done no more than to look its rule set up and to fail. -/
  refused : ∀ before after a rules e, trace = before ++ (a, .refuse rules e) :: after →
    ∃ earlier later, before = earlier ++ (a, .miss rules) :: later ∧ ∀ x ∈ later, x.1 ≠ a
  /-- What an insertion has returned is in the only entry for its content until the cache is
  cleared, and everyone who asked for this content and is done meanwhile has got it. -/
  shared : ∀ before after a rules kept, trace = before ++ (a, .insert rules kept) :: after →
    (∀ e ∈ after, e.2 ≠ .clear) →
      s.cache.entries.filter (fun entry => entry.1 == digest (key rules)) =
          [(digest (key rules), kept)] ∧
        ∀ e ∈ after, ∀ other result, e.2.returned? = some (other, result) →
          other.SameContent rules → result = .ok kept

/-- Callers that share a new cache can rely on it, whatever the interleaving of their steps. -/
theorem consistent_of_run (hdigest : Function.Injective digest)
    (hrun : Run digest (.new family options) trace s) (hfits : Fits trace) :
    Consistent digest family options trace s := by
  obtain ⟨hsound, hreturned⟩ := sound_new.run hdigest hrun hfits
  have hentries : EntriesOf digest s.cache (inserted trace) :=
    hrun.entriesOf (entriesOf_clear ⟨family, options, []⟩)
  refine
    { returned := hreturned
      entriesOf := hentries
      entry := ?_
      size := hentries.size_eq hdigest
      changes := fun _ _ _ => Step.changes
      refused := ?_
      shared := ?_ }
  · intro rules hrules
    have hfitsRules : rules.Fits := by
      obtain hnil | ⟨a, kept, hmem⟩ := mem_foldl_keep hrules
      · cases hnil
      · exact hfits _ hmem rules rfl
    obtain ⟨p, hlookup⟩ := Option.isSome_iff_exists.1
      (hentries.lookup_isSome_iff.2 ⟨rules, hrules, rfl⟩)
    refine ⟨p, ?_, filter_entries_eq hentries.nodup hlookup⟩
    rw [← hsound.compile_eq]
    exact hsound.faithful rules p hfitsRules hlookup
  · rintro before after a rules e rfl
    exact hrun.miss_of_refuse
  · rintro before after a rules kept rfl hclear
    refine ⟨filter_entries_eq hentries.nodup (hrun.lookup_insert hclear), ?_⟩
    intro e he other result hother hsame
    obtain rfl := RuleSet.sameContent_iff.1 hsame
    have hmem : (a, .insert other kept) ∈ before ++ (a, .insert other kept) :: after :=
      List.mem_append_right before List.mem_cons_self
    have hkept : .ok kept = other.compile options family := hreturned _ hmem other _ rfl
    have hmem' : e ∈ before ++ (a, .insert other kept) :: after :=
      List.mem_append_right before (List.mem_cons_of_mem _ he)
    rw [hkept]
    exact hreturned e hmem' other result hother

/-- What `minors` compiles to. -/
def minorsPredicate : Predicate :=
  ⟨.and, [⟨"Age", .lessThan, .int [0] .lessThan 18⟩]⟩

/-- Two callers find no entry for one rule set.  A third clears the cache while both hold what
they have compiled, and asks when both have inserted it. -/
def minorsTrace : List (Nat × Event) :=
  [(0, .miss minors), (1, .miss minors), (0, .compile minors minorsPredicate),
    (1, .compile minors minorsPredicate), (2, .clear), (0, .insert minors minorsPredicate),
    (1, .insert minors minorsPredicate), (2, .hit minors minorsPredicate)]

/-- Both insertions together leave one entry, and both return what is in it. -/
theorem consistent_minors :
    ∃ s, Run List.reverse (.new [[⟨"Age", .scalar .int⟩]] {}) minorsTrace s ∧
      Consistent List.reverse [[⟨"Age", .scalar .int⟩]] {} minorsTrace s ∧ s.cache.size = 1 := by
  have hcompile : minors.compile {} [[⟨"Age", .scalar .int⟩]] = .ok minorsPredicate := by
    decide +kernel
  have hfits : minors.Fits := by
    intro c hc
    obtain rfl := List.mem_singleton.1 hc
    exact ⟨by decide, fun s hs => by cases hs⟩
  have hkept : [(List.reverse (key minors), minorsPredicate)].lookup (List.reverse (key minors)) =
      some minorsPredicate := by
    simp
  have hrun : ∃ s, Run List.reverse (.new [[⟨"Age", .scalar .int⟩]] {}) minorsTrace s :=
    ⟨_, .cons (.miss rfl rfl) <| .cons (.miss rfl rfl) <| .cons (.compile rfl hcompile) <|
      .cons (.compile rfl hcompile) <| .cons (.clear rfl) <| .cons (.insert_first rfl rfl) <|
        .cons (.insert_again rfl hkept) <| .cons (.hit rfl hkept) (.nil _)⟩
  have hminors : ∀ e ∈ minorsTrace, e.2.rules? = some minors ∨ e.2.rules? = none := by decide
  have hfitsTrace : Fits minorsTrace := by
    intro e he rules hrules
    rcases hminors e he with h | h
    · rw [h, Option.some.injEq] at hrules
      exact hrules ▸ hfits
    · rw [h] at hrules
      cases hrules
  obtain ⟨s, hrun⟩ := hrun
  have hconsistent := consistent_of_run List.reverse_injective hrun hfitsTrace
  have hinserted : inserted minorsTrace = [minors, minors] := rfl
  have hsize := hconsistent.size
  rw [hinserted] at hsize
  have hcard : ([minors, minors].map key).toFinset.card = 1 := by simp
  exact ⟨s, hrun, hconsistent, hsize.trans hcard⟩

end RecordFilter.Cache
