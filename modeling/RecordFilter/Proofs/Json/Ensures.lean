import Mathlib
import RecordFilter.Proofs.Json.Reader

/-!
# What a reader returns

`Ensures` says of a reader that whatever it returns has a property, from whatever text.  It
says nothing about the text that is taken, nor whether the reader succeeds.

There is one law for each way of putting readers together.  The law of the loop is the one
with an invariant: the state has it at the start and keeps it at each step.
-/

namespace RecordFilter.Json.Reader

variable {α β σ : Type} {P : α → Prop} {Q : β → Prop}

/-- Whatever a reader returns has a property. -/
def Ensures (r : Reader α) (P : α → Prop) : Prop :=
  ∀ input a rest, r input = .ok (a, rest) → P a

theorem ensures_pure {a : α} (h : P a) : Ensures (pure a) P := by
  intro input b rest hok
  cases hok
  exact h

theorem ensures_throw (fault : Fault) : Ensures (throw fault) P := by
  intro input a rest hok
  cases hok

theorem Ensures.bind {r : Reader α} {f : α → Reader β} (hr : Ensures r P)
    (hf : ∀ a, P a → Ensures (f a) Q) : Ensures (r >>= f) Q := by
  intro input b rest hok
  obtain ⟨a, middle, ha, hb⟩ := bind_eq_ok_iff.1 hok
  exact hf a (hr input a middle ha) middle b rest hb

/-- A sequence whose first part may return anything. -/
theorem ensures_bind {r : Reader α} {f : α → Reader β} (hf : ∀ a, Ensures (f a) Q) :
    Ensures (r >>= f) Q := by
  have hr : Ensures r fun _ => True := fun _ _ _ _ => trivial
  exact hr.bind fun a _ => hf a

theorem Ensures.map {r : Reader α} {g : α → β} (hr : Ensures r fun a => Q (g a)) :
    Ensures (g <$> r) Q := by
  rw [map_eq_bind]
  exact hr.bind fun a ha => ensures_pure ha

/-- A value that is there has what the reader of it ensures. -/
theorem Ensures.map_some {r : Reader α} (h : Ensures r P) :
    Ensures (some <$> r) fun read => ∀ a, read = some a → P a := by
  refine Ensures.map fun input a rest hok => ?_
  intro a' hsome
  cases hsome
  exact h input a rest hok

theorem ensures_unexpected (expected : String) : Ensures (unexpected expected) P :=
  ensures_bind fun _ => ensures_throw _

theorem ensures_enter {body : Nat → Reader α} (h : ∀ depth, Ensures (body depth) P)
    (depth : Nat) : Ensures (enter depth body) P := by
  cases depth with
  | zero => exact ensures_throw _
  | succ depth => exact ensures_bind fun _ => h depth

/-- The loop, with an invariant of its state. -/
theorem ensures_iterate (Inv : σ → Prop) {step : σ → Reader (σ ⊕ β)}
    (hstep : ∀ state, Inv state → Ensures (step state) (Sum.elim Inv Q)) {start : σ}
    (hstart : Inv start) : Ensures (iterate step start) Q := by
  intro input
  refine iterateWithin_induction (P := fun state r => Inv state → Ensures r Q)
    (fun _ _ => ensures_throw _) ?_ input start hstart input
  intro state after hagain hresult hstate
  refine (hstep state hstate).bind fun out hout => ?_
  cases out with
  | inl state => exact hagain state hout
  | inr result => exact hresult result ▸ ensures_pure hout

/-- The elements of an array have the property that each element has. -/
theorem Ensures.elements {element : Reader α} (h : Ensures element P) :
    Ensures (elements element) fun as => ∀ a ∈ as, P a := by
  refine ensures_iterate (fun done => ∀ a ∈ done, P a) ?_ (List.forall_mem_nil P)
  intro done hdone
  refine ensures_bind fun another => ?_
  split
  · exact h.bind fun a ha => ensures_pure (List.forall_mem_cons.2 ⟨ha, hdone⟩)
  · refine ensures_bind fun _ => ensures_pure ?_
    intro a ha
    exact hdone a (List.mem_reverse.1 ha)

/-- What the members of an object add up to has the property that each member keeps. -/
theorem ensures_members {member : α → Reader α} (h : ∀ state, P state → Ensures (member state) P)
    {start : α} (hstart : P start) : Ensures (members member start) P := by
  refine ensures_iterate (fun state => P state.2) ?_ hstart
  rintro ⟨first, state⟩ hstate
  refine ensures_bind fun another => ?_
  split
  · exact (h state hstate).bind fun state' hstate' => ensures_pure hstate'
  · exact ensures_bind fun _ => ensures_pure hstate

end RecordFilter.Json.Reader
