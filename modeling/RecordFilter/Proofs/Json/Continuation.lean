import Mathlib
import RecordFilter.Proofs.Json.Loop
import RecordFilter.Proofs.Json.Places

/-!
# Reading the front of a text

A reader sees a text from left to right, so what it makes of the front part of a text tells
much about what it makes of the whole.  There are these cases (`Continuation`).

* The front part is too short for the reader, which asks for more.
* The reader is done before the front part ends.  Then the rest makes no difference: the
  outcome is the same, be it a value or a fault.
* The front part ends in the middle of a number.  The reader takes what is there of the number
  for the number, and goes on from an empty text.

In the last case the outcome on the whole may be another.  A number can be too large where it
is cut, and not as a whole, since digits behind the cut may make it smaller; only then can a
fault on the front part be a value on the whole.

`Continues` says that this is so for every text and every cut.  There is one law for each way
of putting readers together, and the place behind what was read is kept along the way, so
that a number which is cut is known to stand between strings.
-/

namespace RecordFilter.Json

open Reader

variable {α β σ : Type}

/-! ## The outcomes on the front of a text -/

/-- A text that ends with a token, or a part of one, that stands between strings. -/
structure EndsInNumber (before : Place) (kept token : List UInt8) : Prop where
  ne_nil : token ≠ []
  isNumberByte : ∀ b ∈ token, isNumberByte b
  front : ∃ front, kept = front ++ token ∧ before.run front = .between

theorem EndsInNumber.append_left {before : Place} {used left token : List UInt8}
    (h : EndsInNumber (before.run used) left token) : EndsInNumber before (used ++ left) token := by
  obtain ⟨hne, hnumber, front, rfl, hfront⟩ := h
  refine ⟨hne, hnumber, used ++ front, (List.append_assoc _ _ _).symm, ?_⟩
  rw [Place.run_append]
  exact hfront

/-- A number that is too large where it is cut, and is not as a whole. -/
def TooLargeWhereCut (token dropped : List UInt8) : Prop :=
  readNumber token = .error .malformed ∧ ∃ v rest, readNumber (token ++ dropped) = .ok (v, rest)

/-- What a reader makes of the front part of a text, and what that tells of the whole.  The
reader starts at a place and ends at a place that depends on the value; `Early` holds of the
values that it may return where the front part ends in a number. -/
inductive Continuation (before : Place) (after : α → Place) (Early : α → Prop) (r : Reader α)
    (kept dropped : List UInt8) : Prop
  | starved (h : r kept = .error .endOfText)
  | failed {fault : Fault} (h : r kept = .error fault) (hwhole : r (kept ++ dropped) = .error fault)
  | settled {used left : List UInt8} {a : α} (hkept : kept = used ++ left)
      (hplace : before.run used = after a) (h : r kept = .ok (a, left))
      (hwhole : r (kept ++ dropped) = .ok (a, left ++ dropped))
  | early {token : List UInt8} {a : α} (hcut : EndsInNumber before kept token)
      (h : r kept = .ok (a, [])) (hearly : Early a)
  | broken {token : List UInt8} {fault : Fault} (hcut : EndsInNumber before kept token)
      (h : r kept = .error fault)
      (hwhole : ∀ a rest, r (kept ++ dropped) = .ok (a, rest) → TooLargeWhereCut token dropped)

variable {before : Place} {after : α → Place} {Early : α → Prop} {r : Reader α}
  {kept dropped : List UInt8}

/-- Once a part of the text is settled, what matters is how the reader goes on behind it. -/
theorem Continuation.of_settled (r' : Reader α) {used left : List UInt8}
    (hkept : kept = used ++ left) (hr : r kept = r' left)
    (hwhole : r (kept ++ dropped) = r' (left ++ dropped))
    (h : Continuation (before.run used) after Early r' left dropped) :
    Continuation before after Early r kept dropped := by
  subst hkept
  cases h with
  | starved h => exact .starved (hr.trans h)
  | failed h hnext => exact .failed (hr.trans h) (hwhole.trans hnext)
  | @settled used' left' b hleft hplace h hnext =>
    subst hleft
    rw [← Place.run_append] at hplace
    exact .settled (List.append_assoc _ _ _).symm hplace (hr.trans h) (hwhole.trans hnext)
  | early hcut h hearly => exact .early hcut.append_left (hr.trans h) hearly
  | broken hcut h hnext =>
    exact .broken hcut.append_left (hr.trans h) fun a rest hok => hnext a rest (hwhole ▸ hok)

/-- The front of a text tells of the whole, wherever the text is cut. -/
def Continues (before : Place) (after : α → Place) (Early : α → Prop) (r : Reader α) : Prop :=
  ∀ kept dropped, Continuation before after Early r kept dropped

/-- The same where the next byte is known, and stands between strings. -/
def ContinuesAt (b : UInt8) (after : α → Place) (Early : α → Prop) (r : Reader α) : Prop :=
  ∀ tail dropped, Continuation .between after Early r (b :: tail) dropped

theorem Continues.at_byte (h : Continues .between after Early r) (b : UInt8) :
    ContinuesAt b after Early r :=
  fun tail dropped => h (b :: tail) dropped

theorem Continues.mono {Early' : α → Prop} (h : Continues before after Early r)
    (himp : ∀ a, Early a → Early' a) : Continues before after Early' r := by
  intro kept dropped
  cases h kept dropped with
  | starved h => exact .starved h
  | failed h hwhole => exact .failed h hwhole
  | settled hkept hplace h hwhole => exact .settled hkept hplace h hwhole
  | early hcut h hearly => exact .early hcut h (himp _ hearly)
  | broken hcut h hwhole => exact .broken hcut h hwhole

/-! ## Sequences -/

theorem continues_pure {a : α} (h : before = after a) :
    Continues before after Early (pure a) :=
  fun kept _ => .settled (List.nil_append kept).symm h rfl rfl

theorem continues_throw (fault : Fault) : Continues before after Early (throw fault) :=
  fun _ _ => .failed rfl rfl

section Bind

variable {after' : β → Place} {Early' : β → Prop} {f : α → Reader β}

/-- Two readers one after the other.  Behind an early value the second reader finds nothing:
it asks for more, or it returns an early value in turn. -/
theorem Continues.bind (hr : Continues before after Early r)
    (hf : ∀ a, Continues (after a) after' Early' (f a))
    (hearly : ∀ a, Early a →
      f a [] = .error .endOfText ∨ ∃ b, f a [] = .ok (b, []) ∧ Early' b) :
    Continues before after' Early' (r >>= f) := by
  intro kept dropped
  cases hr kept dropped with
  | starved h => exact .starved (bind_of_error h)
  | failed h hwhole => exact .failed (bind_of_error h) (bind_of_error hwhole)
  | settled hkept hplace h hwhole =>
    refine .of_settled (f _) hkept (bind_of_ok h) (bind_of_ok hwhole) ?_
    rw [hplace]
    exact hf _ _ dropped
  | early hcut h hearlyValue =>
    rcases hearly _ hearlyValue with hstarved | ⟨b, hok, hb⟩
    · exact .starved ((bind_of_ok h).trans hstarved)
    · exact .early hcut ((bind_of_ok h).trans hok) hb
  | broken hcut h hwhole =>
    refine .broken hcut (bind_of_error h) fun b rest hok => ?_
    obtain ⟨a, middle, ha, -⟩ := bind_eq_ok_iff.1 hok
    exact hwhole a middle ha

/-- A sequence whose first part has no early value. -/
theorem Continues.seq (hr : Continues before after (fun _ => False) r)
    (hf : ∀ a, Continues (after a) after' Early' (f a)) :
    Continues before after' Early' (r >>= f) :=
  hr.bind hf fun _ => False.elim

/-- A reader whose value is only passed on. -/
theorem Continues.bind_pure {g : α → β} (hr : Continues before after Early r)
    (hplace : ∀ a, after a = after' (g a)) (hearly : ∀ a, Early a → Early' (g a)) :
    Continues before after' Early' (r >>= fun a => pure (g a)) :=
  hr.bind (fun a => continues_pure (hplace a)) fun a ha => .inr ⟨g a, rfl, hearly a ha⟩

theorem Continues.map {g : α → β} (hr : Continues before after Early r)
    (hplace : ∀ a, after a = after' (g a)) (hearly : ∀ a, Early a → Early' (g a)) :
    Continues before after' Early' (g <$> r) := by
  rw [map_eq_bind]
  exact hr.bind_pure hplace hearly

theorem Continues.map_seq {g : α → β} (hr : Continues before after (fun _ => False) r)
    (hplace : ∀ a, after a = after' (g a)) : Continues before after' Early' (g <$> r) :=
  hr.map hplace fun _ => False.elim

end Bind

/-! ## Single bytes -/

theorem continues_next {Early : UInt8 → Prop} : Continues before before.step Early next := by
  intro kept dropped
  cases kept with
  | nil => exact .starved rfl
  | cons b tail => exact .settled (List.singleton_append).symm rfl rfl rfl

/-- A reader that takes the next byte, which is known. -/
theorem continuesAt_next_bind {b : UInt8} {f : UInt8 → Reader α}
    (h : Continues (Place.between.step b) after Early (f b)) :
    ContinuesAt b after Early (next >>= f) := by
  intro tail dropped
  refine .of_settled (f b) (List.singleton_append).symm (next_bind_cons f b tail)
    (next_bind_cons f b (tail ++ dropped)) ?_
  exact h tail dropped

theorem continues_word {Early : Unit → Prop} (bytes : List UInt8) :
    Continues before (fun _ => before.run bytes) Early (word bytes) := by
  induction bytes generalizing before with
  | nil => exact continues_pure rfl
  | cons expected bytes ih =>
    refine continues_next.seq fun b => ?_
    split
    · next hb =>
      subst hb
      exact ih
    · exact continues_throw _

theorem run_between_takeWhile_isSpace (text : List UInt8) :
    Place.between.run (text.takeWhile isSpace) = .between := by
  refine Place.run_between fun b hb hquote => ?_
  have hspace := List.mem_takeWhile_imp hb
  rw [hquote] at hspace
  cases hspace

/-- A reader that looks at the next byte behind white space. -/
theorem continues_peek_bind {f : UInt8 → Reader α}
    (h : ∀ b, isSpace b = false → ContinuesAt b after Early (f b)) :
    Continues .between after Early (peek >>= f) := by
  intro kept dropped
  cases hdrop : kept.dropWhile isSpace with
  | nil => exact .starved (by rw [peek_bind_apply, hdrop])
  | cons b tail =>
    have hkept := (List.takeWhile_append_dropWhile (p := isSpace) (l := kept)).symm
    have hwhole : (kept ++ dropped).dropWhile isSpace = b :: (tail ++ dropped) := by
      rw [List.dropWhile_append, hdrop]
      rfl
    rw [hdrop] at hkept
    refine .of_settled (f b) hkept (by rw [peek_bind_apply, hdrop])
      (by rw [peek_bind_apply, hwhole, List.cons_append]) ?_
    rw [run_between_takeWhile_isSpace]
    exact h b (isSpace_of_dropWhile hdrop) tail dropped

/-- A reader that looks at what the next value is. -/
theorem continues_lead_bind {f : Lead → Reader α}
    (h : ∀ b, isSpace b = false → ContinuesAt b after Early (f (.ofByte b))) :
    Continues .between after Early (lead >>= f) := by
  rw [lead, bind_assoc]
  refine continues_peek_bind fun b hb => ?_
  rw [pure_bind]
  exact h b hb

theorem continues_symbol {Early : Unit → Prop} (expected : UInt8) :
    Continues .between (fun _ => Place.between.step expected) Early (symbol expected) := by
  refine continues_peek_bind fun b _ => ?_
  split
  · next hb =>
    subst hb
    exact continuesAt_next_bind (continues_pure rfl)
  · exact (continues_throw _).at_byte b

/-! ## The loop -/

/-- The law of the loop.  A step may return an early value only if it asks to be repeated, and
finds nothing then.  The induction is on the length of the text, which every repeated step
makes shorter. -/
theorem continues_iterate {place : Place} {after : β → Place} {Early : β → Prop}
    {step : σ → Reader (σ ⊕ β)} (hshrinks : Shrinks step)
    (hnil : ∀ state, step state [] = .error .endOfText)
    (hstep : ∀ state, Continues place (Sum.elim (fun _ => place) after) (fun out => out.isLeft)
      (step state)) (state : σ) :
    Continues place after Early (iterate step state) := by
  intro kept dropped
  induction hn : kept.length using Nat.strong_induction_on generalizing state kept with
  | _ n ih =>
    have hkeptEq := iterate_of_shrinks hshrinks state kept
    have hwholeEq := iterate_of_shrinks hshrinks state (kept ++ dropped)
    cases hstep state kept dropped with
    | starved h => exact .starved (by rw [hkeptEq, h])
    | failed h hwhole => exact .failed (by rw [hkeptEq, h]) (by rw [hwholeEq, hwhole])
    | @settled used left out hkept hplace h hwhole =>
      rw [h] at hkeptEq
      rw [hwhole] at hwholeEq
      cases out with
      | inr result => exact .settled hkept hplace hkeptEq hwholeEq
      | inl state' =>
        have hshorter := hshrinks state kept state' left h
        refine .of_settled (iterate step state') hkept hkeptEq hwholeEq ?_
        rw [hplace]
        exact ih left.length (by omega) state' left rfl
    | @early token out hcut h hearly =>
      cases out with
      | inr result => cases hearly
      | inl state' =>
        rw [h] at hkeptEq
        refine .starved (hkeptEq.trans ?_)
        show iterate step state' [] = _
        rw [iterate_of_shrinks hshrinks, hnil state']
    | broken hcut h hwhole =>
      refine .broken hcut (by rw [hkeptEq, h]) fun result rest hok => ?_
      rw [hwholeEq] at hok
      split at hok
      · cases hok
      · next hout => exact hwhole _ _ hout
      · next hout => exact hwhole _ _ hout

end RecordFilter.Json
