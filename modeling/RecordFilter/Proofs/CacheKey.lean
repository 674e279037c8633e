import Mathlib
import RecordFilter.Cache.Key

/-!
# Content keys tell rule sets apart

The parts of a key are put one after the other with nothing between them.  Every part is
self-delimiting: if two parts with more bytes behind them make the same sequence, then the
parts are the same and so are the bytes behind.  The statements `…_append_inj` say so, from
the parts up to whole conditions, and `key_inj` follows by induction on the conditions.

A length is written in eight bytes, so strings must be shorter than `2 ^ 64` bytes;
`RuleSet.Fits` says so of a rule set.  The number of conditions needs no bound, because
nothing follows the conditions.
-/

namespace RecordFilter

open Number

/-! ## Sizes -/

/-- Every string of a condition has a length that eight bytes can hold. -/
structure Condition.Fits (c : Condition) : Prop where
  field : c.field.utf8ByteSize < 2 ^ 64
  value : ∀ s, c.value = some (.string s) → s.utf8ByteSize < 2 ^ 64

/-- Every string of a rule set has a length that eight bytes can hold. -/
def RuleSet.Fits (rules : RuleSet) : Prop :=
  ∀ c ∈ rules.conditions, c.Fits

namespace Cache

/-! ## Numbers -/

@[simp] theorem length_littleEndian (count n : Nat) : (littleEndian count n).length = count := by
  induction count generalizing n with
  | zero => rfl
  | succ count ih => rw [littleEndian, List.length_cons, ih]

theorem littleEndian_inj {count m n : Nat} (hm : m < 256 ^ count) (hn : n < 256 ^ count)
    (h : littleEndian count m = littleEndian count n) : m = n := by
  induction count generalizing m n with
  | zero =>
    rw [Nat.pow_zero] at hm hn
    omega
  | succ count ih =>
    rw [littleEndian, littleEndian, List.cons.injEq] at h
    obtain ⟨hlow, hhigh⟩ := h
    have hmod : m % 256 = n % 256 := by
      have hbyte := congrArg UInt8.toNat hlow
      rw [UInt8.toNat_ofNat', UInt8.toNat_ofNat'] at hbyte
      omega
    have hdiv : m / 256 = n / 256 := by
      refine ih ?_ ?_ hhigh
      · rw [Nat.pow_succ] at hm
        omega
      · rw [Nat.pow_succ] at hn
        omega
    omega

/-- Eight bytes hold one number, whatever follows them. -/
theorem littleEndian_append_inj {m n : Nat} {r t : List UInt8} (hm : m < 2 ^ 64) (hn : n < 2 ^ 64)
    (h : littleEndian 8 m ++ r = littleEndian 8 n ++ t) : m = n ∧ r = t := by
  have hlength : (littleEndian 8 m).length = (littleEndian 8 n).length := by
    rw [length_littleEndian, length_littleEndian]
  obtain ⟨hbytes, hrest⟩ := List.append_inj h hlength
  exact ⟨littleEndian_inj hm hn hbytes, hrest⟩

theorem toBits_lt (x : Binary64) : x.toBits < 2 ^ 64 := by
  have hmagnitude := x.magnitude.isLt
  rw [Binary64.toBits]
  split
  · have hsign : (1 <<< 63 : Nat) = 2 ^ 63 := rfl
    omega
  · omega

/-- A float is given by its bits. -/
theorem toBits_inj {x y : Binary64} (h : x.toBits = y.toBits) : x = y := by
  obtain ⟨negative, magnitude⟩ := x
  obtain ⟨negative', magnitude'⟩ := y
  have hlt := magnitude.isLt
  have hlt' := magnitude'.isLt
  have hsign : (1 <<< 63 : Nat) = 2 ^ 63 := rfl
  rw [Binary64.toBits, Binary64.toBits, hsign] at h
  have hsame : negative = negative' ∧ magnitude.toNat = magnitude'.toNat := by
    cases negative <;> cases negative' <;>
      simp only [reduceIte, Bool.false_eq_true, true_and] at h ⊢
    all_goals omega
  rw [hsame.1, BitVec.eq_of_toNat_eq hsame.2]

/-! ## Strings -/

theorem length_utf8 (s : String) : (Text.utf8 s).length = s.utf8ByteSize := by
  simp [Text.utf8]

theorem utf8_inj {s t : String} (h : Text.utf8 s = Text.utf8 t) : s = t := by
  have hs := Text.ofUtf8?_utf8 s
  rw [h, Text.ofUtf8?_utf8, Option.some.injEq] at hs
  exact hs.symm

/-- The length in front says where a string ends. -/
theorem stringKey_append_inj {a b : String} {r t : List UInt8} (ha : a.utf8ByteSize < 2 ^ 64)
    (hb : b.utf8ByteSize < 2 ^ 64) (h : stringKey a ++ r = stringKey b ++ t) : a = b ∧ r = t := by
  rw [stringKey, stringKey, List.append_assoc, List.append_assoc, countKey, countKey] at h
  rw [← length_utf8] at ha hb
  obtain ⟨hlength, hrest⟩ := littleEndian_append_inj ha hb h
  obtain ⟨hbytes, hrest⟩ := List.append_inj hrest hlength
  exact ⟨utf8_inj hbytes, hrest⟩

/-! ## Literals and conditions -/

/-- The byte in front says what kind of literal follows, and so how to read it. -/
theorem literalKey_append_inj {a b : Option Literal} {r t : List UInt8}
    (ha : ∀ s, a = some (.string s) → s.utf8ByteSize < 2 ^ 64)
    (hb : ∀ s, b = some (.string s) → s.utf8ByteSize < 2 ^ 64)
    (h : literalKey a ++ r = literalKey b ++ t) : a = b ∧ r = t := by
  rcases a with _ | (b₁ | n₁ | x₁ | s₁) <;> rcases b with _ | (b₂ | n₂ | x₂ | s₂)
  case none.none =>
    simpa [literalKey] using h
  case some.bool.some.bool =>
    cases b₁ <;> cases b₂ <;> simp [literalKey] at h ⊢ <;> exact h
  case some.int.some.int =>
    obtain ⟨hbits, hrest⟩ := littleEndian_append_inj (UInt64.toNat_lt _) (UInt64.toNat_lt _)
      (List.cons.inj h).2
    have hword : n₁.toUInt64 = n₂.toUInt64 := UInt64.toNat_inj.1 hbits
    have hint : n₁ = n₂ := by
      rw [← Int64.toInt64_toUInt64 n₁, hword, Int64.toInt64_toUInt64]
    exact ⟨by rw [hint], hrest⟩
  case some.float.some.float =>
    obtain ⟨hbits, hrest⟩ := littleEndian_append_inj (toBits_lt x₁) (toBits_lt x₂)
      (List.cons.inj h).2
    exact ⟨by rw [toBits_inj hbits], hrest⟩
  case some.string.some.string =>
    obtain ⟨hstring, hrest⟩ := stringKey_append_inj (ha s₁ rfl) (hb s₂ rfl) (List.cons.inj h).2
    exact ⟨by rw [hstring], hrest⟩
  all_goals
    -- the bytes in front differ
    have hkind := (List.cons.inj h).1
    simp at hkind

theorem operator_index_inj {a b : Operator} (h : UInt8.ofNat a.index = UInt8.ofNat b.index) :
    a = b := by
  cases a <;> cases b <;> first | rfl | exact absurd h (by decide)

/-- A condition's key says where it ends. -/
theorem conditionKey_append_inj {a b : Condition} {r t : List UInt8} (ha : a.Fits) (hb : b.Fits)
    (h : conditionKey a ++ r = conditionKey b ++ t) : a = b ∧ r = t := by
  rw [conditionKey, conditionKey, List.append_assoc, List.append_assoc, List.append_assoc,
    List.append_assoc] at h
  obtain ⟨hfield, hafter⟩ := stringKey_append_inj ha.field hb.field h
  obtain ⟨hoperator, hliteral⟩ := List.cons.inj hafter
  obtain ⟨hvalue, hrest⟩ := literalKey_append_inj ha.value hb.value hliteral
  obtain ⟨field, operator, value⟩ := a
  obtain ⟨field', operator', value'⟩ := b
  simp only at hfield hvalue
  have hop : operator = operator' := operator_index_inj hoperator
  rw [hfield, hvalue, hop]
  exact ⟨rfl, hrest⟩

theorem conditionKey_ne_nil (c : Condition) : conditionKey c ≠ [] := by
  simp [conditionKey]

/-- The keys of conditions, one after the other, say which conditions there are and in which
order. -/
theorem flatMap_conditionKey_inj {as bs : List Condition} (ha : ∀ c ∈ as, c.Fits)
    (hb : ∀ c ∈ bs, c.Fits) (h : as.flatMap conditionKey = bs.flatMap conditionKey) : as = bs := by
  induction as generalizing bs with
  | nil =>
    cases bs with
    | nil => rfl
    | cons b bs =>
      rw [List.flatMap_nil, List.flatMap_cons, eq_comm, List.append_eq_nil_iff] at h
      exact absurd h.1 (conditionKey_ne_nil b)
  | cons a as ih =>
    cases bs with
    | nil =>
      rw [List.flatMap_nil, List.flatMap_cons, List.append_eq_nil_iff] at h
      exact absurd h.1 (conditionKey_ne_nil a)
    | cons b bs =>
      rw [List.flatMap_cons, List.flatMap_cons] at h
      rw [List.forall_mem_cons] at ha hb
      obtain ⟨hhead, htail⟩ := conditionKey_append_inj ha.1 hb.1 h
      rw [hhead, ih ha.2 hb.2 htail]

/-! ## Rule sets -/

theorem connectorKey_append_inj {a b : Option Connector} {r t : List UInt8}
    (h : connectorKey a ++ r = connectorKey b ++ t) : a = b ∧ r = t := by
  rcases a with _ | (_ | _) <;> rcases b with _ | (_ | _) <;>
    simp [connectorKey, Connector.index] at h ⊢ <;> exact h

/-- Rule sets with the same key are the same. -/
theorem key_inj {a b : RuleSet} (ha : a.Fits) (hb : b.Fits) (h : key a = key b) : a = b := by
  rw [key, key, List.append_assoc, List.append_assoc] at h
  obtain ⟨hconnector, hrest⟩ := connectorKey_append_inj h
  have hlength : (countKey a.conditions.length).length = (countKey b.conditions.length).length := by
    rw [countKey, countKey, length_littleEndian, length_littleEndian]
  have hconditions := flatMap_conditionKey_inj ha hb (List.append_inj hrest hlength).2
  obtain ⟨connector, conditions⟩ := a
  obtain ⟨connector', conditions'⟩ := b
  simp only at hconnector hconditions
  rw [hconnector, hconditions]

end Cache

end RecordFilter
