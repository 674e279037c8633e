import Mathlib
import RecordFilter.Number.Decimal

/-!
# Digits

What a list of digits denotes, and that the digits of a text are taken off it one by one up to the
first character that is none.
-/

namespace RecordFilter.Number

/-! ## What digits denote -/

theorem tenTo_succ (e : Nat) : tenTo (e + 1) = 10 * tenTo e :=
  Nat.pow_succ'

theorem ofDigits_append_singleton (ds : List Nat) (d : Nat) :
    ofDigits (ds ++ [d]) = 10 * ofDigits ds + d := by
  rw [ofDigits, List.foldl_append]
  rfl

theorem ofDigits_append (ds es : List Nat) :
    ofDigits (ds ++ es) = ofDigits ds * tenTo es.length + ofDigits es := by
  induction es using List.reverseRecOn with
  | nil => simp [ofDigits, tenTo]
  | append_singleton es e ih =>
    rw [← List.append_assoc, ofDigits_append_singleton, ofDigits_append_singleton, ih,
      List.length_append, List.length_singleton, tenTo_succ]
    ring

theorem ofDigits_replicate_zero (n : Nat) : ofDigits (List.replicate n 0) = 0 := by
  induction n with
  | zero => rfl
  | succ n ih => rw [List.replicate_succ', ofDigits_append_singleton, ih]

theorem ofDigits_lt {ds : List Nat} (h : ∀ d ∈ ds, d < 10) : ofDigits ds < tenTo ds.length := by
  induction ds using List.reverseRecOn with
  | nil => exact Nat.one_pos
  | append_singleton ds d ih =>
    have hds := ih fun e he => h e (List.mem_append_left [d] he)
    have hd := h d (by simp)
    rw [ofDigits_append_singleton, List.length_append, List.length_singleton, tenTo_succ]
    omega

/-! ## Digits in a text -/

theorem isDigit_digitChar : ∀ d < 10,
    isDigit (Nat.digitChar d) = true ∧ digitValue (Nat.digitChar d) = d := by
  decide

theorem spanDigits_append {ds : List Nat} (h : ∀ d ∈ ds, d < 10) {rest : List Char}
    (hrest : ∀ c ∈ rest.head?, isDigit c = false) :
    spanDigits (ds.map Nat.digitChar ++ rest) = (ds, rest) := by
  have hall : ∀ c ∈ ds.map Nat.digitChar, isDigit c = true := by
    intro c hc
    obtain ⟨d, hd, rfl⟩ := List.mem_map.1 hc
    exact (isDigit_digitChar d (h d hd)).1
  have hvalues : (ds.map Nat.digitChar).map digitValue = ds := by
    rw [List.map_map]
    conv => rhs; rw [← List.map_id ds]
    exact List.map_congr_left fun d hd => (isDigit_digitChar d (h d hd)).2
  have htake : rest.takeWhile isDigit = [] := by
    cases rest with
    | nil => rfl
    | cons c rest => exact List.takeWhile_cons_of_neg (by simp [hrest c rfl])
  have hdrop : rest.dropWhile isDigit = rest := by
    cases rest with
    | nil => rfl
    | cons c rest => exact List.dropWhile_cons_of_neg (by simp [hrest c rfl])
  rw [spanDigits, List.takeWhile_append_of_pos hall, List.dropWhile_append_of_pos hall, htake, hdrop,
    List.append_nil, hvalues]

end RecordFilter.Number
