import Mathlib
import RecordFilter.Proofs.Json.FloatReading

/-!
# Numbers with more digits than are read

A significand takes digits for as long as they fit sixty-four bits.  The first that does not fit ends
the digits before the point, and those after it are tried again.  Either way the digits that are read
and all the digits agree up to the first that was dropped, by which time they are so many that what is
read differs from the number by less than a rounding would (`close_scaled`).
-/

namespace RecordFilter.Json.Numeral

open Number Binary64 Decimal

/-! ## Digits after a number -/

theorem appended_append (m : Nat) (ds es : List Nat) :
    appended m (ds ++ es) = appended (appended m ds) es :=
  List.foldl_append

theorem appended_bounds {ds : List Nat} (h : ∀ d ∈ ds, d < 10) (m : Nat) :
    m * tenTo ds.length ≤ appended m ds ∧ appended m ds + 1 ≤ (m + 1) * tenTo ds.length := by
  induction ds generalizing m with
  | nil => simp [appended, tenTo]
  | cons d ds ih =>
    obtain ⟨hd, hds⟩ := List.forall_mem_cons.1 h
    obtain ⟨hlow, hhigh⟩ := ih hds (10 * m + d)
    have hten := tenTo_pos ds.length
    rw [List.length_cons, tenTo_succ]
    constructor
    · calc m * (10 * tenTo ds.length) = 10 * m * tenTo ds.length := by ring
        _ ≤ (10 * m + d) * tenTo ds.length := Nat.mul_le_mul_right _ (by omega)
        _ ≤ appended m (d :: ds) := hlow
    · calc appended m (d :: ds) + 1 ≤ (10 * m + d + 1) * tenTo ds.length := hhigh
        _ ≤ (10 * (m + 1)) * tenTo ds.length := Nat.mul_le_mul_right _ (by omega)
        _ = (m + 1) * (10 * tenTo ds.length) := by ring

/-- Digits are taken up to the first that does not fit. -/
theorem exists_appendFitting (m : Nat) (ds : List Nat) :
    ∃ taken left, ds = taken ++ left ∧ appendFitting m ds = (appended m taken, left) ∧
      ∀ d ∈ left.head?, UInt64.size ≤ 10 * appended m taken + d := by
  induction ds generalizing m with
  | nil => exact ⟨[], [], rfl, rfl, fun d hd => by cases hd⟩
  | cons d ds ih =>
    by_cases hfits : 10 * m + d < UInt64.size
    · obtain ⟨taken, left, rfl, happend, hfull⟩ := ih (10 * m + d)
      refine ⟨d :: taken, left, rfl, ?_, hfull⟩
      rw [appendFitting, if_pos hfits, happend]
      rfl
    · refine ⟨[], d :: ds, rfl, ?_, ?_⟩
      · rw [appendFitting, if_neg hfits]
        rfl
      · intro e he
        cases he
        exact Nat.not_lt.1 hfits

/-! ## The digits that are read -/

/-- Whether two numbers begin with the same digits, at least fifteen of them. -/
def SameStart (a b : Nat) : Prop :=
  ∃ m T : Nat, 2 ^ 53 ≤ m ∧ (m * T ≤ a ∧ a ≤ (m + 1) * T) ∧ m * T ≤ b ∧ b ≤ (m + 1) * T

theorem le_of_full {m d : Nat} (hd : d < 10) (h : UInt64.size ≤ 10 * m + d) : 2 ^ 53 ≤ m := by
  unfold UInt64.size at h
  omega

/-- Two numbers of as many digits behind one start are alike where the start is long. -/
theorem sameStart_appended {m n : Nat} {ds es : List Nat} (hm : 2 ^ 53 ≤ m) (hds : ∀ d ∈ ds, d < 10)
    (hes : ∀ e ∈ es, e < 10) (hlength : es.length = ds.length + n) :
    SameStart (appended m ds * tenTo n) (appended m es) := by
  obtain ⟨hlow, hhigh⟩ := appended_bounds hds m
  obtain ⟨hlow', hhigh'⟩ := appended_bounds hes m
  have hpower : tenTo es.length = tenTo ds.length * tenTo n := by
    simp only [tenTo_eq, hlength, pow_add]
  rw [hpower] at hlow' hhigh'
  refine ⟨m, tenTo ds.length * tenTo n, hm, ⟨?_, ?_⟩, hlow', by omega⟩
  · rw [← Nat.mul_assoc]
    exact Nat.mul_le_mul_right _ hlow
  · rw [← Nat.mul_assoc]
    exact Nat.mul_le_mul_right _ (by omega)

/-- The digits that are read, with zeros for those that are not, are all the digits or begin like them. -/
theorem exists_scaled_eq {t : Numeral} (h : ∀ d ∈ t.whole ++ t.fraction, d < 10) :
    ∃ n : Nat, t.scaled.2 = t.scale + n ∧
      (t.scaled.1 * tenTo n = t.significand ∨ SameStart (t.scaled.1 * tenTo n) t.significand) := by
  obtain ⟨w, dropped, hwhole, hfits, hfull⟩ := exists_appendFitting 0 t.whole
  obtain ⟨f, ignored, hfraction, hfits', hfull'⟩ := exists_appendFitting (appended 0 w) t.fraction
  have hscaled : t.scaled = (appended (appended 0 w) f,
      dropped.length - (t.fraction.length - ignored.length : Nat) + t.exponentValue) := by
    rw [scaled, hfits]
    dsimp only
    rw [hfits']
  have hsignificand : t.significand = appended (appended 0 w) (dropped ++ (f ++ ignored)) := by
    rw [← appended_append, ← List.append_assoc, ← hwhole, ← hfraction]
    rfl
  rw [hwhole, hfraction] at h
  simp only [List.forall_mem_append] at h
  obtain ⟨⟨-, hdropped⟩, hf, hignored⟩ := h
  have hlength : t.fraction.length = f.length + ignored.length := by
    rw [hfraction, List.length_append]
  rw [hscaled, hsignificand, scale, hlength]
  dsimp only
  generalize appended 0 w = m at *
  refine ⟨dropped.length + ignored.length, by omega, ?_⟩
  cases dropped with
  | nil =>
    rw [List.nil_append, appended_append, List.length_nil, Nat.zero_add]
    cases ignored with
    | nil => exact .inl (Nat.mul_one _)
    | cons d ignored =>
      have hlong : 2 ^ 53 ≤ appended m f :=
        le_of_full (hignored d List.mem_cons_self) (hfull' d rfl)
      exact .inr (sameStart_appended hlong (List.forall_mem_nil _) hignored (Nat.zero_add _).symm)
  | cons d dropped =>
    -- the digits after the point stand where the dropped ones were
    have hlong : 2 ^ 53 ≤ m := le_of_full (hdropped d List.mem_cons_self) (hfull d rfl)
    have hall : ∀ e ∈ (d :: dropped) ++ (f ++ ignored), e < 10 := by
      simp only [List.forall_mem_append]
      exact ⟨hdropped, hf, hignored⟩
    refine .inr (sameStart_appended hlong hf hall ?_)
    simp only [List.length_append]
    omega

/-- Numbers that begin with the same digits are as close as those with one rounding between them. -/
theorem SameStart.close {a b : Nat} (h : SameStart a b) (e : Int) :
    Close 1 (scaledUnits a e) (scaledUnits b e) := by
  obtain ⟨m, T, hm, ⟨ha, ha'⟩, hb, hb'⟩ := h
  have hunit := scaledUnits_nonneg 1 e
  have hbound : ∀ a b : Nat, a ≤ (m + 1) * T → m * T ≤ b →
      scaledUnits a e ≤ scaledUnits b e * roundoff ^ 1 := by
    intro a b ha hb
    have hm' : (2 ^ 53 : ℚ) ≤ m := by exact_mod_cast hm
    have ha' : (a : ℚ) ≤ (m + 1) * T := by exact_mod_cast ha
    have hb' : (m * T : ℚ) ≤ b := by exact_mod_cast hb
    have hstep : (2 ^ 53 * T : ℚ) ≤ b :=
      (mul_le_mul_of_nonneg_right hm' (Nat.cast_nonneg T)).trans hb'
    have hle : (a : ℚ) ≤ b * roundoff := by
      rw [roundoff]
      linarith
    rw [scaledUnits_eq_mul a, scaledUnits_eq_mul b, pow_one, mul_right_comm]
    exact mul_le_mul_of_nonneg_right hle hunit
  exact ⟨hbound a b ha' hb, hbound b a hb' ha⟩

/-- The digits that are read come close to all of them. -/
theorem close_scaled {t : Numeral} (h : ∀ d ∈ t.whole ++ t.fraction, d < 10) :
    Close 1 (scaledUnits t.scaled.1 t.scaled.2) (scaledUnits t.significand t.scale) := by
  obtain ⟨n, hscale, heq | hstart⟩ := exists_scaled_eq h
  · rw [hscale, ← scaledUnits_mul_tenTo, heq]
    exact .of_eq (scaledUnits_nonneg _ _) rfl
  · rw [hscale, ← scaledUnits_mul_tenTo]
    exact hstart.close t.scale

/-- The float that is read, for whatever number, is near the one that is nearest. -/
theorem exists_magnitude? {t : Numeral} (h : ∀ d ∈ t.whole ++ t.fraction, d < 10) :
    ∃ j, Near 6 j (nearestScaled t.significand t.scale) ∧ t.magnitude? = within? j := by
  obtain ⟨j, hnear, hmagnitude⟩ := t.exists_magnitude?_scaled
  have hclose := close_scaled h
  rw [← value_scaled] at hclose
  have hdropped : Near 2 (nearestScaled t.scaled.1 t.scaled.2) (nearestScaled t.significand t.scale) :=
    near_of_close (by decide) (powerOfTen_pos _).2 hclose
  exact ⟨j, hnear.trans hdropped, hmagnitude⟩

end RecordFilter.Json.Numeral
