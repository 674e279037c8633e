import Mathlib
import RecordFilter.Text.Blank

/-!
# White space at the ends of a text

`Text.Stripped` says what is left of a text without the white space at its ends, and `strip` finds it.
What is left does not depend on how much white space there was.
-/

namespace RecordFilter.Text

variable {cs text before after : List Char}

/-- What is left of a text when it is taken out of the white space around it: the rest is white
space, and it neither begins nor ends with any. -/
structure Stripped (cs text : List Char) : Prop where
  padded : ∃ before after, cs = before ++ (text ++ after) ∧ (∀ c ∈ before, isBlank c) ∧
    ∀ c ∈ after, isBlank c
  first : ∀ c ∈ text.head?, isBlank c = false
  last : ∀ c ∈ text.getLast?, isBlank c = false

/-- What is dropped from the front of a text is blank, and the next character is not. -/
theorem exists_dropWhile (cs : List Char) :
    ∃ before, cs = before ++ cs.dropWhile isBlank ∧ (∀ c ∈ before, isBlank c) ∧
      ∀ c ∈ (cs.dropWhile isBlank).head?, isBlank c = false := by
  refine ⟨cs.takeWhile isBlank, List.takeWhile_append_dropWhile.symm, fun c hc => ?_, fun c hc => ?_⟩
  · exact List.mem_takeWhile_imp hc
  · have hfirst := List.head?_dropWhile_not isBlank cs
    rw [Option.mem_def.1 hc] at hfirst
    exact hfirst

theorem strip_stripped (cs : List Char) : Stripped cs (strip cs) := by
  obtain ⟨before, hbefore, hblank, hfirst⟩ := exists_dropWhile cs
  obtain ⟨after, hafter, hblank', -⟩ := exists_dropWhile (cs.dropWhile isBlank).reverse
  have hmiddle : cs.dropWhile isBlank = strip cs ++ after.reverse := by
    rw [strip, ← List.reverse_append, ← hafter, List.reverse_reverse]
  refine ⟨⟨before, after.reverse, ?_, hblank, fun c hc => hblank' c (List.mem_reverse.1 hc)⟩, ?_, ?_⟩
  · rw [← hmiddle, ← hbefore]
  · intro c hc
    refine hfirst c ?_
    rw [hmiddle, List.head?_append]
    rw [Option.mem_def] at hc
    simp [hc]
  · exact fun c hc => isBlank_of_getLast?_strip hc

/-- White space around a text makes no difference to what is left. -/
theorem strip_append (hbefore : ∀ c ∈ before, isBlank c) (hafter : ∀ c ∈ after, isBlank c) :
    strip (before ++ (cs ++ after)) = strip cs := by
  have hfront : (before ++ (cs ++ after)).dropWhile isBlank = (cs ++ after).dropWhile isBlank :=
    List.dropWhile_append_of_pos hbefore
  rw [strip, hfront, strip, List.dropWhile_append]
  cases hdrop : cs.dropWhile isBlank with
  | nil =>
    have hnil : after.dropWhile isBlank = [] := List.dropWhile_eq_nil_iff.2 hafter
    rw [if_pos List.isEmpty_nil, hnil]
  | cons c rest =>
    have hback : ∀ d ∈ after.reverse, isBlank d := fun d hd => hafter d (List.mem_reverse.1 hd)
    rw [if_neg (by simp), List.reverse_append, List.dropWhile_append_of_pos hback]

theorem strip_eq_iff : strip cs = text ↔ Stripped cs text := by
  constructor
  · rintro rfl
    exact strip_stripped cs
  · rintro ⟨⟨before, after, rfl, hbefore, hafter⟩, hfirst, hlast⟩
    rw [strip_append hbefore hafter, strip_eq_self hfirst hlast]

end RecordFilter.Text
