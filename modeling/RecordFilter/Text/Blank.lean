/-!
# Blank characters

White space is the Unicode property `White_Space`: twenty-five characters, listed here as ranges of
code points.  `strip` removes them from both ends of a text.  The main statements say that what is
left does not end with a blank, and that a text with no blank at its ends is unchanged.
-/

namespace RecordFilter.Text

/-- The first and last code point of each run of white space. -/
def blankRanges : List (Nat × Nat) :=
  [(0x09, 0x0D), (0x20, 0x20), (0x85, 0x85), (0xA0, 0xA0), (0x1680, 0x1680), (0x2000, 0x200A),
   (0x2028, 0x2029), (0x202F, 0x202F), (0x205F, 0x205F), (0x3000, 0x3000)]

/-- Whether a code point lies in one of the ranges. -/
def inRanges (ranges : List (Nat × Nat)) (code : Nat) : Bool :=
  ranges.any fun (first, last) => first ≤ code && code ≤ last

/-- Whether a character is white space. -/
def isBlank (c : Char) : Bool :=
  inRanges blankRanges c.toNat

/-- A text without the white space at its two ends. -/
def strip (cs : List Char) : List Char :=
  ((cs.dropWhile isBlank).reverse.dropWhile isBlank).reverse

/-- A text with no blank at either end is left as it is. -/
theorem strip_eq_self {cs : List Char} (hfirst : ∀ c ∈ cs.head?, isBlank c = false)
    (hlast : ∀ c ∈ cs.getLast?, isBlank c = false) : strip cs = cs := by
  have hdrop : ∀ ds : List Char, (∀ c ∈ ds.head?, isBlank c = false) → ds.dropWhile isBlank = ds := by
    intro ds h
    cases ds with
    | nil => rfl
    | cons d ds => simp [h d (by simp)]
  rw [strip, hdrop cs hfirst, hdrop cs.reverse (by simpa using hlast), List.reverse_reverse]

/-- What is left does not end with a blank. -/
theorem isBlank_of_getLast?_strip {cs : List Char} {c : Char} (h : c ∈ (strip cs).getLast?) :
    isBlank c = false := by
  rw [strip, List.getLast?_reverse, Option.mem_def] at h
  cases hd : List.dropWhile isBlank (cs.dropWhile isBlank).reverse with
  | nil => simp [hd] at h
  | cons d ds =>
    have hne : List.dropWhile isBlank (cs.dropWhile isBlank).reverse ≠ [] := by simp [hd]
    have := List.head_dropWhile_not isBlank hne
    simp_all

end RecordFilter.Text
