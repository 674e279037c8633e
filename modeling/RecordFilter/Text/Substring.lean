/-!
# Substrings

A text occurs in another when the other is some text, then it, then some text.  `occursIn` decides
this by trying every position; `occursIn_iff` is its law.
-/

namespace RecordFilter.Text

/-- Whether a text occurs somewhere in another. -/
def occursIn (needle : List Char) : List Char → Bool
  | [] => needle.isEmpty
  | c :: cs => needle.isPrefixOf (c :: cs) || occursIn needle cs

theorem occursIn_iff {needle haystack : List Char} :
    occursIn needle haystack = true ↔ needle <:+: haystack := by
  induction haystack with
  | nil => simp [occursIn]
  | cons c cs ih =>
    simp only [occursIn, Bool.or_eq_true, ih, List.isPrefixOf_iff_prefix, List.infix_cons_iff]

end RecordFilter.Text
