import Mathlib
import RecordFilter.Proofs.Json.Pieces

/-!
# Running the reader of strings

Inside a string, a character is either escaped or written as its bytes.  Either way the
reader goes on with the bytes of that character added to those before: `iterate_escape`, and
`iterate_plain` with `plain_of_mem_utf8EncodeChar`.
-/

namespace RecordFilter.Json.StringToken

open Reader Text

theorem takes_hexNumber : Takes 0 hexNumber := by
  intro input n rest hok
  unfold hexNumber at hok
  split at hok
  · split at hok
    · cases hok
      simp only [List.length_cons]
      omega
    · cases hok
  · cases hok

theorem takes_numberedEscape : Takes 0 numberedEscape := by
  refine takes_hexNumber.bind_left fun n => ?_
  split
  · exact takes_throw 0 _
  split
  · refine (takes_word _).bind_left fun _ => takes_hexNumber.bind_left fun m => ?_
    split
    · exact takes_pure _
    · exact takes_throw 0 _
  · exact takes_pure _

theorem takes_escape : Takes 0 escape := by
  refine (takes_next.mono (Nat.zero_le 1)).bind_left fun b => ?_
  split
  · exact takes_numberedEscape
  split
  · exact takes_pure _
  · exact takes_throw 0 _

theorem takes_step [StringCheck] (done : List UInt8) : Takes 1 (step done) := by
  refine takes_next.bind_left fun b => ?_
  split
  · split
    · exact takes_pure _
    · exact takes_throw 0 _
  split
  · exact takes_escape.bind_left fun _ => takes_pure _
  split
  · exact takes_throw 0 _
  · exact takes_pure _

theorem step_shrinks [StringCheck] : Shrinks step :=
  fun done input _ rest hok => takes_step done input _ rest hok

theorem takes_read [StringCheck] : Takes 0 read :=
  takes_iterate (fun done => (takes_step done).mono (Nat.zero_le 1)) []

/-- Bytes that stand for themselves inside a string. -/
def Plain (b : UInt8) : Prop :=
  b ≠ '"'.toUInt8 ∧ b ≠ '\\'.toUInt8 ∧ ¬ b < 0x20

theorem step_plain [StringCheck] {b : UInt8} (h : Plain b) (done rest : List UInt8) :
    step done (b :: rest) = .ok (.inl (b :: done), rest) := by
  obtain ⟨hquote, hslash, hcontrol⟩ := h
  rw [step, bind_of_ok (next_cons b rest), if_neg hquote, if_neg hslash, if_neg hcontrol,
    pure_apply]

theorem iterate_plain [StringCheck] {piece : List UInt8} (h : ∀ b ∈ piece, Plain b)
    (done rest : List UInt8) :
    iterate step done (piece ++ rest) = iterate step (piece.reverse ++ done) rest := by
  induction piece generalizing done with
  | nil => rfl
  | cons b piece ih =>
    rw [List.forall_mem_cons] at h
    rw [List.cons_append, iterate_of_shrinks step_shrinks, step_plain h.1]
    show iterate step (b :: done) (piece ++ rest) = _
    rw [ih h.2, List.reverse_cons, List.append_assoc, List.singleton_append]

theorem iterate_escape [StringCheck] {c : Char} {input rest : List UInt8}
    (h : escape input = .ok (c, rest)) (done : List UInt8) :
    iterate step done ('\\'.toUInt8 :: input) =
      iterate step ((String.utf8EncodeChar c).reverse ++ done) rest := by
  have hstep : step done ('\\'.toUInt8 :: input) =
      .ok (.inl ((String.utf8EncodeChar c).reverse ++ done), rest) := by
    rw [step, bind_of_ok (next_cons _ input), if_neg (by decide), if_pos rfl, bind_of_ok h,
      pure_apply]
  rw [iterate_of_shrinks step_shrinks, hstep]

theorem plain_of_mem_utf8EncodeChar {c : Char} (hquote : c ≠ '"') (hslash : c ≠ '\\')
    (hcontrol : 0x20 ≤ c.toNat) {b : UInt8} (hb : b ∈ String.utf8EncodeChar c) : Plain b := by
  rcases Nat.lt_or_ge c.toNat 0x80 with hascii | hwide
  · rw [utf8EncodeChar_of_lt hascii, List.mem_singleton] at hb
    have hnat : b.toNat = c.toNat := by
      rw [hb, UInt8.toNat_ofNat']
      omega
    refine ⟨fun h => hquote ?_, fun h => hslash ?_, fun h => ?_⟩
    · apply Char.toNat_inj.1
      rw [← hnat, h]
      rfl
    · apply Char.toNat_inj.1
      rw [← hnat, h]
      rfl
    · have := UInt8.lt_iff_toNat_lt.1 h
      have h20 : (0x20 : UInt8).toNat = 0x20 := rfl
      omega
  · have hge := le_of_mem_utf8EncodeChar hwide hb
    refine ⟨fun h => ?_, fun h => ?_, fun h => ?_⟩
    · rw [h] at hge
      revert hge
      decide
    · rw [h] at hge
      revert hge
      decide
    · have := UInt8.lt_iff_toNat_lt.1 h
      have h20 : (0x20 : UInt8).toNat = 0x20 := rfl
      omega

/-- A letter escape. -/
theorem escape_letter {letter c : Char} (h : (letter, c) ∈ letterEscapes) (rest : List UInt8) :
    escape (letter.toUInt8 :: rest) = .ok (c, rest) := by
  simp only [letterEscapes, List.mem_cons, List.not_mem_nil, or_false, Prod.mk.injEq] at h
  rcases h with ⟨rfl, rfl⟩ | ⟨rfl, rfl⟩ | ⟨rfl, rfl⟩ | ⟨rfl, rfl⟩ | ⟨rfl, rfl⟩ | ⟨rfl, rfl⟩ |
    ⟨rfl, rfl⟩ | ⟨rfl, rfl⟩ <;> rfl

end RecordFilter.Json.StringToken
