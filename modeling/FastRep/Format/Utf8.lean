/-
Texts in UTF-8, and what a cut at a byte leaves of one.

A reader that looks at the first so many bytes of a file sees a text that
may end in the middle of a character. `take_utf8` says that this is all that
can happen: the first bytes are the encoding of the first characters, and
perhaps some bytes of the next one, not all of them (`Partial`). `Cut` is
the case of no such rest.
-/
import Mathlib.Data.List.Basic

namespace FastRep.Format

/-- A text in UTF-8. -/
def utf8 (text : List Char) : List UInt8 := text.flatMap String.utf8EncodeChar

@[simp]
theorem utf8_nil : utf8 [] = [] := rfl

/-- The bytes of the first character come first. -/
@[simp]
theorem utf8_cons (c : Char) (text : List Char) :
    utf8 (c :: text) = String.utf8EncodeChar c ++ utf8 text := List.flatMap_cons

/-- Texts are encoded one after the other. -/
theorem utf8_append (a b : List Char) : utf8 (a ++ b) = utf8 a ++ utf8 b := List.flatMap_append

/-- Every character takes at least one byte. -/
theorem length_le_utf8 (text : List Char) : text.length ≤ (utf8 text).length := by
  induction text with
  | nil => exact Nat.le_refl _
  | cons c text ih =>
      have hpos : 0 < (String.utf8EncodeChar c).length :=
        List.length_pos_iff.mpr String.utf8EncodeChar_ne_nil
      rw [utf8_cons, List.length_append, List.length_cons]
      omega

/-- Some bytes of a character, but not all. -/
def Partial (q : List UInt8) : Prop :=
  q ≠ [] ∧ ∃ c : Char, ∃ n < (String.utf8EncodeChar c).length, q = (String.utf8EncodeChar c).take n

/-- The text of the first bytes, when they end at a character. -/
def Cut (text pre : List Char) (n : Nat) : Prop :=
  (∃ post, text = pre ++ post) ∧ (utf8 text).take n = utf8 pre

/-- The first bytes of a text are a part of the text, and perhaps some bytes of
the next character. -/
theorem take_utf8 (text : List Char) (n : Nat) : ∃ pre post q, text = pre ++ post ∧
    (utf8 text).take n = utf8 pre ++ q ∧ (q = [] ∨ Partial q) := by
  induction text generalizing n with
  | nil => exact ⟨[], [], [], rfl, by simp, .inl rfl⟩
  | cons c text ih =>
      by_cases hn : n < (String.utf8EncodeChar c).length
      · refine ⟨[], c :: text, (String.utf8EncodeChar c).take n, rfl, ?_, ?_⟩
        · rw [utf8_cons, List.take_append_of_le_length (Nat.le_of_lt hn), utf8_nil, List.nil_append]
        · by_cases hq : (String.utf8EncodeChar c).take n = []
          · exact .inl hq
          · exact .inr ⟨hq, c, n, hn, rfl⟩
      · obtain ⟨pre, post, q, htext, htake, hq⟩ := ih (n - (String.utf8EncodeChar c).length)
        refine ⟨c :: pre, post, q, by rw [htext]; rfl, ?_, hq⟩
        rw [utf8_cons, List.take_append, List.take_of_length_le (Nat.not_lt.mp hn), htake,
          utf8_cons, List.append_assoc]

end FastRep.Format
