/-
Numbers and words in byte strings, as binary formats write them.

A field of a format is a number in so many bytes, in one of the two byte
orders. `leBytes` and `beBytes` write it, `leValue` and `beValue` read it
back (`leValue_leBytes`, `beValue_beBytes`: where it fits). A field of known
bytes in front of unknown ones is read by `leValue_append` and
`beValue_append`. Names of chunks and signatures are words of ASCII letters.
-/
import Mathlib.Data.List.Basic
import Mathlib.Tactic.Ring

namespace FastRep.Format

-- ============================================================ the values

/-- The number a byte string is, least significant byte first. -/
def leValue : List UInt8 → Nat
  | [] => 0
  | b :: bytes => b.toNat + 256 * leValue bytes

/-- The number a byte string is, most significant byte first. -/
def beValue (bytes : List UInt8) : Nat := leValue bytes.reverse

/-- A number in so many bytes, least significant first. -/
def leBytes : Nat → Nat → List UInt8
  | 0, _ => []
  | width + 1, n => UInt8.ofNat n :: leBytes width (n / 256)

/-- A number in so many bytes, most significant first. -/
def beBytes (width n : Nat) : List UInt8 := (leBytes width n).reverse

/-- The bytes of a word of ASCII characters. -/
def ascii (word : String) : List UInt8 := word.toList.map fun c => UInt8.ofNat c.toNat

-- ============================================================ the lemmas

/-- A number is written in exactly the bytes of its field. -/
@[simp]
theorem length_leBytes (width n : Nat) : (leBytes width n).length = width := by
  induction width generalizing n with
  | zero => rfl
  | succ width ih => rw [leBytes, List.length_cons, ih]

@[simp]
theorem length_beBytes (width n : Nat) : (beBytes width n).length = width := by
  rw [beBytes, List.length_reverse, length_leBytes]

/-- An ASCII word takes one byte for each character. -/
@[simp]
theorem length_ascii (word : String) : (ascii word).length = word.length := by
  rw [ascii, List.length_map, String.length_toList]

/-- A number that fits its field is read back. -/
theorem leValue_leBytes {width n : Nat} (h : n < 256 ^ width) :
    leValue (leBytes width n) = n := by
  induction width generalizing n with
  | zero =>
      rw [pow_zero, Nat.lt_one_iff] at h
      exact h.symm
  | succ width ih =>
      rw [pow_succ, Nat.mul_comm] at h
      rw [leBytes, leValue, ih (Nat.div_lt_of_lt_mul h), UInt8.toNat_ofNat']
      exact Nat.mod_add_div n 256

theorem beValue_beBytes {width n : Nat} (h : n < 256 ^ width) :
    beValue (beBytes width n) = n := by
  rw [beValue, beBytes, List.reverse_reverse, leValue_leBytes h]

/-- The later bytes are the more significant ones. -/
theorem leValue_append (a b : List UInt8) :
    leValue (a ++ b) = leValue a + 256 ^ a.length * leValue b := by
  induction a with
  | nil => simp [leValue]
  | cons x a ih =>
      rw [List.cons_append, leValue, ih, leValue, List.length_cons, pow_succ]
      ring

/-- The earlier bytes are the more significant ones. -/
theorem beValue_append (a b : List UInt8) :
    beValue (a ++ b) = beValue a * 256 ^ b.length + beValue b := by
  rw [beValue, List.reverse_append, leValue_append, List.length_reverse]
  unfold beValue
  ring

end FastRep.Format
