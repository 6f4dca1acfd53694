/-
The readers of the inspector, in terms of the bytes from an offset on.

The code reads a number at an offset by shifts, with zero for what lies past
the end. Here this is the value of a field (`readUint32Le_field` and its
like): where a file is known as bytes before, the field, and bytes behind, the
reader gets what was written. A word at an offset is found the same way
(`asciiAt_append`), and a search finds the first place of a word
(`findAscii_eq_some_iff`).

A range of a file shows what the file shows, as far as it goes
(`byteAt_take`, `asciiAt_take`).
-/
import FastRep.Reports.Inspector
import FastRep.Format.Bytes

namespace FastRep.Reports

open FastRep.Format

variable {bytes rest : Bytes} {offset : Nat}

/-- A byte of the rest of a file. -/
theorem byteAt_add (i : Nat) : byteAt bytes (offset + i) = byteAt (bytes.drop offset) i := by
  simp only [byteAt, List.getD_eq_getElem?_getD, List.getElem?_drop]

theorem byteAt_cons_zero (b : UInt8) : byteAt (b :: rest) 0 = b.toNat := rfl

theorem byteAt_cons_succ (b : UInt8) (i : Nat) : byteAt (b :: rest) (i + 1) = byteAt rest i := rfl

theorem byteAt_nil (i : Nat) : byteAt [] i = 0 := rfl

/-- The bytes past the end count as zero, and a zero at the end is not seen. -/
theorem readUint32Le_eq : readUint32Le bytes offset = leValue ((bytes.drop offset).take 4) := by
  have hzero : ∀ l : Bytes, byteAt l 0 + byteAt l 1 * 256
      + (byteAt l 2 + byteAt l 3 * 256) * 65536 = leValue (l.take 4) := by
    intro l
    rcases l with _ | ⟨a, _ | ⟨b, _ | ⟨c, _ | ⟨d, l⟩⟩⟩⟩ <;>
      simp only [byteAt_cons_zero, byteAt_cons_succ, byteAt_nil, List.take_succ_cons,
        List.take_zero, List.take_nil, leValue] <;> omega
  rw [← hzero, ← byteAt_add, ← byteAt_add, ← byteAt_add, ← byteAt_add]
  simp only [readUint32Le, readUint16Le, Nat.add_zero, Nat.add_assoc]

/-- Two bytes are read as a number, the more significant one last. -/
theorem readUint16Le_eq : readUint16Le bytes offset = leValue ((bytes.drop offset).take 2) := by
  have hzero : ∀ l : Bytes, byteAt l 0 + byteAt l 1 * 256 = leValue (l.take 2) := by
    intro l
    rcases l with _ | ⟨a, _ | ⟨b, l⟩⟩
    · rfl
    · simp only [byteAt_cons_zero, byteAt_cons_succ, byteAt_nil, List.take_succ_cons,
        List.take_nil, leValue, Nat.zero_mul, Nat.mul_zero]
    · simp only [byteAt_cons_zero, byteAt_cons_succ, List.take_succ_cons, List.take_zero, leValue]
      omega
  rw [← hzero, ← byteAt_add, ← byteAt_add]
  rfl

theorem readUint24Le_eq : readUint24Le bytes offset = leValue ((bytes.drop offset).take 3) := by
  have hzero : ∀ l : Bytes, byteAt l 0 + byteAt l 1 * 256 + byteAt l 2 * 65536
      = leValue (l.take 3) := by
    intro l
    rcases l with _ | ⟨a, _ | ⟨b, _ | ⟨c, l⟩⟩⟩ <;>
      simp only [byteAt_cons_zero, byteAt_cons_succ, byteAt_nil, List.take_succ_cons,
        List.take_zero, List.take_nil, leValue] <;> omega
  rw [← hzero, ← byteAt_add, ← byteAt_add, ← byteAt_add]
  rfl

/-- Two bytes are read as a number, the more significant one first. -/
theorem readUint16Be_eq (h : offset + 2 ≤ bytes.length) :
    readUint16Be bytes offset = beValue ((bytes.drop offset).take 2) := by
  have hlen : 2 ≤ (bytes.drop offset).length := by
    rw [List.length_drop]
    omega
  rw [readUint16Be, show offset = offset + 0 from rfl, byteAt_add 0, byteAt_add 1]
  generalize bytes.drop (offset + 0) = l at hlen
  rcases l with _ | ⟨a, _ | ⟨b, l⟩⟩
  · simp at hlen
  · simp at hlen
  · simp [byteAt_cons_zero, byteAt_cons_succ, beValue, leValue]
    omega

theorem readUint32Be_eq (h : offset + 4 ≤ bytes.length) :
    readUint32Be bytes offset = beValue ((bytes.drop offset).take 4) := by
  have hsplit : (bytes.drop offset).take 4
      = (bytes.drop offset).take 2 ++ (bytes.drop (offset + 2)).take 2 := by
    rw [← List.drop_drop, ← List.take_add]
  have hlen : ((bytes.drop (offset + 2)).take 2).length = 2 := by
    rw [List.length_take, List.length_drop]
    omega
  rw [readUint32Be, readUint16Be_eq (by omega), readUint16Be_eq (by omega), hsplit,
    beValue_append, hlen]
  rfl

-- ============================================================ the fields

section Fields

variable {before : Bytes} {width n : Nat}

/-- A number at an offset. -/
theorem take_leBytes (h : bytes = before ++ (leBytes width n ++ rest))
    (hoffset : before.length = offset) : (bytes.drop offset).take width = leBytes width n := by
  rw [h, ← hoffset, List.drop_left, List.take_left' (length_leBytes width n)]

/-- A field that stands somewhere is cut out there. -/
theorem take_beBytes (h : bytes = before ++ (beBytes width n ++ rest))
    (hoffset : before.length = offset) : (bytes.drop offset).take width = beBytes width n := by
  rw [h, ← hoffset, List.drop_left, List.take_left' (length_beBytes width n)]

/-- A number that stands somewhere is read there. -/
theorem readUint16Le_field (h : bytes = before ++ (leBytes 2 n ++ rest))
    (hoffset : before.length = offset) (hn : n < 256 ^ 2) : readUint16Le bytes offset = n := by
  rw [readUint16Le_eq, take_leBytes h hoffset, leValue_leBytes hn]

theorem readUint24Le_field (h : bytes = before ++ (leBytes 3 n ++ rest))
    (hoffset : before.length = offset) (hn : n < 256 ^ 3) : readUint24Le bytes offset = n := by
  rw [readUint24Le_eq, take_leBytes h hoffset, leValue_leBytes hn]

theorem readUint32Le_field (h : bytes = before ++ (leBytes 4 n ++ rest))
    (hoffset : before.length = offset) (hn : n < 256 ^ 4) : readUint32Le bytes offset = n := by
  rw [readUint32Le_eq, take_leBytes h hoffset, leValue_leBytes hn]

theorem readUint32Be_field (h : bytes = before ++ (beBytes 4 n ++ rest))
    (hoffset : before.length = offset) (hn : n < 256 ^ 4) : readUint32Be bytes offset = n := by
  have hlen : offset + 4 ≤ bytes.length := by
    rw [h, List.length_append, List.length_append, length_beBytes, hoffset]
    omega
  rw [readUint32Be_eq hlen, take_beBytes h hoffset, beValue_beBytes hn]

end Fields

-- ============================================================== the words

/-- The characters of the word fit into bytes. -/
def narrow (word : String) : Bool := word.toList.all fun c => c.toNat < 256

/-- The bytes of a word of narrow characters. -/
theorem asciiBytes_eq {word : String} (h : narrow word = true) :
    asciiBytes word = (ascii word).map UInt8.toNat := by
  simp only [asciiBytes, ascii, List.map_map]
  refine List.map_congr_left fun c hc => ?_
  have hlt := of_decide_eq_true (List.all_eq_true.mp h c hc)
  rw [Function.comp_apply, UInt8.toNat_ofNat', Nat.mod_eq_of_lt hlt]

theorem asciiAt_iff {word : String} (h : narrow word = true) :
    asciiAt bytes offset word = true ↔ (bytes.drop offset).take word.length = ascii word := by
  rw [asciiAt, decide_eq_true_iff, asciiBytes_eq h]
  exact ⟨fun hmap => List.map_injective_iff.mpr (fun _ _ => UInt8.toNat_inj.mp) hmap,
    congrArg _⟩

/-- A word at an offset. -/
theorem asciiAt_append {word : String} (h : narrow word = true) {before : Bytes}
    (hbytes : bytes = before ++ (ascii word ++ rest)) (hoffset : before.length = offset) :
    asciiAt bytes offset word = true := by
  rw [asciiAt_iff h, hbytes, ← hoffset, List.drop_left, ← length_ascii word, List.take_left]

/-- Bytes that start otherwise than a word. -/
theorem asciiAt_eq_false {b c : UInt8} {word : String} (hnarrow : narrow word = true)
    (hword : (ascii word).head? = some c) (hne : b ≠ c) :
    asciiAt (b :: rest) 0 word = false := by
  rw [Bool.eq_false_iff, ne_eq, asciiAt_iff hnarrow]
  intro h
  rw [← h, List.drop_zero] at hword
  cases hlen : word.length with
  | zero =>
      rw [hlen, List.take_zero] at hword
      cases hword
  | succ k =>
      rw [hlen, List.take_succ_cons, List.head?_cons] at hword
      exact hne (Option.some.inj hword)

/-- Bytes that start otherwise than a signature. -/
theorem hasPrefix_eq_false {b : UInt8} {first : Nat} {pre : List Nat} (h : b.toNat ≠ first) :
    hasPrefix (b :: rest) (first :: pre) = false := by
  simp [hasPrefix, h]

-- ============================================================== the search

variable {before : Bytes} {word : String} {i k : Nat}

/-- A word has as many bytes as characters. -/
theorem length_asciiBytes (word : String) : (asciiBytes word).length = word.length := by
  rw [asciiBytes, List.length_map, String.length_toList]

/-- A word lies within the bytes. -/
theorem le_length_of_asciiAt (hword : word.length ≠ 0) (h : asciiAt bytes i word = true) :
    i + word.length ≤ bytes.length := by
  have hlen := congrArg List.length (of_decide_eq_true h)
  rw [List.length_map, List.length_take, List.length_drop, length_asciiBytes] at hlen
  omega

/-- A word that is found is the first there is. -/
theorem findAscii_eq_some_iff (hword : word.length ≠ 0) :
    findAscii word bytes = some k
      ↔ asciiAt bytes k word = true ∧ ∀ i < k, asciiAt bytes i word = false := by
  induction bytes generalizing k with
  | nil =>
      refine iff_of_false (by simp [findAscii]) fun h => ?_
      have := le_length_of_asciiAt hword h.1
      rw [List.length_nil] at this
      omega
  | cons b bytes ih =>
      rw [findAscii]
      by_cases h0 : asciiAt (b :: bytes) 0 word = true
      · rw [if_pos h0, Option.some.injEq]
        constructor
        · rintro rfl
          exact ⟨h0, by simp⟩
        · rintro ⟨-, hfirst⟩
          by_contra hk
          exact absurd h0 (by rw [hfirst 0 (Nat.pos_of_ne_zero (Ne.symm hk))]; simp)
      · rw [if_neg h0, Option.map_eq_some_iff]
        constructor
        · rintro ⟨j, hj, rfl⟩
          obtain ⟨hat, hfirst⟩ := ih.mp hj
          refine ⟨hat, fun i hi => ?_⟩
          cases i with
          | zero => exact Bool.eq_false_iff.mpr h0
          | succ i => exact hfirst i (Nat.lt_of_succ_lt_succ hi)
        · rintro ⟨hat, hfirst⟩
          cases k with
          | zero => exact absurd hat h0
          | succ k =>
              exact ⟨k, ih.mpr ⟨hat, fun i hi => hfirst (i + 1) (Nat.succ_lt_succ hi)⟩, rfl⟩

/-- A word is found where it is. -/
theorem exists_findAscii (hword : word.length ≠ 0) (h : asciiAt bytes i word = true) :
    ∃ k ≤ i, findAscii word bytes = some k := by
  classical
  have hex : ∃ j, asciiAt bytes j word = true := ⟨i, h⟩
  refine ⟨Nat.find hex, Nat.find_min' hex h, (findAscii_eq_some_iff hword).mpr
    ⟨Nat.find_spec hex, fun j hj => ?_⟩⟩
  exact Bool.eq_false_iff.mpr (Nat.find_min hex hj)

/-- A word within a beginning stands there in the whole. -/
theorem asciiAt_append_left (h : i + word.length ≤ before.length) :
    asciiAt (before ++ rest) i word = asciiAt before i word := by
  rw [asciiAt, asciiAt, List.drop_append_of_le_length (by omega),
    List.take_append_of_le_length (by rw [List.length_drop]; omega)]

/-- What is found does not depend on what follows it. -/
theorem findAscii_append (hword : word.length ≠ 0) (h : findAscii word before = some k) :
    findAscii word (before ++ rest) = some k := by
  obtain ⟨hat, hfirst⟩ := (findAscii_eq_some_iff hword).mp h
  have hlen := le_length_of_asciiAt hword hat
  refine (findAscii_eq_some_iff hword).mpr ⟨?_, fun i hi => ?_⟩
  · rw [asciiAt_append_left hlen, hat]
  · rw [asciiAt_append_left (by omega), hfirst i hi]

theorem asciiAt_of_infix (hnarrow : narrow word = true) (h : ascii word <:+: bytes) :
    ∃ i, asciiAt bytes i word = true := by
  obtain ⟨l, r, rfl⟩ := h
  exact ⟨l.length, asciiAt_append hnarrow (List.append_assoc l _ r) rfl⟩

theorem infix_of_asciiAt (hnarrow : narrow word = true) (h : asciiAt bytes i word = true) :
    ascii word <:+: bytes := by
  rw [asciiAt_iff hnarrow] at h
  rw [← h]
  exact (List.take_prefix _ _).isInfix.trans (List.drop_suffix _ _).isInfix

-- ========================================================= the first bytes

section Take

variable {n : Nat}

/-- A prefix is seen in a range that contains it. -/
theorem hasPrefix_take {pre : List Nat} (h : pre.length ≤ n) :
    hasPrefix (bytes.take n) pre = hasPrefix bytes pre := by
  rw [hasPrefix, hasPrefix, List.take_take, Nat.min_eq_left h]

theorem asciiAt_take {word : String} (h : offset + word.length ≤ n) :
    asciiAt (bytes.take n) offset word = asciiAt bytes offset word := by
  rw [asciiAt, asciiAt, List.drop_take, List.take_take, Nat.min_eq_left (by omega)]

theorem byteAt_take (h : offset < n) : byteAt (bytes.take n) offset = byteAt bytes offset := by
  simp only [byteAt, List.getD_eq_getElem?_getD, List.getElem?_take, if_pos h]

end Take

end FastRep.Reports
