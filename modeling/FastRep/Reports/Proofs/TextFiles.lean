/-
Which text files the confirmation of an upload accepts.

# The decoder

A character is encoded in one to four bytes, and the decoder reads exactly
what was written, whatever follows (`decodeUtf8_utf8`). Some bytes of a
character are not decoded (`decodeUtf8_partial`). So the first bytes of a text
are a text exactly where they end at a character (`decodeUtf8_take`), and the
inspector, which reads a range of the file, rejects a text that its range
cuts through a character.

# The type

A text in which every line that is not blank has a comma is taken for CSV,
and for nothing else (`inspectText_take`); the verdict compares this with what
was declared. The text is not the only thing that is asked: a file that begins
like one of the other formats is not looked at as a text
(`binarySignature`).

# The result

`text_upload_ready` says for each declared type which files become READY;
`text_upload_refused` has a letter across the end of the range, and a greeting
with a comma.
-/
import FastRep.Reports.Proofs.Confirming
import FastRep.Reports.Proofs.Readers
import FastRep.Format.Utf8

namespace FastRep.Reports

open FastRep.Format FastRep.Txn

variable {rest q : Bytes} {text : List Char}

-- ============================================================ the decoder

alias decodeUtf8_eq := decodeUtf8.eq_def

theorem decodeUtf8_nil : decodeUtf8 [] = some [] := rfl

/-- A byte of ASCII is a character. -/
theorem decodeUtf8_one {a : UInt8} (ha : a.toNat < 0x80) :
    decodeUtf8 (a :: rest) = (decodeUtf8 rest).map (a.toNat :: ·) := by
  rw [decodeUtf8_eq]
  simp only [ha, if_true]

/-- Two bytes that belong together are one. -/
theorem decodeUtf8_two {a b : UInt8} (ha : 0xc2 ≤ a.toNat ∧ a.toNat ≤ 0xdf)
    (hb : continues 0x80 0xbf b = true) :
    decodeUtf8 (a :: b :: rest) = (decodeUtf8 rest).map
      (((a.toNat - 0xc0) * 64 + (b.toNat - 0x80)) :: ·) := by
  have h1 : ¬ a.toNat < 0x80 := by omega
  rw [decodeUtf8_eq]
  simp only [h1, ha, hb, and_self, if_true, if_false]

theorem decodeUtf8_three {a b c : UInt8} (ha : 0xe0 ≤ a.toNat ∧ a.toNat ≤ 0xef)
    (hb : continues (if a.toNat = 0xe0 then 0xa0 else 0x80)
      (if a.toNat = 0xed then 0x9f else 0xbf) b = true) (hc : continues 0x80 0xbf c = true) :
    decodeUtf8 (a :: b :: c :: rest) = (decodeUtf8 rest).map
      (((a.toNat - 0xe0) * 4096 + (b.toNat - 0x80) * 64 + (c.toNat - 0x80)) :: ·) := by
  have h1 : ¬ a.toNat < 0x80 := by omega
  have h2 : ¬ (0xc2 ≤ a.toNat ∧ a.toNat ≤ 0xdf) := by omega
  rw [decodeUtf8_eq]
  simp only [h1, h2, ha, hb, hc, and_self, Bool.and_self, if_true, if_false]

theorem decodeUtf8_four {a b c d : UInt8} (ha : 0xf0 ≤ a.toNat ∧ a.toNat ≤ 0xf4)
    (hb : continues (if a.toNat = 0xf0 then 0x90 else 0x80)
      (if a.toNat = 0xf4 then 0x8f else 0xbf) b = true) (hc : continues 0x80 0xbf c = true)
    (hd : continues 0x80 0xbf d = true) :
    decodeUtf8 (a :: b :: c :: d :: rest) = (decodeUtf8 rest).map
      (((a.toNat - 0xf0) * 262144 + (b.toNat - 0x80) * 4096 + (c.toNat - 0x80) * 64
        + (d.toNat - 0x80)) :: ·) := by
  have h1 : ¬ a.toNat < 0x80 := by omega
  have h2 : ¬ (0xc2 ≤ a.toNat ∧ a.toNat ≤ 0xdf) := by omega
  have h3 : ¬ (0xe0 ≤ a.toNat ∧ a.toNat ≤ 0xef) := by omega
  rw [decodeUtf8_eq]
  simp only [h1, h2, h3, ha, hb, hc, hd, and_self, Bool.and_self, if_true, if_false]

/-- A byte within its range goes on. -/
theorem continues_ofNat {low high n : Nat} (hlow : low ≤ n) (hhigh : n ≤ high) (hn : n < 256) :
    continues low high (UInt8.ofNat n) = true := by
  rw [continues, UInt8.toNat_ofNat', Nat.mod_eq_of_lt hn]
  simp [hlow, hhigh]

/-- A byte is the number it was made from. -/
theorem toNat_ofNat_of_lt {n : Nat} (h : n < 256) : (UInt8.ofNat n).toNat = n := by
  rw [UInt8.toNat_ofNat', Nat.mod_eq_of_lt h]

/-- The bytes of a character, by its code point. -/
def encoding (n : Nat) : Bytes :=
  if n ≤ 0x7f then [UInt8.ofNat n]
  else if n ≤ 0x7ff then [UInt8.ofNat (n / 64 % 0x20 + 0xc0), UInt8.ofNat (n % 0x40 + 0x80)]
  else if n ≤ 0xffff then
    [UInt8.ofNat (n / 4096 % 0x10 + 0xe0), UInt8.ofNat (n / 64 % 0x40 + 0x80),
      UInt8.ofNat (n % 0x40 + 0x80)]
  else
    [UInt8.ofNat (n / 262144 % 0x08 + 0xf0), UInt8.ofNat (n / 4096 % 0x40 + 0x80),
      UInt8.ofNat (n / 64 % 0x40 + 0x80), UInt8.ofNat (n % 0x40 + 0x80)]

/-- A character is encoded as its code point. -/
theorem utf8EncodeChar_eq (c : Char) : String.utf8EncodeChar c = encoding c.toNat := rfl

/-- An encoded code point is read back. -/
theorem decodeUtf8_encoding {n : Nat} (hvalid : n < 0xd800 ∨ 0xdfff < n ∧ n < 0x110000) :
    decodeUtf8 (encoding n ++ rest) = (decodeUtf8 rest).map (n :: ·) := by
  unfold encoding
  split
  next h1 =>
      rw [List.singleton_append, decodeUtf8_one] <;> rw [toNat_ofNat_of_lt (by omega)]
      omega
  next h1 =>
      split
      next h2 =>
          have ha := toNat_ofNat_of_lt (n := n / 64 % 0x20 + 0xc0) (by omega)
          have hb := toNat_ofNat_of_lt (n := n % 0x40 + 0x80) (by omega)
          rw [List.cons_append, List.singleton_append,
            decodeUtf8_two (by omega) (continues_ofNat (by omega) (by omega) (by omega)), ha, hb]
          have hvalue : (n / 64 % 0x20 + 0xc0 - 0xc0) * 64 + (n % 0x40 + 0x80 - 0x80) = n := by
            omega
          rw [hvalue]
      next h2 =>
          split
          next h3 =>
              have ha := toNat_ofNat_of_lt (n := n / 4096 % 0x10 + 0xe0) (by omega)
              have hb := toNat_ofNat_of_lt (n := n / 64 % 0x40 + 0x80) (by omega)
              have hc := toNat_ofNat_of_lt (n := n % 0x40 + 0x80) (by omega)
              have hsecond : continues (if n / 4096 % 0x10 + 0xe0 = 0xe0 then 0xa0 else 0x80)
                  (if n / 4096 % 0x10 + 0xe0 = 0xed then 0x9f else 0xbf)
                  (UInt8.ofNat (n / 64 % 0x40 + 0x80)) = true :=
                continues_ofNat (by split <;> omega) (by split <;> omega) (by omega)
              rw [List.cons_append, List.cons_append, List.singleton_append,
                decodeUtf8_three (by omega) (by rw [ha]; exact hsecond)
                  (continues_ofNat (by omega) (by omega) (by omega)), ha, hb, hc]
              have hvalue : (n / 4096 % 0x10 + 0xe0 - 0xe0) * 4096
                  + (n / 64 % 0x40 + 0x80 - 0x80) * 64 + (n % 0x40 + 0x80 - 0x80) = n := by
                omega
              rw [hvalue]
          next h3 =>
              have ha := toNat_ofNat_of_lt (n := n / 262144 % 0x08 + 0xf0) (by omega)
              have hb := toNat_ofNat_of_lt (n := n / 4096 % 0x40 + 0x80) (by omega)
              have hc := toNat_ofNat_of_lt (n := n / 64 % 0x40 + 0x80) (by omega)
              have hd := toNat_ofNat_of_lt (n := n % 0x40 + 0x80) (by omega)
              have hsecond : continues (if n / 262144 % 0x08 + 0xf0 = 0xf0 then 0x90 else 0x80)
                  (if n / 262144 % 0x08 + 0xf0 = 0xf4 then 0x8f else 0xbf)
                  (UInt8.ofNat (n / 4096 % 0x40 + 0x80)) = true :=
                continues_ofNat (by split <;> omega) (by split <;> omega) (by omega)
              rw [List.cons_append, List.cons_append, List.cons_append, List.singleton_append,
                decodeUtf8_four (by omega) (by rw [ha]; exact hsecond)
                  (continues_ofNat (by omega) (by omega) (by omega))
                  (continues_ofNat (by omega) (by omega) (by omega)), ha, hb, hc, hd]
              have hvalue : (n / 262144 % 0x08 + 0xf0 - 0xf0) * 262144
                  + (n / 4096 % 0x40 + 0x80 - 0x80) * 4096 + (n / 64 % 0x40 + 0x80 - 0x80) * 64
                  + (n % 0x40 + 0x80 - 0x80) = n := by omega
              rw [hvalue]

/-- A character is decoded, whatever follows it. -/
theorem decodeUtf8_encodeChar (c : Char) :
    decodeUtf8 (String.utf8EncodeChar c ++ rest) = (decodeUtf8 rest).map (c.toNat :: ·) :=
  decodeUtf8_encoding c.valid

/-- A byte that is not ASCII does not end a text. -/
theorem decodeUtf8_short_one {a : UInt8} (ha : 0x80 ≤ a.toNat) : decodeUtf8 [a] = none := by
  rw [decodeUtf8_eq]
  simp only [if_neg (Nat.not_lt.mpr ha)]
  split_ifs <;> rfl

theorem decodeUtf8_short_two {a b : UInt8} (ha : 0xe0 ≤ a.toNat) :
    decodeUtf8 [a, b] = none := by
  rw [decodeUtf8_eq]
  simp only
  rw [if_neg (by omega), if_neg (by omega)]
  split_ifs <;> rfl

theorem decodeUtf8_short_three {a b c : UInt8} (ha : 0xf0 ≤ a.toNat) :
    decodeUtf8 [a, b, c] = none := by
  rw [decodeUtf8_eq]
  simp only
  rw [if_neg (by omega), if_neg (by omega), if_neg (by omega)]
  split_ifs <;> rfl

/-- Some bytes of a character are not decoded. -/
theorem decodeUtf8_partial (h : Partial q) : decodeUtf8 q = none := by
  obtain ⟨hne, c, k, hk, rfl⟩ := h
  rw [utf8EncodeChar_eq] at hne hk ⊢
  generalize c.toNat = n at hne hk
  have hpos : k ≠ 0 := by
    rintro rfl
    exact hne List.take_zero
  unfold encoding at hk ⊢
  split at hk
  next h1 =>
      rw [List.length_singleton] at hk
      omega
  next h1 =>
      rw [if_neg h1]
      split at hk
      next h2 =>
          rw [if_pos h2]
          obtain rfl : k = 1 := by
            simp only [List.length_cons, List.length_nil] at hk
            omega
          exact decodeUtf8_short_one (by rw [toNat_ofNat_of_lt (by omega)]; omega)
      next h2 =>
          rw [if_neg h2]
          split at hk
          next h3 =>
              rw [if_pos h3]
              obtain rfl | rfl : k = 1 ∨ k = 2 := by
                simp only [List.length_cons, List.length_nil] at hk
                omega
              · exact decodeUtf8_short_one (by rw [toNat_ofNat_of_lt (by omega)]; omega)
              · exact decodeUtf8_short_two (by rw [toNat_ofNat_of_lt (by omega)]; omega)
          next h3 =>
              rw [if_neg h3]
              obtain rfl | rfl | rfl : k = 1 ∨ k = 2 ∨ k = 3 := by
                simp only [List.length_cons, List.length_nil] at hk
                omega
              · exact decodeUtf8_short_one (by rw [toNat_ofNat_of_lt (by omega)]; omega)
              · exact decodeUtf8_short_two (by rw [toNat_ofNat_of_lt (by omega)]; omega)
              · exact decodeUtf8_short_three (by rw [toNat_ofNat_of_lt (by omega)]; omega)

/-- A text is decoded, whatever follows it. -/
theorem decodeUtf8_utf8 (text : List Char) :
    decodeUtf8 (utf8 text ++ q) = (decodeUtf8 q).map (text.map Char.toNat ++ ·) := by
  induction text with
  | nil => simp
  | cons c text ih =>
      rw [utf8_cons, List.append_assoc, decodeUtf8_encodeChar, ih, Option.map_map]
      rfl

/-- The first bytes of a text are decoded when they end at a character. -/
theorem decodeUtf8_take (text : List Char) (n : Nat) :
    (∃ pre, Cut text pre n ∧ decodeUtf8 ((utf8 text).take n) = some (pre.map Char.toNat))
      ∨ (¬ ∃ pre, Cut text pre n) ∧ decodeUtf8 ((utf8 text).take n) = none := by
  have hdecode : ∀ pre, Cut text pre n →
      decodeUtf8 ((utf8 text).take n) = some (pre.map Char.toNat) := by
    rintro pre ⟨-, hpre⟩
    rw [hpre, ← List.append_nil (utf8 pre), decodeUtf8_utf8]
    simp [decodeUtf8_nil]
  obtain ⟨pre, post, q, htext, htake, rfl | hq⟩ := take_utf8 text n
  · rw [List.append_nil] at htake
    exact .inl ⟨pre, ⟨⟨post, htext⟩, htake⟩, hdecode pre ⟨⟨post, htext⟩, htake⟩⟩
  · have hnone : decodeUtf8 ((utf8 text).take n) = none := by
      rw [htake, decodeUtf8_utf8, decodeUtf8_partial hq, Option.map_none]
    refine .inr ⟨?_, hnone⟩
    rintro ⟨pre', hcut⟩
    rw [hdecode pre' hcut] at hnone
    cases hnone

theorem toNat_map_injective : Function.Injective (List.map Char.toNat) :=
  List.map_injective_iff.mpr (Function.LeftInverse.injective Char.ofNat_toNat)

/-- A text is cut at one place. -/
theorem cut_unique {pre pre' : List Char} {n : Nat} (h : Cut text pre n) (h' : Cut text pre' n) :
    pre = pre' := by
  have hpre := decodeUtf8_utf8 (q := []) pre
  rw [List.append_nil, ← h.2, h'.2, ← List.append_nil (utf8 pre'), decodeUtf8_utf8] at hpre
  simp only [decodeUtf8_nil, Option.map_some, List.append_nil, Option.some.injEq] at hpre
  exact (toNat_map_injective hpre).symm

-- =============================================================== the text

/-- A text file: valid UTF-8, not empty, no control character below a blank but
tab, LF and CR. -/
structure TextFile where
  text : List Char
  nonempty : text ≠ []
  printable : ∀ c ∈ text, 32 ≤ c.toNat ∨ c.toNat ∈ [9, 10, 13]

def TextFile.bytes (file : TextFile) : Bytes := utf8 file.text

/-- The lines of a text that are not blank. -/
def nonEmptyLines (text : List Char) : List (List Nat) :=
  ((splitLines [] (withoutBom (text.map Char.toNat))).map (trimList isSpace)).filter (· ≠ [])

/-- Every line has a comma in it, but for the blank ones. -/
def CommaInEvery (text : List Char) : Prop := ∀ line ∈ nonEmptyLines text, 44 ∈ line

instance (text : List Char) : Decidable (CommaInEvery text) :=
  inferInstanceAs (Decidable (∀ line ∈ nonEmptyLines text, 44 ∈ line))

/-- Only the character zero has a byte zero. -/
theorem ne_zero_of_mem_encoding {n : Nat} (h : n ≠ 0) : ∀ b ∈ encoding n, b ≠ 0 := by
  have hbyte : ∀ m, m ≠ 0 → m < 256 → UInt8.ofNat m ≠ 0 := by
    intro m hm hlt h0
    have := congrArg UInt8.toNat h0
    rw [toNat_ofNat_of_lt hlt] at this
    exact hm this
  unfold encoding
  split_ifs <;> simp only [List.forall_mem_cons, List.not_mem_nil, false_imp_iff, implies_true,
    and_true] <;> (try and_intros) <;> exact hbyte _ (by omega) (by omega)

namespace TextFile

variable (file : TextFile) {pre : List Char} {n : Nat}

theorem ne_zero_of_mem : ∀ b ∈ file.bytes, b ≠ 0 := by
  intro b hb
  obtain ⟨c, hc, hmem⟩ := List.mem_flatMap.mp hb
  have hne : c.toNat ≠ 0 := by
    rcases file.printable c hc with h | h
    · exact Nat.ne_zero_of_lt h
    · rintro h0
      rw [h0] at h
      simp at h
  exact ne_zero_of_mem_encoding hne b hmem

/-- Without its mark the text has no other characters. -/
theorem mem_withoutBom {l : List Nat} {c : Nat} (h : c ∈ withoutBom l) : c ∈ l := by
  unfold withoutBom at h
  split at h
  next => exact List.mem_cons_of_mem _ h
  next => exact h

/-- What the inspection of the first bytes says. -/
theorem inspectText_take (hn : n ≠ 0) (hcut : Cut file.text pre n) :
    inspectText (file.bytes.take n) = some ⟨if nonEmptyLines pre ≠ [] ∧ CommaInEvery pre
      then "text/csv" else "text/plain", .document, none, none, none⟩ := by
  obtain ⟨⟨post, htext⟩, htake⟩ := hcut
  have hne : (file.bytes.take n).isEmpty = false := by
    have hlen := length_le_utf8 file.text
    have hpos := List.length_pos_iff.mpr file.nonempty
    rw [List.isEmpty_eq_false_iff, ← List.length_pos_iff, List.length_take, bytes]
    omega
  have hzero : (file.bytes.take n).contains 0 = false := by
    rw [List.contains_eq_mem, decide_eq_false_iff_not]
    exact fun h => file.ne_zero_of_mem 0 (List.mem_of_mem_take h) rfl
  have hdecode : decodeUtf8 (file.bytes.take n) = some (pre.map Char.toNat) := by
    have := decodeUtf8_utf8 (q := []) pre
    rw [List.append_nil, ← htake] at this
    exact this.trans (by simp [decodeUtf8])
  have hclean : ((withoutBom (pre.map Char.toNat)).any fun c =>
      decide (c < 32) && !([9, 10, 13].contains c)) = false := by
    rw [List.any_eq_false]
    intro c hc
    obtain ⟨a, ha, rfl⟩ := List.mem_map.mp (mem_withoutBom hc)
    have hmem : a ∈ file.text := htext ▸ List.mem_append_left _ ha
    rcases file.printable a hmem with h | h
    · simp
      omega
    · simp only [List.contains_eq_mem, h]
      simp
  rw [inspectText, hne, hzero]
  simp only [Bool.or_false, Bool.false_eq_true, if_false, hdecode, hclean]
  rfl

/-- Without a cut at a character the inspection fails. -/
theorem inspectText_take_none (hcut : ¬ ∃ pre, Cut file.text pre n) :
    inspectText (file.bytes.take n) = none := by
  rcases decodeUtf8_take file.text n with ⟨pre, hpre, -⟩ | ⟨-, hnone⟩
  · exact absurd ⟨pre, hpre⟩ hcut
  · rw [inspectText, bytes, hnone]
    split <;> rfl

end TextFile

-- ============================================================= the upload

/-- The signatures that are tested before the text. -/
def binarySignature (bytes : Bytes) : Bool :=
  hasPrefix bytes [0xff, 0xd8, 0xff]
    || hasPrefix bytes [0x89, 0x50, 0x4e, 0x47, 0x0d, 0x0a, 0x1a, 0x0a]
    || asciiAt bytes 0 "RIFF" && asciiAt bytes 8 "WEBP"
    || asciiAt bytes 0 "RIFF" && asciiAt bytes 8 "WAVE"
    || isMp3 bytes
    || isM4a bytes
    || asciiAt bytes 0 "%PDF-"
    || hasPrefix bytes [0x50, 0x4b, 0x03, 0x04]
    || hasPrefix bytes [0x50, 0x4b, 0x05, 0x06]

/-- What starts as no other format is inspected as a text. -/
theorem inspectAssetBytes_text {bytes : Bytes} {objectSize : Nat}
    (h : binarySignature bytes = false) :
    inspectAssetBytes bytes objectSize = inspectText bytes := by
  simp only [binarySignature, Bool.or_eq_false_iff] at h
  simp only [inspectAssetBytes, h, Bool.or_self, Bool.false_eq_true, if_false]

section Take

variable {bytes : Bytes} {n offset : Nat}

/-- A brand is seen in a range that contains it. -/
theorem audioBrandAt_take (h : offset + 4 ≤ n) :
    audioBrandAt (bytes.take n) offset = audioBrandAt bytes offset := by
  simp only [audioBrandAt, List.any_cons, List.any_nil]
  rw [asciiAt_take h, asciiAt_take h, asciiAt_take h]

/-- The first sixteen bytes tell whether it is an MP3 file. -/
theorem isMp3_take (hn : 16 ≤ n) : isMp3 (bytes.take n) = isMp3 bytes := by
  have hlen : (2 ≤ (bytes.take n).length) = (2 ≤ bytes.length) := by
    rw [List.length_take, eq_iff_iff]
    omega
  rw [isMp3, isMp3, asciiAt_take (Nat.le_trans (by decide) hn), byteAt_take (by omega),
    byteAt_take (by omega)]
  simp only [hlen]

/-- A brand in the first bytes is a brand of the file. -/
theorem isM4a_of_take (hn : 16 ≤ n) (h : isM4a (bytes.take n) = true) : isM4a bytes = true := by
  have hfirst : readUint32Be (bytes.take n) 0 = readUint32Be bytes 0 := by
    simp only [readUint32Be, readUint16Be]
    rw [byteAt_take (by omega), byteAt_take (by omega), byteAt_take (by omega),
      byteAt_take (by omega)]
  have hftyp : asciiAt (bytes.take n) 4 "ftyp" = asciiAt bytes 4 "ftyp" :=
    asciiAt_take (Nat.le_trans (by decide) hn)
  rw [isM4a, hfirst, hftyp, audioBrandAt_take (by omega), List.length_take] at h
  simp only [Bool.and_eq_true, decide_eq_true_eq, Bool.or_eq_true, List.any_eq_true,
    List.mem_range] at h
  rw [isM4a]
  simp only [Bool.and_eq_true, decide_eq_true_eq, Bool.or_eq_true, List.any_eq_true,
    List.mem_range]
  obtain ⟨⟨hlen, hname⟩, hbrand | ⟨i, hi, ⟨h16, hin⟩, hbrand⟩⟩ := h
  · exact ⟨⟨by omega, hname⟩, .inl hbrand⟩
  · rw [audioBrandAt_take (by omega)] at hbrand
    exact ⟨⟨by omega, hname⟩, .inr ⟨i, by omega, ⟨h16, by omega⟩, hbrand⟩⟩

/-- The first bytes show no signature that the file does not. -/
theorem binarySignature_take (hn : 16 ≤ n) (h : binarySignature bytes = false) :
    binarySignature (bytes.take n) = false := by
  have hword : ∀ {k : Nat} {word : String}, k + word.length ≤ 16 →
      asciiAt (bytes.take n) k word = asciiAt bytes k word := fun hk =>
    asciiAt_take (Nat.le_trans hk hn)
  have hm4a : isM4a bytes = false → isM4a (bytes.take n) = false := fun hfalse =>
    Bool.eq_false_iff.mpr fun htrue => Bool.eq_false_iff.mp hfalse (isM4a_of_take hn htrue)
  simp only [binarySignature, Bool.or_eq_false_iff] at h ⊢
  obtain ⟨⟨⟨⟨⟨⟨⟨⟨hjpeg, hpng⟩, hwebp⟩, hwave⟩, hmp3⟩, hm4⟩, hpdf⟩, hzip⟩, hempty⟩ := h
  rw [hasPrefix_take (Nat.le_trans (by decide) hn), hasPrefix_take (Nat.le_trans (by decide) hn),
    hasPrefix_take (Nat.le_trans (by decide) hn), hasPrefix_take (Nat.le_trans (by decide) hn),
    hword (by decide), hword (by decide), hword (by decide), hword (by decide), isMp3_take hn]
  exact ⟨⟨⟨⟨⟨⟨⟨⟨hjpeg, hpng⟩, hwebp⟩, hwave⟩, hmp3⟩, hm4a hm4⟩, hpdf⟩, hzip⟩, hempty⟩

end Take

section Upload

variable {cfg : Config} {v : Visit Call Choice} {i : Nat} {R : Rest Row Env} {userId : Id}
  {asset : ReportAsset} {file : TextFile}

/-- A text in a document is accepted when its type is the declared one. -/
theorem verdict_text (htype : asset.type = .document) {mimeType : String}
    (h : inspectAssetBytes (file.bytes.take inspectionRangeBytes) file.bytes.length
      = some ⟨mimeType, .document, none, none, none⟩) :
    (∃ inspection, verdict cfg asset file.bytes = .ok inspection)
      ↔ asset.declaredMimeType = mimeType := by
  rw [verdict, h, inspectionRejection]
  simp only [htype, ne_eq, not_true_eq_false, false_or, reduceCtorEq, false_and, if_false]
  split
  next hne => exact iff_of_false (by simp) hne
  next heq => exact iff_of_true ⟨_, rfl⟩ (Decidable.of_not_not heq)

/-- The text files that become READY: under text/plain, those whose first bytes
end at a character and are not lines with commas only; under text/csv, those
whose first bytes end at a character and are such lines, at least one. -/
theorem text_upload_ready (hsignature : binarySignature file.bytes = false)
    (h : Deposited cfg R userId asset file.bytes) (ht : Timely cfg v i asset)
    (htype : asset.type = .document) :
    (asset.declaredMimeType = "text/plain" → (BecomesReady cfg v i R userId asset
      ↔ ∃ pre, Cut file.text pre inspectionRangeBytes
        ∧ (nonEmptyLines pre = [] ∨ ¬ CommaInEvery pre))) ∧
    (asset.declaredMimeType = "text/csv" → (BecomesReady cfg v i R userId asset
      ↔ ∃ pre, Cut file.text pre inspectionRangeBytes
        ∧ nonEmptyLines pre ≠ [] ∧ CommaInEvery pre)) := by
  have hinspect : inspectAssetBytes (file.bytes.take inspectionRangeBytes) file.bytes.length
      = inspectText (file.bytes.take inspectionRangeBytes) :=
    inspectAssetBytes_text (binarySignature_take (by decide) hsignature)
  rw [becomesReady_iff h ht]
  by_cases hcut : ∃ pre, Cut file.text pre inspectionRangeBytes
  · obtain ⟨pre, hpre⟩ := hcut
    rw [file.inspectText_take (by decide) hpre] at hinspect
    rw [verdict_text htype hinspect]
    have honly : ∀ {p : List Char → Prop},
        (∃ pre', Cut file.text pre' inspectionRangeBytes ∧ p pre') ↔ p pre :=
      ⟨fun ⟨pre', hpre', hp⟩ => cut_unique hpre' hpre ▸ hp, fun hp => ⟨pre, hpre, hp⟩⟩
    rw [honly, honly]
    constructor
    · intro hmime
      rw [hmime]
      split
      next hcsv => exact iff_of_false (by decide) fun hor => hor.elim hcsv.1 fun hno => hno hcsv.2
      next hcsv =>
          refine iff_of_true rfl ?_
          rw [not_and_or, not_not] at hcsv
          exact hcsv
    · intro hmime
      rw [hmime]
      split
      next hcsv => exact iff_of_true rfl hcsv
      next hcsv => exact iff_of_false (by decide) hcsv
  · have hnone : ¬ ∃ inspection, verdict cfg asset file.bytes = .ok inspection := by
      rw [verdict, hinspect, file.inspectText_take_none hcut, inspectionRejection]
      simp
    exact ⟨fun _ => iff_of_false hnone fun ⟨pre, hpre, _⟩ => hcut ⟨pre, hpre⟩,
      fun _ => iff_of_false hnone fun ⟨pre, hpre, _⟩ => hcut ⟨pre, hpre⟩⟩

end Upload

theorem printable_of_all {text : List Char}
    (h : text.all fun c => 32 ≤ c.toNat || c.toNat ∈ [9, 10, 13]) :
    ∀ c ∈ text, 32 ≤ c.toNat ∨ c.toNat ∈ [9, 10, 13] := by
  intro c hc
  simpa using List.all_eq_true.mp h c hc

/-- A greeting. -/
def greeting : TextFile where
  text := "Hello, world".toList
  nonempty := by decide
  printable := printable_of_all (by decide)

/-- A title, then a greeting. -/
def titledGreeting : TextFile where
  text := "Greeting\nHello, world".toList
  nonempty := by decide
  printable := printable_of_all (by decide)

/-- The greeting with a title is accepted. -/
theorem text_upload_ready_titled : BecomesReady defaults promptVisit 0
    (sampleRest (sampleUpload .document "text/plain" titledGreeting.bytes) titledGreeting.bytes) 1
    (sampleUpload .document "text/plain" titledGreeting.bytes) :=
  ((text_upload_ready (by decide +kernel : binarySignature titledGreeting.bytes = false)
    (deposited_sample .document "text/plain" (by decide +kernel) (by decide +kernel))
    (timely_sample _) rfl).1 rfl).mpr
      ⟨titledGreeting.text, ⟨⟨[], by simp⟩, by decide +kernel⟩, by decide +kernel⟩

/-- So many letters, and one of two bytes. -/
def cutLetter (n : Nat) : TextFile where
  text := List.replicate n 'a' ++ ['é']
  nonempty := by simp
  printable := by
    intro c hc
    rw [List.mem_append, List.mem_replicate, List.mem_singleton] at hc
    rcases hc with ⟨-, rfl⟩ | rfl <;> decide

theorem utf8_replicate (n : Nat) : utf8 (List.replicate n 'a') = List.replicate n 97 := by
  induction n with
  | zero => rfl
  | succ n ih =>
      rw [List.replicate_succ, utf8_cons, ih]
      rfl

/-- The bytes of the sample: letters, and one of two bytes at the end. -/
theorem bytes_cutLetter (n : Nat) : (cutLetter n).bytes = List.replicate n 97 ++ [0xc3, 0xa9] := by
  rw [TextFile.bytes, cutLetter, utf8_append, utf8_replicate]
  rfl

/-- The first of the two bytes is no text. -/
theorem cut_cutLetter (n : Nat) : ¬ ∃ pre, Cut (cutLetter n).text pre (n + 1) := by
  rintro ⟨pre, hcut⟩
  have htake : (utf8 (cutLetter n).text).take (n + 1) = utf8 (List.replicate n 'a') ++ [0xc3] := by
    rw [show utf8 (cutLetter n).text = _ from bytes_cutLetter n, utf8_replicate, List.take_append,
      List.length_replicate, List.take_of_length_le (by simp)]
    simp
  rcases decodeUtf8_take (cutLetter n).text (n + 1) with ⟨pre', -, hsome⟩ | ⟨hno, -⟩
  · rw [htake, decodeUtf8_utf8, decodeUtf8_short_one (by decide)] at hsome
    cases hsome
  · exact hno ⟨pre, hcut⟩

theorem binarySignature_cutLetter (n : Nat) : binarySignature (cutLetter (n + 16)).bytes = false := by
  rw [bytes_cutLetter, Nat.add_comm, List.replicate_add]
  rfl

/-- Two files that are not accepted as plain text: one has a comma in its only
line, the other a letter at the end of the bytes that are inspected. -/
theorem text_upload_refused :
    (binarySignature greeting.bytes = false ∧ ¬ BecomesReady defaults promptVisit 0
      (sampleRest (sampleUpload .document "text/plain" greeting.bytes) greeting.bytes) 1
      (sampleUpload .document "text/plain" greeting.bytes)) ∧
    (binarySignature (cutLetter 262143).bytes = false ∧ ¬ BecomesReady defaults promptVisit 0
      (sampleRest (sampleUpload .document "text/plain" (cutLetter 262143).bytes)
        (cutLetter 262143).bytes) 1
      (sampleUpload .document "text/plain" (cutLetter 262143).bytes)) := by
  have hsignature : binarySignature (cutLetter 262143).bytes = false :=
    binarySignature_cutLetter 262127
  refine ⟨⟨by decide +kernel, ?_⟩, hsignature, ?_⟩
  · have hne : greeting.bytes ≠ [] := by decide +kernel
    have hinspect : inspectAssetBytes (greeting.bytes.take inspectionRangeBytes)
        greeting.bytes.length = some ⟨"text/csv", .document, none, none, none⟩ := by
      decide +kernel
    rw [becomesReady_iff (deposited_sample .document "text/plain" hne (by decide +kernel))
      (timely_sample _), verdict_text rfl hinspect]
    decide
  · have hlen : (cutLetter 262143).bytes.length = 262145 := by
      rw [bytes_cutLetter, List.length_append, List.length_replicate]
      rfl
    have hne : (cutLetter 262143).bytes ≠ [] := by
      rw [← List.length_pos_iff, hlen]
      decide
    have hnone : inspectText ((cutLetter 262143).bytes.take inspectionRangeBytes) = none :=
      TextFile.inspectText_take_none _ (cut_cutLetter 262143)
    rw [becomesReady_iff (deposited_sample .document "text/plain" hne (by rw [hlen]; decide))
      (timely_sample _), verdict, inspectAssetBytes_text (binarySignature_take (by decide) hsignature),
      hnone, inspectionRejection]
    simp

end FastRep.Reports
