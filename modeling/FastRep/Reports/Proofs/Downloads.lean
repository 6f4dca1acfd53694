/-
`object-storage.service.ts`: the header that names a download is read back. No
title ends a name early or adds a parameter.

A text is the list of its characters. What `normalize` makes of one is a
parameter. `replace` without the `u` flag looks at code units, so that it
puts two underscores for a character beyond the first plane.

# The reader

`readDisposition` is the other side: it takes the name in quotation marks up
to the next mark, and the bytes of the extended name up to the end. The
header has to be such that this reader gets exactly the two names that were
meant, whatever the title contains.

# The two names

The fallback is made of letters, digits, dots, underscores and hyphens
(`asciiFallback_plain`), so nothing in it is a quotation mark
(`takeWhile_fallback`). The extended name is encoded character by character
(`encodedFileName_eq`), each to printable characters that are decoded to the
character's bytes (`percentDecode_encodedChar`). The encoding runs twice in
the source, over the marks that `encodeURIComponent` keeps; what the first
one has written is kept by the second (`percentByte_kept`).
-/
import FastRep.Reports.Proofs.TextFiles

namespace FastRep.Format

/-- Printable, and not the quotation mark. -/
def Plain (c : Char) : Prop := 0x20 < c.toNat ∧ c.toNat < 0x7f ∧ c.toNat ≠ 0x22

instance (c : Char) : Decidable (Plain c) := inferInstanceAs (Decidable (_ ∧ _))

-- ============================================================== the digits

/-- A hexadecimal digit, upper case. -/
def hexDigit (n : Nat) : Char := Char.ofNat (if n < 10 then 48 + n else 55 + n)

/-- What a hexadecimal digit counts. -/
def hexValue (c : Char) : Option Nat :=
  let n := c.toNat
  if 48 ≤ n ∧ n ≤ 57 then some (n - 48)
  else if 65 ≤ n ∧ n ≤ 70 then some (n - 55)
  else if 97 ≤ n ∧ n ≤ 102 then some (n - 87)
  else none

theorem hexValue_hexDigit {n : Nat} (h : n < 16) : hexValue (hexDigit n) = some n := by
  have hall : ∀ n < 16, hexValue (hexDigit n) = some n := by decide
  exact hall n h

/-- A hexadecimal digit stands for itself in a header. -/
theorem hexDigit_plain {n : Nat} (h : n < 16) : Plain (hexDigit n) := by
  have hall : ∀ n < 16, Plain (hexDigit n) := by decide
  exact hall n h

-- =============================================================== the bytes

/-- A byte as a percent sign and two digits. -/
def percentByte (b : UInt8) : List Char :=
  ['%', hexDigit (b.toNat / 16), hexDigit (b.toNat % 16)]

/-- The bytes of a percent-encoded text of ASCII characters. -/
def percentDecode : List Char → Option (List UInt8)
  | [] => some []
  | c :: text =>
      if c = '%' then
        match text with
        | high :: low :: text =>
            match hexValue high, hexValue low with
            | some high, some low =>
                (percentDecode text).map (UInt8.ofNat (16 * high + low) :: ·)
            | _, _ => none
        | _ => none
      else if c.toNat < 128 then
        (percentDecode text).map (UInt8.ofNat c.toNat :: ·)
      else
        none

variable {text : List Char}

/-- An encoded byte is read back before the rest. -/
theorem percentDecode_byte (b : UInt8) :
    percentDecode (percentByte b ++ text) = (percentDecode text).map (b :: ·) := by
  have hlt := b.toNat_lt
  have hsplit : 16 * (b.toNat / 16) + b.toNat % 16 = b.toNat := by
    omega
  show percentDecode ('%' :: hexDigit (b.toNat / 16) :: hexDigit (b.toNat % 16) :: text) = _
  rw [percentDecode, if_pos rfl]
  simp only [hexValue_hexDigit (show b.toNat / 16 < 16 by omega),
    hexValue_hexDigit (show b.toNat % 16 < 16 by omega), hsplit, UInt8.ofNat_toNat]

theorem percentDecode_bytes (bytes : List UInt8) :
    percentDecode (bytes.flatMap percentByte ++ text)
      = (percentDecode text).map (bytes ++ ·) := by
  induction bytes with
  | nil => simp
  | cons b bytes ih =>
      rw [List.flatMap_cons, List.append_assoc, percentDecode_byte, ih, Option.map_map]
      rfl

/-- A character that stands for itself. -/
theorem percentDecode_char {c : Char} (hne : c ≠ '%') (hlt : c.toNat < 128) :
    percentDecode (c :: text) = (percentDecode text).map (UInt8.ofNat c.toNat :: ·) := by
  rw [percentDecode.eq_def]
  simp only [if_neg hne, if_pos hlt]

/-- An encoded byte is written in plain characters. -/
theorem percentByte_plain {b : UInt8} {c : Char} (h : c ∈ percentByte b) : Plain c := by
  have hlt := b.toNat_lt
  simp only [percentByte, List.mem_cons, List.not_mem_nil, or_false] at h
  rcases h with rfl | rfl | rfl
  · decide
  · exact hexDigit_plain (by omega)
  · exact hexDigit_plain (by omega)

end FastRep.Format

namespace FastRep.Reports

open FastRep.Format

/-- `String.prototype.normalize`, to NFKC and to NFKD. -/
structure Normalize where
  nfkc : List Char → List Char
  nfkd : List Char → List Char

/-- The quotation mark, the backslash, the slash and the semicolon. -/
def unsafeContentDispositionCharacters : List Nat := [0x22, 0x5c, 0x2f, 0x3b]

def isControlCharacter (c : Char) : Bool := c.toNat ≤ 0x1f || c.toNat = 0x7f

def sanitizeContentDispositionFileName (normalize : Normalize) (fileName : List Char) :
    List Char :=
  (normalize.nfkc fileName).map fun c =>
    if isControlCharacter c || unsafeContentDispositionCharacters.contains c.toNat then '_' else c

def isLetterOrDigit (c : Char) : Bool :=
  (97 ≤ c.toNat && c.toNat ≤ 122) || (65 ≤ c.toNat && c.toNat ≤ 90)
    || (48 ≤ c.toNat && c.toNat ≤ 57)

/-- The combining marks are dropped, and an underscore is put for what is not
in `[a-zA-Z0-9._-]`. -/
def asciiFallback (normalize : Normalize) (safeFileName : List Char) : List Char :=
  (normalize.nfkd safeFileName).flatMap fun c =>
    if 0x300 ≤ c.toNat && c.toNat ≤ 0x36f then []
    else if isLetterOrDigit c || [0x2e, 0x5f, 0x2d].contains c.toNat then [c]
    else if c.toNat < 0x10000 then ['_']
    else ['_', '_']

/-- The characters `encodeURIComponent` keeps: letters, digits and the marks
`- _ . ! ~ *`, the apostrophe and the parentheses. -/
def isUnreserved (c : Char) : Bool :=
  isLetterOrDigit c
    || [0x2d, 0x5f, 0x2e, 0x21, 0x7e, 0x2a, 0x27, 0x28, 0x29].contains c.toNat

def encodeURIComponent (text : List Char) : List Char :=
  text.flatMap fun c =>
    if isUnreserved c then [c] else (String.utf8EncodeChar c).flatMap percentByte

/-- The apostrophe and the parentheses are encoded too. -/
def encodedFileName (safeFileName : List Char) : List Char :=
  (encodeURIComponent safeFileName).flatMap fun c =>
    if [0x27, 0x28, 0x29].contains c.toNat then percentByte (UInt8.ofNat c.toNat) else [c]

/-- What stands before the name in quotation marks, and what after it. -/
def dispositionOpening : List Char := "attachment; filename=\"".toList

def dispositionMiddle : List Char := "\"; filename*=UTF-8''".toList

/-- The `ResponseContentDisposition` of `createPresignedDownload`. -/
def contentDisposition (normalize : Normalize) (fileName : List Char) : List Char :=
  let safeFileName := sanitizeContentDispositionFileName normalize fileName
  dispositionOpening ++ (asciiFallback normalize safeFileName
    ++ (dispositionMiddle ++ encodedFileName safeFileName))

variable {normalize : Normalize} {fileName text rest : List Char} {c : Char}

-- ============================================================== the reader

/-- The text after an opening. -/
def afterOpening (opening text : List Char) : Option (List Char) :=
  if opening.isPrefixOf text then some (text.drop opening.length) else none

/-- A reader of the header: the name in quotation marks, up to the next one, and
the code points of the extended name, percent-decoded as UTF-8. -/
def readDisposition (value : List Char) : Option (List Char × List Nat) :=
  (afterOpening dispositionOpening value).bind fun quoted =>
    (afterOpening dispositionMiddle (quoted.dropWhile fun c => c.toNat ≠ 0x22)).bind fun extended =>
      ((percentDecode extended).bind decodeUtf8).map fun name =>
        (quoted.takeWhile fun c => c.toNat ≠ 0x22, name)

theorem afterOpening_append (opening text : List Char) :
    afterOpening opening (opening ++ text) = some text := by
  have hopens : opening.isPrefixOf (opening ++ text) = true :=
    List.isPrefixOf_iff_prefix.mpr (List.prefix_append opening text)
  rw [afterOpening, if_pos hopens, List.drop_left]

-- ============================================================ the fallback

theorem letter_plain (h : isLetterOrDigit c = true) : Plain c := by
  simp only [isLetterOrDigit, Bool.or_eq_true, Bool.and_eq_true, decide_eq_true_eq] at h
  unfold Plain
  omega

/-- The fallback is made of letters, digits, dots, underscores and hyphens. -/
theorem asciiFallback_plain (h : c ∈ asciiFallback normalize text) : Plain c := by
  obtain ⟨d, -, hc⟩ := List.mem_flatMap.mp h
  split at hc
  next => cases hc
  next =>
      split at hc
      next hkept =>
          cases List.mem_singleton.mp hc
          rcases Bool.or_eq_true_iff.mp hkept with hletter | hmark
          · exact letter_plain hletter
          · simp at hmark
            unfold Plain
            omega
      next =>
          have hunderscore : c = '_' := by
            split at hc <;> simpa using hc
          subst hunderscore
          decide

/-- Up to the quotation mark, nothing ends the fallback. -/
theorem takeWhile_fallback : (asciiFallback normalize text ++ (dispositionMiddle ++ rest)).takeWhile
    (fun c => c.toNat ≠ 0x22) = asciiFallback normalize text := by
  rw [List.takeWhile_append_of_pos fun c hc => decide_eq_true (asciiFallback_plain hc).2.2]
  exact List.append_nil _

/-- The quotation mark behind the fallback is the first one after its
beginning. -/
theorem dropWhile_fallback : (asciiFallback normalize text ++ (dispositionMiddle ++ rest)).dropWhile
    (fun c => c.toNat ≠ 0x22) = dispositionMiddle ++ rest := by
  rw [List.dropWhile_append_of_pos fun c hc => decide_eq_true (asciiFallback_plain hc).2.2]
  rfl

-- ======================================================== the extended name

theorem utf8EncodeChar_ascii (h : c.toNat < 128) :
    String.utf8EncodeChar c = [UInt8.ofNat c.toNat] := by
  rw [utf8EncodeChar_eq, encoding, if_pos (by omega)]

theorem unreserved_plain (h : isUnreserved c = true) : Plain c := by
  rcases Bool.or_eq_true_iff.mp h with hletter | hmark
  · exact letter_plain hletter
  · simp at hmark
    unfold Plain
    omega

/-- What is not encoded is no percent sign, so it is not taken for the start
of a byte. -/
theorem unreserved_ne_percent (h : isUnreserved c = true) : c ≠ '%' := by
  rintro rfl
  exact absurd h (by decide)

theorem lt_of_plain (h : Plain c) : c.toNat < 128 := Nat.lt_trans h.2.1 (by decide)

/-- What a character becomes in the extended name. -/
def encodedChar (c : Char) : List Char :=
  if isUnreserved c && !([0x27, 0x28, 0x29].contains c.toNat) then [c]
  else (String.utf8EncodeChar c).flatMap percentByte

/-- A percent sign and its digits are not encoded again. -/
theorem percentByte_kept (b : UInt8) : (percentByte b).flatMap (fun c =>
    if [0x27, 0x28, 0x29].contains c.toNat then percentByte (UInt8.ofNat c.toNat) else [c])
      = percentByte b := by
  have hdigit : ∀ n < 16, [0x27, 0x28, 0x29].contains (hexDigit n).toNat = false := by decide
  have hlt := b.toNat_lt
  simp only [percentByte, List.flatMap_cons, List.flatMap_nil,
    hdigit _ (show b.toNat / 16 < 16 by omega), hdigit _ (show b.toNat % 16 < 16 by omega)]
  rfl

/-- A name is encoded character by character. -/
theorem encodedFileName_eq (text : List Char) :
    encodedFileName text = text.flatMap encodedChar := by
  unfold encodedFileName encodeURIComponent
  rw [List.flatMap_assoc]
  refine List.flatMap_congr fun c _ => ?_
  unfold encodedChar
  cases hkept : isUnreserved c with
  | true =>
      cases hmark : [0x27, 0x28, 0x29].contains c.toNat with
      | true =>
          rw [utf8EncodeChar_ascii (lt_of_plain (unreserved_plain hkept))]
          simp only [if_true, List.flatMap_cons, List.flatMap_nil, List.append_nil, hmark,
            Bool.not_true, Bool.and_false, Bool.false_eq_true, if_false]
      | false =>
          simp only [if_true, List.flatMap_cons, List.flatMap_nil, List.append_nil, hmark,
            Bool.not_false, Bool.and_true, Bool.false_eq_true, if_false]
  | false =>
      simp only [Bool.false_eq_true, if_false, Bool.false_and, List.flatMap_assoc]
      exact List.flatMap_congr fun b _ => percentByte_kept b

/-- It is decoded to the bytes of the character. -/
theorem percentDecode_encodedChar (c : Char) :
    percentDecode (encodedChar c ++ rest)
      = (percentDecode rest).map (String.utf8EncodeChar c ++ ·) := by
  unfold encodedChar
  split
  next h =>
      have hkept := (Bool.and_eq_true_iff.mp h).1
      have hlt := lt_of_plain (unreserved_plain hkept)
      rw [List.singleton_append, percentDecode_char (unreserved_ne_percent hkept) hlt,
        utf8EncodeChar_ascii hlt]
      rfl
  next => exact percentDecode_bytes _

/-- An encoded name is read back as its bytes. -/
theorem percentDecode_encodedFileName (text : List Char) :
    percentDecode (encodedFileName text) = some (utf8 text) := by
  rw [encodedFileName_eq]
  induction text with
  | nil => rfl
  | cons c text ih =>
      rw [List.flatMap_cons, percentDecode_encodedChar, ih, Option.map_some, utf8_cons]

theorem encodedFileName_plain (h : c ∈ encodedFileName text) : Plain c := by
  rw [encodedFileName_eq] at h
  obtain ⟨d, -, hc⟩ := List.mem_flatMap.mp h
  unfold encodedChar at hc
  split at hc
  next hkept =>
      cases List.mem_singleton.mp hc
      exact unreserved_plain (Bool.and_eq_true_iff.mp hkept).1
  next =>
      obtain ⟨b, -, hc⟩ := List.mem_flatMap.mp hc
      exact percentByte_plain hc

-- ============================================================== the header

/-- The header of a download, for every title: it is made of printable ASCII
characters, and read back it gives exactly the fallback and the sanitized name,
which has no control character and no delimiter. -/
theorem content_disposition_read (normalize : Normalize) (fileName : List Char) :
    readDisposition (contentDisposition normalize fileName)
      = some (asciiFallback normalize (sanitizeContentDispositionFileName normalize fileName),
        (sanitizeContentDispositionFileName normalize fileName).map Char.toNat) ∧
    (∀ c ∈ contentDisposition normalize fileName, 0x20 ≤ c.toNat ∧ c.toNat < 0x7f) ∧
    ∀ c ∈ sanitizeContentDispositionFileName normalize fileName,
      isControlCharacter c = false ∧ c.toNat ∉ unsafeContentDispositionCharacters := by
  refine ⟨?_, fun c hc => ?_, fun c hc => ?_⟩
  · have hname := decodeUtf8_utf8 (q := [])
      (sanitizeContentDispositionFileName normalize fileName)
    rw [List.append_nil] at hname
    unfold readDisposition contentDisposition
    rw [afterOpening_append, Option.bind_some, dropWhile_fallback, afterOpening_append,
      Option.bind_some, percentDecode_encodedFileName, Option.bind_some, hname,
      takeWhile_fallback]
    simp [decodeUtf8]
  · unfold contentDisposition at hc
    rcases List.mem_append.mp hc with hc | hc
    · have hall : (dispositionOpening.all fun c => 0x20 ≤ c.toNat && c.toNat < 0x7f) = true := by
        decide +kernel
      simpa using List.all_eq_true.mp hall c hc
    · rcases List.mem_append.mp hc with hc | hc
      · have hplain := asciiFallback_plain hc
        exact ⟨Nat.le_of_lt hplain.1, hplain.2.1⟩
      · rcases List.mem_append.mp hc with hc | hc
        · have hall : (dispositionMiddle.all fun c => 0x20 ≤ c.toNat && c.toNat < 0x7f) = true := by
            decide +kernel
          simpa using List.all_eq_true.mp hall c hc
        · have hplain := encodedFileName_plain hc
          exact ⟨Nat.le_of_lt hplain.1, hplain.2.1⟩
  · obtain ⟨d, -, rfl⟩ := List.mem_map.mp hc
    split
    next => decide
    next h =>
        rw [Bool.not_eq_true, Bool.or_eq_false_iff] at h
        exact ⟨h.1, by simpa using h.2⟩

end FastRep.Reports
