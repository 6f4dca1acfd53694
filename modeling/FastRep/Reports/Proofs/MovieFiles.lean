/-
What the inspector reads from an ISO media file.

The inspector does not walk through the boxes. It searches the bytes for the
name of the movie header, and reads the fields behind the first place where
it stands. So a file is read right where nothing in front of the header
contains the name (`movie_duration_read`), in a box that is none of its
business as much as in a size or a number.

# The two directions

Without the name before it, the search finds the header
(`findAscii_movie`), and the fields are read for both versions. With the name
before it, the fields read stand within 36 bytes from there, and there is a
movie header for which they say something else (`readMp4Duration_probe`): two
durations are read as one. A header with its size in eight bytes has the
fields further back than the inspector looks.
-/
import FastRep.Reports.Proofs.Readers
import FastRep.Format.IsoMedia

namespace FastRep.Reports

open FastRep.Format

variable {bytes before rest tail : Bytes} {offset k : Nat} {m : Movie}

-- ============================================================= the fields

/-- A number written in four bytes is read back. -/
theorem readUint32Be_beBytes {n : Nat} (h : bytes.drop offset = beBytes 4 n ++ tail)
    (hn : n < 256 ^ 4) : readUint32Be bytes offset = n := by
  have hlen := congrArg List.length h
  rw [List.length_drop, List.length_append, length_beBytes] at hlen
  rw [readUint32Be_eq (by omega), h, List.take_left' (length_beBytes 4 n), beValue_beBytes hn]

/-- A number of eight bytes is read in halves. -/
theorem readUint64Be_beBytes {n : Nat} (h : bytes.drop offset = beBytes 8 n ++ tail)
    (hn : n < 256 ^ 8) : readUint32Be bytes offset * 4294967296
      + readUint32Be bytes (offset + 4) = n := by
  have hlen := congrArg List.length h
  rw [List.length_drop, List.length_append, length_beBytes] at hlen
  have hsplit : beBytes 8 n = (bytes.drop offset).take 4 ++ (bytes.drop (offset + 4)).take 4 := by
    rw [← List.drop_drop, ← List.take_add, h, List.take_left' (length_beBytes 8 n)]
  have hlow : ((bytes.drop (offset + 4)).take 4).length = 4 := by
    rw [List.length_take, List.length_drop]
    omega
  have hvalue := congrArg beValue hsplit
  rw [beValue_beBytes hn, beValue_append, hlow] at hvalue
  rw [readUint32Be_eq (by omega), readUint32Be_eq (by omega), hvalue]
  rfl

/-- The movie header at the first place where its name stands. -/
theorem readMp4Duration_found {h : MovieHeader} (hfind : findAscii "mvhd" bytes = some k)
    (hbytes : bytes.drop k = ascii "mvhd" ++ (h.payload ++ tail)) :
    readMp4Duration bytes = h.duration := by
  have hlead : bytes.drop k = ascii "mvhd" ++ ((if h.wide then 1 else 0) :: h.flags)
      ++ beBytes h.width h.creationTime ++ beBytes h.width h.modificationTime
      ++ (beBytes 4 h.timescale ++ (beBytes h.width h.durationUnits
        ++ (h.presentation ++ tail))) := by
    rw [hbytes, MovieHeader.payload]
    simp only [List.append_assoc, List.cons_append]
  have hdrop : ∀ {l r : Bytes}, bytes.drop k = l ++ r → bytes.drop (k + l.length) = r := by
    intro l r hlr
    rw [← List.drop_drop, hlr, List.drop_left]
  have htimescale := hdrop hlead
  rw [← List.append_assoc (_ ++ _ : Bytes)] at hlead
  have hduration := hdrop hlead
  simp only [List.length_append, length_beBytes, length_ascii, List.length_cons, h.flags_length,
    show "mvhd".length = 4 from rfl] at htimescale hduration
  have hlen : 104 ≤ (bytes.drop k).length := by
    rw [hbytes]
    simp only [List.length_append, h.length_payload, length_ascii,
      show "mvhd".length = 4 from rfl, MovieHeader.width]
    split <;> omega
  have hversion : byteAt bytes (k + 4) = if h.wide then 1 else 0 := by
    rw [byteAt_add, hbytes, MovieHeader.payload]
    cases h.wide <;> rfl
  rw [List.length_drop] at hlen
  rw [readMp4Duration, hfind]
  simp only [hversion]
  rw [if_neg (by omega), MovieHeader.duration]
  have hunits := h.durationUnits_lt
  cases hwide : h.wide with
  | true =>
      simp only [MovieHeader.width, hwide, if_true] at htimescale hduration hunits
      simp only [if_true]
      rw [readUint32Be_beBytes htimescale h.timescale_lt, readUint64Be_beBytes hduration hunits]
  | false =>
      simp only [MovieHeader.width, hwide, Bool.false_eq_true, if_false] at htimescale hduration hunits
      simp only [Bool.false_eq_true, zero_ne_one, if_false]
      rw [readUint32Be_beBytes htimescale h.timescale_lt, readUint32Be_beBytes hduration hunits]

-- ==================================================== the first occurrence

/-- A word of four characters over four bytes. -/
theorem byteAt_of_mvhd (h : asciiAt bytes k "mvhd" = true) : byteAt bytes k = 109
    ∧ byteAt bytes (k + 1) = 118 ∧ byteAt bytes (k + 2) = 104 ∧ byteAt bytes (k + 3) = 100 := by
  have hword := (asciiAt_iff (by decide)).mp h
  have hat : ∀ i < 4, byteAt bytes (k + i) = byteAt (ascii "mvhd") i := by
    intro i hi
    rw [byteAt_add, ← hword]
    simp only [byteAt, List.getD_eq_getElem?_getD, List.getElem?_take]
    rw [show "mvhd".length = 4 from rfl, if_pos hi]
  exact ⟨hat 0 (by omega), hat 1 (by omega), hat 2 (by omega), hat 3 (by omega)⟩

/-- The size of a movie header, before its name. -/
theorem size_bytes (h : MovieHeader) : ∃ b : UInt8, b.toNat ≠ 109
    ∧ beBytes 4 (8 + h.payload.length) = [0, 0, 0, b] := by
  rw [h.length_payload, MovieHeader.width]
  cases h.wide with
  | true => exact ⟨120, by decide, rfl⟩
  | false => exact ⟨108, by decide, rfl⟩

/-- Where its name does not stand before the movie header, the search finds
the movie header. -/
theorem findAscii_movie (hlarge : m.large = false) (hfree : ¬ ascii "mvhd" <:+: m.before)
    (h : MovieHeader) : findAscii "mvhd" (m.bytes h) = some (m.before.length + 4) := by
  obtain ⟨b, hb, hsize⟩ := size_bytes h
  have hbytes : m.bytes h = m.before ++ (0 :: 0 :: 0 :: b :: (ascii "mvhd"
      ++ (h.payload ++ m.rest))) := by
    rw [Movie.bytes, boxHeader, hlarge, if_neg (by simp), hsize]
    simp only [List.cons_append, List.nil_append]
  have hat : ∀ i, byteAt (m.bytes h) (m.before.length + i)
      = byteAt (0 :: 0 :: 0 :: b :: (ascii "mvhd" ++ (h.payload ++ m.rest))) i := by
    intro i
    rw [byteAt_add, hbytes, List.drop_left]
  refine (findAscii_eq_some_iff (by decide)).mpr ⟨?_, fun i hi => Bool.eq_false_iff.mpr fun hw => ?_⟩
  · rw [asciiAt_iff (by decide), ← List.drop_drop, hbytes, List.drop_left]
    exact List.take_left' rfl
  · -- a name that starts before it either ends before the size or meets its bytes
    obtain ⟨h0, h1, h2, h3⟩ := byteAt_of_mvhd hw
    by_cases hbefore : i + 4 ≤ m.before.length
    · rw [hbytes, asciiAt_append_left hbefore] at hw
      exact hfree (infix_of_asciiAt (by decide) hw)
    · have hzero : byteAt (m.bytes h) m.before.length = 0 := hat 0
      have hone : byteAt (m.bytes h) (m.before.length + 1) = 0 := hat 1
      have htwo : byteAt (m.bytes h) (m.before.length + 2) = 0 := hat 2
      have hthree : byteAt (m.bytes h) (m.before.length + 3) = b.toNat := hat 3
      obtain hi | hi | hi | hi | hi | hi | hi : i + 3 = m.before.length ∨ i + 2 = m.before.length
          ∨ i + 1 = m.before.length ∨ i = m.before.length ∨ i = m.before.length + 1
          ∨ i = m.before.length + 2 ∨ i = m.before.length + 3 := by omega
      · rw [hi] at h3
        omega
      · rw [hi] at h2
        omega
      · rw [hi] at h1
        omega
      all_goals rw [hi] at h0; omega

-- ====================================================== other occurrences

/-- The fields read stand within 36 bytes from the name. -/
theorem readMp4Duration_congr {bytes' : Bytes} (hfind : findAscii "mvhd" bytes = some k)
    (hfind' : findAscii "mvhd" bytes' = some k) (hlen : bytes.length = bytes'.length)
    (h : bytes.take (k + 36) = bytes'.take (k + 36)) :
    readMp4Duration bytes = readMp4Duration bytes' := by
  have hbyte : ∀ i < 36, byteAt bytes (k + i) = byteAt bytes' (k + i) := by
    intro i hi
    have hget := congrArg (fun l : Bytes => (l[k + i]?).getD 0) h
    simp only [List.getElem?_take, if_pos (Nat.add_lt_add_left hi k)] at hget
    simp only [byteAt, List.getD_eq_getElem?_getD, hget]
  have hread : ∀ i < 33, readUint32Be bytes (k + i) = readUint32Be bytes' (k + i) := by
    intro i hi
    simp only [readUint32Be, readUint16Be, Nat.add_assoc]
    rw [hbyte i (by omega), hbyte _ (by omega), hbyte _ (by omega), hbyte _ (by omega)]
  have htimescale : readUint32Be bytes (if byteAt bytes' (k + 4) = 1 then k + 24 else k + 16)
      = readUint32Be bytes' (if byteAt bytes' (k + 4) = 1 then k + 24 else k + 16) := by
    split
    · exact hread 24 (by omega)
    · exact hread 16 (by omega)
  rw [readMp4Duration, readMp4Duration, hfind, hfind']
  simp only [hlen, hbyte 4 (by omega), htimescale, hread 20 (by omega), hread 28 (by omega),
    hread 32 (by omega)]

/-- What is at hand before the fields of the movie header: what stands before
it, and its name where its size follows the name. -/
def Movie.lead (m : Movie) : Bytes :=
  m.before ++ if m.large then beBytes 4 1 ++ ascii "mvhd" else []

/-- A movie header of version 1 with one unit for each second. -/
def probe (durationUnits : Nat) (h : durationUnits < 256 ^ 8) : MovieHeader where
  wide := true
  flags := [0, 0, 0]
  creationTime := 0
  modificationTime := 0
  timescale := 1
  durationUnits
  presentation := List.replicate 80 0
  flags_length := rfl
  timescale_lt := by decide
  durationUnits_lt := h
  presentation_length := rfl

/-- The duration of such a header stands 32 bytes on. -/
theorem bytes_probe (m : Movie) : ∃ between : Bytes, between.length = 32 ∧
    ∀ d hd, m.bytes (probe d hd)
      = Movie.lead m ++ between ++ (beBytes 8 d ++ (List.replicate 80 0 ++ m.rest)) := by
  have hpayload : ∀ d hd, (probe d hd).payload.length = 112 := fun d hd => by
    rw [MovieHeader.length_payload]
    rfl
  cases hlarge : m.large with
  | true =>
      refine ⟨beBytes 8 128 ++ (1 :: [0, 0, 0] ++ beBytes 8 0 ++ beBytes 8 0 ++ beBytes 4 1),
        rfl, fun d hd => ?_⟩
      rw [Movie.bytes, hpayload, Movie.lead, boxHeader, hlarge, if_pos rfl, if_pos rfl,
        MovieHeader.payload]
      simp only [probe, MovieHeader.width, List.append_assoc, if_true, List.cons_append]
  | false =>
      refine ⟨beBytes 4 120 ++ ascii "mvhd" ++ (1 :: [0, 0, 0] ++ beBytes 8 0 ++ beBytes 8 0
        ++ beBytes 4 1), rfl, fun d hd => ?_⟩
      rw [Movie.bytes, hpayload, Movie.lead, boxHeader, hlarge, if_neg (by simp),
        if_neg (by simp), MovieHeader.payload]
      simp only [probe, MovieHeader.width, List.append_assoc, if_true, List.cons_append,
        List.nil_append]

/-- Where the name stands in the lead, two durations are read as one. -/
theorem readMp4Duration_probe (h : ascii "mvhd" <:+: Movie.lead m) {d d' : Nat}
    (hd : d < 256 ^ 8) (hd' : d' < 256 ^ 8) :
    readMp4Duration (m.bytes (probe d hd)) = readMp4Duration (m.bytes (probe d' hd')) := by
  obtain ⟨between, hbetween, hbytes⟩ := bytes_probe m
  obtain ⟨i, hi⟩ := asciiAt_of_infix (by decide) h
  obtain ⟨k, -, hk⟩ := exists_findAscii (by decide) hi
  have hword := le_length_of_asciiAt (by decide) ((findAscii_eq_some_iff (by decide)).mp hk).1
  rw [show "mvhd".length = 4 from rfl] at hword
  have hfind : ∀ d hd, findAscii "mvhd" (m.bytes (probe d hd)) = some k := by
    intro d hd
    rw [hbytes, List.append_assoc]
    exact findAscii_append (by decide) hk
  refine readMp4Duration_congr (hfind d hd) (hfind d' hd') ?_ ?_
  · rw [hbytes, hbytes]
    simp only [List.length_append, length_beBytes]
  · have hlead : k + 36 ≤ (Movie.lead m ++ between).length := by
      rw [List.length_append, hbetween]
      omega
    rw [hbytes, hbytes, List.take_append_of_le_length hlead,
      List.take_append_of_le_length hlead]

-- =========================================================== the duration

/-- The files in which every movie header is read right: those with the size of
the movie header before its name, where this name does not stand earlier. -/
theorem movie_duration_read (m : Movie) :
    (∀ h : MovieHeader, readMp4Duration (m.bytes h) = h.duration)
      ↔ m.large = false ∧ ¬ ascii "mvhd" <:+: m.before := by
  constructor
  · intro hread
    by_contra hcond
    have hlead : ascii "mvhd" <:+: Movie.lead m := by
      rw [Movie.lead]
      cases hlarge : m.large with
      | true =>
          rw [if_pos rfl, ← List.append_assoc]
          exact (List.suffix_append _ _).isInfix
      | false =>
          rw [if_neg (by simp), List.append_nil]
          exact Decidable.of_not_not fun hfree => hcond ⟨hlarge, hfree⟩
    -- no second and one second
    have hsame : readMp4Duration (m.bytes (probe 0 (by decide)))
        = readMp4Duration (m.bytes (probe 1 (by decide))) := readMp4Duration_probe hlead _ _
    rw [hread, hread] at hsame
    simp [MovieHeader.duration, probe] at hsame
  · rintro ⟨hlarge, hfree⟩ h
    have hdrop : (m.bytes h).drop (m.before.length + 4)
        = ascii "mvhd" ++ (h.payload ++ m.rest) := by
      rw [Movie.bytes, boxHeader, hlarge, if_neg (by simp), List.append_assoc (beBytes 4 _),
        ← List.append_assoc m.before, List.drop_left']
      rw [List.length_append, length_beBytes]
    exact readMp4Duration_found (findAscii_movie hlarge hfree h) hdrop

/-- A song of 3000 seconds with a free box that has the name in it, and the
fields of one second after the name. -/
def namedFree : Movie where
  boxes := [⟨false, ascii "ftyp", ascii "M4A " ++ beBytes 4 0, rfl, by decide⟩,
    ⟨false, ascii "free", ascii "mvhd" ++ beBytes 4 0 ++ beBytes 8 0 ++ beBytes 4 1 ++ beBytes 4 1,
      rfl, by decide⟩]
  movieSize := 120
  largeMovie := false
  children := []
  large := false
  rest := []

/-- A box before the movie whose name contains that of its header is taken for
it. -/
theorem movie_duration_misread : isM4a (namedFree.bytes (probe 3000 (by decide))) = true ∧
    (probe 3000 (by decide)).duration = some 3000 ∧
    readMp4Duration (namedFree.bytes (probe 3000 (by decide))) = some 1 := by
  decide +kernel

end FastRep.Reports
