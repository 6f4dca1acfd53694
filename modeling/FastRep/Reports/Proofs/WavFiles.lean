/-
What the inspector reads from a wave file.

The inspector walks over the chunks, remembers a number of the last format
chunk, and stops at the first data chunk. The walk is an induction over the
chunks before the data, with their padding (`readWavFrom_chunks`). The number
it remembers stands four bytes into the payload, where a format chunk has its
samples for each second; the duration would need the bytes for each second,
four bytes further.

So the duration is right exactly where the two numbers are equal, as for
sound of one byte a sample on one channel, or where there is no sound and
neither is zero (`wav_duration_read`).
-/
import FastRep.Reports.Proofs.Readers
import FastRep.Format.Riff

namespace FastRep.Reports

open FastRep.Format

variable {bytes : Bytes} {objectSize : Nat}

-- ============================================================= one chunk

section Chunk

variable {before rest : Bytes} {c : RiffChunk}

/-- The name of a chunk stands at its beginning. -/
theorem take_id (h : bytes = before ++ (c.bytes ++ rest)) :
    (bytes.drop before.length).take 4 = c.id := by
  rw [h, List.drop_left]
  simp only [RiffChunk.bytes, List.append_assoc]
  rw [← c.id_length, List.take_left]

theorem asciiAt_chunk (word : String) (hnarrow : narrow word = true) (hlength : word.length = 4)
    (h : bytes = before ++ (c.bytes ++ rest)) :
    asciiAt bytes before.length word = decide (c.id = ascii word) := by
  rw [Bool.eq_iff_iff, asciiAt_iff hnarrow, hlength, take_id h, decide_eq_true_iff]

theorem readUint32Le_chunk (h : bytes = before ++ (c.bytes ++ rest)) :
    readUint32Le bytes (before.length + 4) = c.payload.length := by
  have hbytes : bytes = (before ++ c.id)
      ++ (leBytes 4 c.payload.length ++ (c.payload ++ (c.padding ++ rest))) := by
    rw [h]
    simp only [RiffChunk.bytes, List.append_assoc]
  exact readUint32Le_field hbytes (by rw [List.length_append, c.id_length]) c.size_lt

/-- Behind a chunk the next one starts. -/
theorem length_past (c : RiffChunk) : (before ++ c.bytes).length
    = before.length + 8 + c.payload.length + c.payload.length % 2 := by
  rw [List.length_append, c.length_bytes]
  omega

end Chunk

-- ============================================================== the walk

/-- What the walk over the chunks before the data finds: the number at offset
12 from the last format chunk, whatever was found before, and the size of the
data, clipped at the end of the object. -/
theorem readWavFrom_chunks {dataSize : Nat} {rest : Bytes} (hsize : dataSize < 256 ^ 4)
    {chunks : List RiffChunk} (hchunks : ∀ c ∈ chunks, c.id ≠ ascii "data") {before : Bytes}
    {fuel : Nat} (rate : Option Nat) (hfuel : chunks.length < fuel)
    (h : bytes = before ++ (chunks.flatMap RiffChunk.bytes
      ++ (ascii "data" ++ leBytes 4 dataSize ++ rest))) :
    readWavFrom bytes objectSize fuel before.length rate
      = (match lastFormat before.length chunks with
          | some p => some (readUint32Le bytes (p + 12))
          | none => rate,
        some (min (dataSize : Int) (objectSize
          - (before.length + (chunks.flatMap RiffChunk.bytes).length : Nat) - 8))) := by
  induction chunks generalizing before fuel rate with
  | nil =>
      obtain ⟨fuel, rfl⟩ := Nat.exists_eq_add_one.mpr (Nat.zero_lt_of_lt hfuel)
      rw [List.flatMap_nil, List.nil_append] at h
      have hword (word : String) (hn : narrow word = true) (hl : word.length = 4) :
          asciiAt bytes before.length word = decide (ascii "data" = ascii word) := by
        rw [Bool.eq_iff_iff, asciiAt_iff hn, hl, h, List.drop_left, decide_eq_true_iff,
          List.append_assoc, List.take_left' (show (ascii "data").length = 4 from rfl)]
      have hread : readUint32Le bytes (before.length + 4) = dataSize := by
        have hbytes : bytes = (before ++ ascii "data") ++ (leBytes 4 dataSize ++ rest) := by
          rw [h]
          simp only [List.append_assoc]
        exact readUint32Le_field hbytes (List.length_append) hsize
      have hlen : before.length + 8 ≤ bytes.length := by
        rw [h]
        simp only [List.length_append, length_leBytes, length_ascii,
          show "data".length = 4 from rfl]
        omega
      have hfmt : asciiAt bytes before.length "fmt " = false := by
        rw [hword _ (by decide) rfl]
        decide
      have hdata : asciiAt bytes before.length "data" = true := by
        rw [hword _ (by decide) rfl]
        exact decide_eq_true rfl
      rw [readWavFrom, if_pos hlen]
      simp only [hfmt, hdata, hread, Bool.false_and, Bool.false_eq_true, if_false, if_true,
        lastFormat, List.flatMap_nil, List.length_nil, Nat.add_zero]
  | cons c chunks ih =>
      obtain ⟨fuel, rfl⟩ := Nat.exists_eq_add_one.mpr (Nat.zero_lt_of_lt hfuel)
      rw [List.flatMap_cons, List.append_assoc] at h
      have hid := asciiAt_chunk "data" (by decide) rfl h
      rw [decide_eq_false (hchunks c List.mem_cons_self)] at hid
      have hfmt := asciiAt_chunk "fmt " (by decide) rfl h
      -- the header of the data follows
      have hlen : before.length + 16 ≤ bytes.length := by
        rw [h]
        simp only [List.length_append, length_leBytes, length_ascii, c.length_bytes,
          show "data".length = 4 from rfl]
        omega
      have hnext : before.length + 8 + c.payload.length + c.payload.length % 2
          = (before ++ c.bytes).length := (length_past c).symm
      have hfuel : chunks.length < fuel := Nat.lt_of_succ_lt_succ hfuel
      have hbytes : bytes = before ++ c.bytes ++ (chunks.flatMap RiffChunk.bytes
          ++ (ascii "data" ++ leBytes 4 dataSize ++ rest)) := by
        rw [h, List.append_assoc before]
      have hrec := fun r =>
        ih (fun d hd => hchunks d (List.mem_cons_of_mem _ hd)) r hfuel hbytes
      rw [readWavFrom, if_pos (by omega)]
      simp only [readUint32Le_chunk h, hnext, hrec, hid, hfmt, hlen, decide_true, Bool.and_true,
        Bool.false_eq_true, if_false]
      have hlast : lastFormat before.length (c :: chunks)
          = match lastFormat (before ++ c.bytes).length chunks with
            | some p => some p
            | none => if c.id = ascii "fmt " then some before.length else none := by
        have hformat : c.isFormat = decide (c.id = ascii "fmt ") := rfl
        rw [lastFormat, List.length_append]
        cases lastFormat (before.length + c.bytes.length) chunks with
        | some p => rfl
        | none => simp only [hformat, decide_eq_true_eq]
      have hcount : (before ++ c.bytes).length + (chunks.flatMap RiffChunk.bytes).length
          = before.length + ((c :: chunks).flatMap RiffChunk.bytes).length := by
        rw [List.flatMap_cons, List.length_append, List.length_append, Nat.add_assoc]
      rw [hlast, hcount]
      by_cases hformat : c.id = ascii "fmt " <;>
        cases lastFormat (before ++ c.bytes).length chunks <;> simp [hformat]

-- ============================================================ the duration

/-- What is read: the size of the sound by the samples for each second. -/
theorem readWavDuration_eq (w : WaveFile) (h : w.bytes.length ≤ objectSize)
    (hformat : ∃ c ∈ w.chunks, c.isFormat) :
    readWavDuration w.bytes objectSize = if w.samplesPerSecond = 0 then none
      else some ((w.soundSize objectSize : Rat) / w.samplesPerSecond) := by
  have hfuel : w.chunks.length < w.bytes.length := by
    have := WaveFile.length_chunks_le w.chunks
    have := w.dataStart_le
    unfold WaveFile.dataStart WaveFile.body at this
    omega
  have hbytes : w.bytes = w.header ++ (w.chunks.flatMap RiffChunk.bytes
      ++ (ascii "data" ++ leBytes 4 w.dataSize ++ w.rest)) := rfl
  have hwalk : readWavFrom w.bytes objectSize w.bytes.length w.header.length none = _ :=
    readWavFrom_chunks w.dataSize_lt w.chunks_before none hfuel hbytes
  have hsound : min (w.dataSize : Int) (objectSize
      - (w.header.length + (w.chunks.flatMap RiffChunk.bytes).length : Nat) - 8)
      = (w.soundSize objectSize : Int) := by
    have := w.dataStart_le
    unfold WaveFile.dataStart WaveFile.body at this
    rw [WaveFile.soundSize, WaveFile.dataStart, WaveFile.body, w.length_header]
    omega
  rw [hsound, w.length_header] at hwalk
  obtain ⟨p, hp⟩ := lastFormat_isSome 12 hformat
  rw [readWavDuration, hwalk, WaveFile.samplesPerSecond, hp]
  simp only [readUint32Le_eq, Int.cast_natCast]

/-- The recordings with a format: the duration read is the duration exactly
when the format announces as many samples as bytes for each second, or when
there is no sound and both numbers are there. -/
theorem wav_duration_read (w : WaveFile) (h : w.bytes.length ≤ objectSize) {format : RiffChunk}
    (hmem : format ∈ w.chunks) (hformat : format.isFormat) :
    readWavDuration w.bytes objectSize = w.duration format objectSize
      ↔ w.samplesPerSecond = format.averageBytesPerSecond
        ∨ w.soundSize objectSize = 0 ∧ w.samplesPerSecond ≠ 0
          ∧ format.averageBytesPerSecond ≠ 0 := by
  rw [readWavDuration_eq w h ⟨format, hmem, hformat⟩, WaveFile.duration]
  generalize w.samplesPerSecond = samples
  generalize format.averageBytesPerSecond = average
  generalize w.soundSize objectSize = sound
  by_cases hs : samples = 0
  · by_cases ha : average = 0
    · simp [hs, ha]
    · simp [hs, ha]
      omega
  · by_cases ha : average = 0
    · simp [hs, ha]
    · have hs' : (samples : Rat) ≠ 0 := Nat.cast_ne_zero.mpr hs
      have ha' : (average : Rat) ≠ 0 := Nat.cast_ne_zero.mpr ha
      rw [if_neg hs, if_neg ha, Option.some.injEq, div_eq_div_iff hs' ha']
      norm_cast
      rw [mul_eq_mul_left_iff, eq_comm]
      simp [hs, ha]

/-- The beginning of four seconds of stereo sound, 44100 samples of four bytes
for each second. -/
def stereo : WaveFile where
  riffSize := leBytes 4 705636
  chunks := [⟨ascii "fmt ", leBytes 2 1 ++ leBytes 2 2 ++ leBytes 4 44100 ++ leBytes 4 176400
    ++ leBytes 2 4 ++ leBytes 2 16, 0, rfl, by decide⟩]
  dataSize := 705600
  rest := []
  riffSize_length := rfl
  chunks_before := by decide
  dataSize_lt := by decide

/-- A mono file of 8-bit samples is read right: a byte for each sample. -/
def mono : WaveFile where
  riffSize := leBytes 4 44136
  chunks := [⟨ascii "fmt ", leBytes 2 1 ++ leBytes 2 1 ++ leBytes 4 44100 ++ leBytes 4 44100
    ++ leBytes 2 1 ++ leBytes 2 8, 0, rfl, by decide⟩]
  dataSize := 44100
  rest := []
  riffSize_length := rfl
  chunks_before := by decide
  dataSize_lt := by decide

/-- The duration of a file with one channel and one byte a sample is read. -/
theorem wav_duration_read_mono : ∃ format ∈ mono.chunks,
    readWavDuration mono.bytes 44144 = mono.duration format 44144 :=
  ⟨_, List.mem_cons_self, (wav_duration_read mono (by decide +kernel) List.mem_cons_self rfl).mpr
    (.inl (by decide +kernel))⟩

/-- Four seconds of stereo sound are read as sixteen. -/
theorem wav_duration_misread : ∃ format ∈ stereo.chunks, format.isFormat
    ∧ 16 ≤ format.payload.length ∧ stereo.bytes.length ≤ 705644
    ∧ stereo.duration format 705644 = some 4
    ∧ readWavDuration stereo.bytes 705644 = some 16 := by
  decide +kernel

end FastRep.Reports
