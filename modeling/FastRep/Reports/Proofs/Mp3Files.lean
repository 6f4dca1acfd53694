/-
What the inspector reads from an MP3 file: the time the whole object takes at
the rate of the first frame, where that frame is among the inspected bytes.

# The header

The bit fields of a frame header are taken apart again: the sync, the
version, the layer, and the index of the rate, each in a lemma of its own by
cases on the fields that share its byte. The table of the inspector is that
of the format (`bitrate_header`).

# The start

The scan starts behind the tag, whose size is a synchsafe number
(`readSynchsafe_tag`, `scan_start`), and finds a frame header at once. Where
the tag is longer than the bytes that were read, the frame is not among them,
and no duration is found (`readMp3Duration_take`).

# The verdict

The size of the object, tag included, over the rate is what the upload is
judged by (`mp3_judged_by_first_frame`): too long is rejected, and anything
else, an unknown duration too, is READY.
-/
import FastRep.Reports.Proofs.Confirming
import FastRep.Reports.Proofs.TextFiles
import FastRep.Format.Mpeg

namespace FastRep.Reports

open FastRep.Format FastRep.Txn

variable {objectSize n : Nat}

-- ================================================== the bits of the header

section Header

variable (h : FrameHeader)

theorem syncs_second : syncs h.second = true := by
  unfold FrameHeader.second
  cases h.version <;> cases h.bare <;> decide

/-- The second byte has the bits of the version. -/
theorem version_second : (h.second >>> 3) &&& 0x03 = h.version.bits := by
  unfold FrameHeader.second
  cases h.version <;> cases h.bare <;> decide

theorem layer_second : (h.second >>> 1) &&& 0x03 = 1 := by
  unfold FrameHeader.second
  cases h.version <;> cases h.bare <;> decide

/-- The second byte is none that starts another format. -/
theorem second_ne : h.second ≠ 0xd8 := by
  unfold FrameHeader.second
  cases h.version <;> cases h.bare <;> decide

/-- The third byte has the index of the bit rate. -/
theorem rateIndex_third : ((16 * h.rateIndex + h.low) >>> 4) &&& 0x0f = h.rateIndex := by
  have := h.rateIndex_lt
  have := h.low_lt
  rw [Nat.shiftRight_eq_div_pow, show 0x0f = 2 ^ 4 - 1 from rfl, Nat.and_two_pow_sub_one_eq_mod]
  omega

/-- The bit rate is that of the version and the index. -/
theorem bitrate_header : bitrate h.version.bits 1 h.rateIndex = some h.kilobits := by
  have hlen : h.rateIndex < h.version.rates.length := by
    have := h.rateIndex_lt
    cases h.version <;> exact this
  have hget : h.version.rates[h.rateIndex]? = some h.kilobits := by
    rw [FrameHeader.kilobits, List.getD_eq_getElem?_getD, List.getElem?_eq_getElem hlen,
      Option.getD_some]
  rw [← hget]
  unfold bitrate
  cases h.version <;> rfl

end Header

-- =============================================================== the scan

section Scan

variable {bytes before rest : Bytes} {offset : Nat}

/-- At a frame header it reads the rate. -/
theorem readMp3From_frame {h : FrameHeader} {fuel : Nat}
    (hbytes : bytes = before ++ (h.bytes ++ rest)) :
    readMp3From bytes objectSize (fuel + 1) before.length
      = if h.kilobits = 0 then none
        else some (((objectSize * 8 : Nat) : Rat) / (h.kilobits * 1000 : Nat)) := by
  have hdrop : bytes.drop before.length = 0xff :: UInt8.ofNat h.second
      :: UInt8.ofNat (16 * h.rateIndex + h.low) :: h.last :: rest := by
    rw [hbytes, List.drop_left]
    rfl
  have hlen : before.length + 4 ≤ bytes.length := by
    rw [hbytes]
    simp only [FrameHeader.bytes, List.length_append, List.length_cons]
    omega
  have hfirst : byteAt bytes before.length = 0xff := by
    rw [← Nat.add_zero before.length, byteAt_add, hdrop]
    rfl
  have hsecond : byteAt bytes (before.length + 1) = h.second := by
    rw [byteAt_add, hdrop, byteAt_cons_succ, byteAt_cons_zero, UInt8.toNat_ofNat',
      Nat.mod_eq_of_lt h.second_lt]
  have hthird : byteAt bytes (before.length + 2) = 16 * h.rateIndex + h.low := by
    rw [byteAt_add, hdrop, byteAt_cons_succ, byteAt_cons_succ, byteAt_cons_zero,
      UInt8.toNat_ofNat', Nat.mod_eq_of_lt h.third_lt]
  unfold readMp3From
  rw [if_pos hlen, hfirst, hsecond, hthird, syncs_second, if_pos (by decide)]
  simp only [version_second, layer_second, rateIndex_third, bitrate_header]

/-- Where fewer than four bytes are left, it finds none. -/
theorem readMp3From_end {fuel : Nat} (h : bytes.length < offset + 4) :
    readMp3From bytes objectSize fuel offset = none := by
  cases fuel with
  | zero => rfl
  | succ fuel =>
      unfold readMp3From
      rw [if_neg (Nat.not_le.mpr h)]

/-- What starts as an MP3 file and as no other format is inspected as one. -/
theorem inspectAssetBytes_mp3 {b : UInt8} (hstart : bytes = b :: rest) (hpng : b ≠ 0x89)
    (hriff : b ≠ 0x52) (hjpeg : hasPrefix bytes [0xff, 0xd8, 0xff] = false)
    (hmp3 : isMp3 bytes = true) :
    inspectAssetBytes bytes objectSize
      = some ⟨"audio/mpeg", .audio, none, none, readMp3Duration bytes objectSize⟩ := by
  have hnopng : hasPrefix bytes [0x89, 0x50, 0x4e, 0x47, 0x0d, 0x0a, 0x1a, 0x0a] = false := by
    rw [hstart]
    exact hasPrefix_eq_false fun h => hpng (UInt8.toNat_inj.mp h)
  have hnoriff : asciiAt bytes 0 "RIFF" = false := by
    rw [hstart]
    exact asciiAt_eq_false (by decide) rfl hriff
  unfold inspectAssetBytes
  rw [hjpeg, hnopng, hnoriff, hmp3]
  rfl

end Scan

-- =============================================================== the file

section File

variable {f : Mp3File}

/-- A byte that is written is read back. -/
theorem byteAt_ofNat {m : Nat} (h : m < 256) (rest : Bytes) :
    byteAt (UInt8.ofNat m :: rest) 0 = m := by
  rw [byteAt_cons_zero, UInt8.toNat_ofNat', Nat.mod_eq_of_lt h]

/-- The size of a tag is read back. -/
theorem readSynchsafe_tag {t : Id3Tag} (h : f.tag = some t) :
    readSynchsafe f.bytes 6 = t.content.length := by
  have hlt := t.size_lt
  have hbytes : f.bytes = (ascii "ID3" ++ (t.version ++ [t.flags]))
      ++ (synchsafeBytes t.content.length ++ (t.content ++ (f.header.bytes ++ f.rest))) := by
    simp only [Mp3File.bytes, Mp3File.before, h, Option.map_some, Option.getD_some, Id3Tag.bytes,
      List.append_assoc, List.cons_append, List.nil_append]
  have hlen : (ascii "ID3" ++ (t.version ++ [t.flags])).length = 6 := by
    simp only [List.length_append, length_ascii, t.version_length, List.length_singleton]
    rfl
  have hdrop : f.bytes.drop 6 = synchsafeBytes t.content.length
      ++ (t.content ++ (f.header.bytes ++ f.rest)) := by
    rw [hbytes, List.drop_left' hlen]
  have hfirst : byteAt f.bytes (6 + 0) = t.content.length / 2 ^ 21 := by
    rw [byteAt_add, hdrop]
    simp only [synchsafeBytes, List.cons_append]
    exact byteAt_ofNat (by omega) _
  have hsecond : byteAt f.bytes (6 + 1) = t.content.length / 2 ^ 14 % 2 ^ 7 := by
    rw [byteAt_add, hdrop]
    simp only [synchsafeBytes, List.cons_append, byteAt_cons_succ]
    exact byteAt_ofNat (by omega) _
  have hthird : byteAt f.bytes (6 + 2) = t.content.length / 2 ^ 7 % 2 ^ 7 := by
    rw [byteAt_add, hdrop]
    simp only [synchsafeBytes, List.cons_append, byteAt_cons_succ]
    exact byteAt_ofNat (by omega) _
  have hlast : byteAt f.bytes (6 + 3) = t.content.length % 2 ^ 7 := by
    rw [byteAt_add, hdrop]
    simp only [synchsafeBytes, List.cons_append, byteAt_cons_succ]
    exact byteAt_ofNat (by omega) _
  unfold readSynchsafe
  rw [show byteAt f.bytes 6 = _ from hfirst, hsecond, hthird, hlast, or_groups]

/-- The file starts with its tag, or with the first frame. -/
theorem mp3_starts (f : Mp3File) :
    (∃ t, f.tag = some t ∧ asciiAt f.bytes 0 "ID3" = true ∧ ∃ tail, f.bytes = 0x49 :: tail) ∨
    (f.tag = none ∧ asciiAt f.bytes 0 "ID3" = false ∧
      ∃ tail, f.bytes = 0xff :: UInt8.ofNat f.header.second :: tail) := by
  cases htag : f.tag with
  | some t =>
      have hbytes : f.bytes = [] ++ (ascii "ID3" ++ (t.version ++ (t.flags
          :: (synchsafeBytes t.content.length ++ (t.content ++ (f.header.bytes ++ f.rest)))))) := by
        simp only [Mp3File.bytes, Mp3File.before, htag, Option.map_some, Option.getD_some,
          Id3Tag.bytes, List.append_assoc, List.cons_append, List.nil_append]
      exact Or.inl ⟨t, rfl, asciiAt_append (by decide) hbytes rfl, _, hbytes⟩
  | none =>
      have hbytes : f.bytes = 0xff :: UInt8.ofNat f.header.second
          :: UInt8.ofNat (16 * f.header.rateIndex + f.header.low) :: f.header.last :: f.rest := by
        simp only [Mp3File.bytes, Mp3File.before, htag, Option.map_none, Option.getD_none,
          List.nil_append]
        rfl
      refine Or.inr ⟨rfl, ?_, _, hbytes⟩
      rw [hbytes]
      exact asciiAt_eq_false (by decide) rfl (by decide)

/-- The scan starts after the tag. -/
theorem scan_start (f : Mp3File) : (if asciiAt f.bytes 0 "ID3" then 10 + readSynchsafe f.bytes 6
    else 0) = f.before.length := by
  rcases mp3_starts f with ⟨t, htag, hword, -⟩ | ⟨htag, hword, -⟩
  · rw [if_pos hword, readSynchsafe_tag htag]
    simp [Mp3File.before, htag, t.length_bytes]
  · rw [if_neg (by simp [hword])]
    simp [Mp3File.before, htag]

/-- The size of a tag is within the first ten bytes. -/
theorem readSynchsafe_take {bytes : Bytes} (h : 10 ≤ n) :
    readSynchsafe (bytes.take n) 6 = readSynchsafe bytes 6 := by
  unfold readSynchsafe
  rw [byteAt_take (by omega), byteAt_take (by omega), byteAt_take (by omega),
    byteAt_take (by omega)]

/-- What the first bytes of the file tell: where the first frame is not among
them, nothing. -/
theorem readMp3Duration_take (f : Mp3File) (hn : 10 ≤ n) :
    readMp3Duration (f.bytes.take n) objectSize
      = if f.before.length + 4 ≤ n then f.seconds objectSize else none := by
  unfold readMp3Duration
  rw [asciiAt_take (show 0 + "ID3".length ≤ n from Nat.le_trans (by decide) hn),
    readSynchsafe_take hn, scan_start]
  split
  next hfits =>
      have htake : f.bytes.take n = f.before ++ (f.header.bytes
          ++ f.rest.take (n - f.before.length - 4)) := by
        have hheader : f.header.bytes.length = 4 := rfl
        rw [Mp3File.bytes, List.take_append, List.take_of_length_le (by omega), List.take_append,
          List.take_of_length_le (by omega), hheader]
      have hfuel : ∃ fuel, (f.bytes.take n).length = fuel + 1 := by
        refine Nat.exists_eq_add_one.mpr ?_
        rw [htake]
        simp only [FrameHeader.bytes, List.length_append, List.length_cons]
        omega
      obtain ⟨fuel, hfuel⟩ := hfuel
      rw [hfuel, readMp3From_frame htake]
      rfl
  next hlong =>
      refine readMp3From_end ?_
      have := List.length_take_le n f.bytes
      omega

/-- A range of the file tells its duration if the frame's header is in it. -/
theorem inspectAssetBytes_mp3_take (f : Mp3File) (hn : 10 ≤ n) :
    inspectAssetBytes (f.bytes.take n) objectSize = some ⟨"audio/mpeg", .audio, none, none,
      if f.before.length + 4 ≤ n then f.seconds objectSize else none⟩ := by
  obtain ⟨m, rfl⟩ := Nat.exists_eq_add_of_le' (Nat.le_trans (show 2 ≤ 10 by decide) hn)
  rw [← readMp3Duration_take f hn]
  rcases mp3_starts f with ⟨t, -, hword, tail, hbytes⟩ | ⟨-, -, tail, hbytes⟩
  · have htake : f.bytes.take (m + 2) = 0x49 :: tail.take (m + 1) := by
      rw [hbytes, List.take_succ_cons]
    refine inspectAssetBytes_mp3 htake (by decide) (by decide) ?_ ?_
    · rw [htake]
      exact hasPrefix_eq_false (by decide)
    · unfold isMp3
      rw [asciiAt_take (show 0 + "ID3".length ≤ m + 2 from Nat.le_trans (by decide) hn), hword,
        Bool.true_or]
  · have htake : f.bytes.take (m + 2) = 0xff :: UInt8.ofNat f.header.second :: tail.take m := by
      rw [hbytes, List.take_succ_cons, List.take_succ_cons]
    have hsecond : (UInt8.ofNat f.header.second).toNat = f.header.second := by
      rw [UInt8.toNat_ofNat', Nat.mod_eq_of_lt f.header.second_lt]
    refine inspectAssetBytes_mp3 htake (by decide) (by decide) ?_ ?_
    · rw [htake]
      have := second_ne f.header
      simp [hasPrefix, hsecond, this]
    · unfold isMp3
      rw [htake, byteAt_cons_succ, byteAt_cons_zero, byteAt_cons_zero, hsecond, syncs_second]
      simp

end File

-- ============================================================= the upload

/-- The seconds the inspection takes the object for. -/
def inspectedSeconds (f : Mp3File) : Option Rat :=
  if f.before.length + 4 ≤ inspectionRangeBytes then f.seconds f.bytes.length else none

/-- The upload was declared as what it is, and is not found too long. -/
def SoundPasses (f : Mp3File) (cfg : Config) (asset : ReportAsset) : Prop :=
  asset.type = .audio ∧ asset.declaredMimeType = "audio/mpeg" ∧
    ∀ s ∈ inspectedSeconds f, s ≤ (cfg.audioMaxDurationSeconds : Rat)

/-- The verdict on an upload of an MP3 file, both ways. -/
theorem verdict_mp3 (f : Mp3File) (cfg : Config) (asset : ReportAsset) :
    (SoundPasses f cfg asset → verdict cfg asset f.bytes
      = .ok ⟨"audio/mpeg", .audio, none, none, inspectedSeconds f⟩) ∧
    (¬ SoundPasses f cfg asset → ∃ rejection, verdict cfg asset f.bytes = .error rejection) := by
  have hverdict : verdict cfg asset f.bytes = inspectionRejection cfg asset
      (some ⟨"audio/mpeg", .audio, none, none, inspectedSeconds f⟩) := by
    unfold verdict
    rw [inspectAssetBytes_mp3_take f (by decide)]
    rfl
  rw [hverdict]
  constructor
  · rintro ⟨htype, hmime, hshort⟩
    have hlimit : ¬ ∃ s ∈ inspectedSeconds f, (cfg.audioMaxDurationSeconds : Rat) < s := by
      rintro ⟨s, hs, hlong⟩
      exact absurd (hshort s hs) (not_le.mpr hlong)
    rw [inspectionRejection, if_neg (by simp [htype, hmime]), if_neg (by simp),
      if_neg fun hlong => hlimit hlong.2]
  · intro hnot
    by_cases hdeclared : asset.type = .audio ∧ asset.declaredMimeType = "audio/mpeg"
    · have hlimit : ∃ s ∈ inspectedSeconds f, (cfg.audioMaxDurationSeconds : Rat) < s := by
        by_contra hnone
        refine hnot ⟨hdeclared.1, hdeclared.2, fun s hs => ?_⟩
        exact not_lt.mp fun hlong => hnone ⟨s, hs, hlong⟩
      rw [inspectionRejection, if_neg (by simp [hdeclared]), if_neg (by simp),
        if_pos ⟨rfl, hlimit⟩]
      exact ⟨_, rfl⟩
    · rw [inspectionRejection, if_pos]
      · exact ⟨_, rfl⟩
      · rw [not_and_or] at hdeclared
        exact hdeclared.imp Ne.symm id

/-- An MP3 upload is judged by its first frame: it is taken for as long as the
whole object, tag included, plays at the rate of that frame, and is rejected
where this is above the limit. Where the tag leaves no room for the frame among
the inspected bytes, it becomes READY without a duration, however long it is. -/
theorem mp3_judged_by_first_frame {cfg : Config} {v : Visit Call Choice} {i : Nat}
    {R : Rest Row Env} {userId : Id} {asset : ReportAsset} (f : Mp3File)
    (h : Deposited cfg R userId asset f.bytes) (ht : Timely cfg v i asset) :
    (SoundPasses f cfg asset → ∃ ready i' R',
      (confirmUpload cfg userId asset.reportId asset.id).Ends v i R (.ok ready) i' R' ∧
      asset? R'.db asset.id = some ready ∧ ready.status = .ready ∧
      ready.verifiedMimeType = some "audio/mpeg" ∧ ready.durationSeconds = inspectedSeconds f) ∧
    (¬ SoundPasses f cfg asset → BecomesRejected cfg v i R userId asset) := by
  obtain ⟨haccepts, hrejects⟩ := verdict_mp3 f cfg asset
  constructor
  · intro hpasses
    exact ⟨_, _, _, confirmUpload_accepts h ht (haccepts hpasses), asset?_put_asset _ _, rfl,
      rfl, rfl⟩
  · intro hnot
    obtain ⟨rejection, hrejection⟩ := hrejects hnot
    exact becomesRejected h ht hrejection

/-- A tag of eight bytes, and the first frame of a sound of 128 kilobits for each
second. -/
def taggedSound : Mp3File where
  tag := some
    { version := [4, 0], flags := 0, content := ascii "TIT2" ++ [0, 0, 0, 0],
      version_length := rfl, size_lt := by decide }
  header :=
    { version := .mpeg1, bare := true, rateIndex := 9, low := 0, last := 0,
      rateIndex_lt := by decide, low_lt := by decide }
  rest := []

/-- The sample plays eleven bytes at eight kilobits. -/
theorem inspectedSeconds_taggedSound : inspectedSeconds taggedSound = some (11 / 8000) := by
  decide +kernel

/-- Its 22 bytes are taken for 11 / 8000 seconds. -/
theorem mp3_judged_by_first_frame_tagged : ∃ ready i' R',
    (confirmUpload defaults 1 10 11).Ends promptVisit 0
      (sampleRest (sampleUpload .audio "audio/mpeg" taggedSound.bytes) taggedSound.bytes)
      (.ok ready) i' R' ∧ ready.durationSeconds = some (11 / 8000) := by
  have hpasses : SoundPasses taggedSound defaults
      (sampleUpload .audio "audio/mpeg" taggedSound.bytes) := by
    refine ⟨rfl, rfl, fun s hs => ?_⟩
    rw [inspectedSeconds_taggedSound] at hs
    cases hs
    show (11 / 8000 : Rat) ≤ (defaults.audioMaxDurationSeconds : Rat)
    decide +kernel
  obtain ⟨ready, i', R', hends, -, -, -, hduration⟩ := (mp3_judged_by_first_frame taggedSound
    (deposited_sample .audio "audio/mpeg" (by decide +kernel) (by decide +kernel))
    (timely_sample _)).1 hpasses
  exact ⟨ready, i', R', hends, hduration.trans inspectedSeconds_taggedSound⟩

end FastRep.Reports
