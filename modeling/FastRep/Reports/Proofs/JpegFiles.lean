/-
What the inspector reads from a JPEG file.

The scan goes from segment to segment by their lengths. It expects a marker
where a segment should begin, and looks at one byte for it: a fill byte in
front of a marker is taken for the marker itself, and the two bytes behind it
for a length. So the files are those without fill bytes (`Unfilled`), and for
these the scan reads what the frame header says.

# The scan

`readJpegFrom_segment` passes one segment, `readJpegFrom_segments` all before
the frame header, and `readJpegFrom_frame` reads the dimensions there. The
fuel is the number of bytes, and no segment is empty.

# The upload

A picture with dimensions above the limit is turned down
(`inspectionRejection_large`); without dimensions it is not. A file of
one huge picture with fill bytes goes through under every limit
(`jpeg_dimensions_hidden`): where the bytes that were read end before the
length the scan takes, there are no dimensions (`readJpegDimensions_filled`).
-/
import FastRep.Reports.Proofs.Readers
import FastRep.Reports.Proofs.Confirming
import FastRep.Format.Jpeg

namespace FastRep.Reports

open FastRep.Format FastRep.Txn

variable {bytes before rest : Bytes} {s : JpegSegment}

/-- The markers the code takes for frame headers are those of the format. -/
theorem isSof_eq (marker : UInt8) : isSof marker.toNat = isFrameHeader marker := by
  have hall : ∀ n < 256, isSof n = isFrameHeader (UInt8.ofNat n) := by decide +kernel
  rw [hall marker.toNat marker.toNat_lt, UInt8.ofNat_toNat]

-- ============================================================ one segment

theorem byteAt_length (b : UInt8) (h : bytes = before ++ b :: rest) :
    byteAt bytes before.length = b.toNat := by
  rw [show before.length = before.length + 0 from rfl, byteAt_add, h, List.drop_left]
  rfl

/-- A segment without fill bytes, at its offset. -/
structure Segment (bytes before : Bytes) (s : JpegSegment) : Prop where
  sync : byteAt bytes before.length = 0xff
  marker : byteAt bytes (before.length + 1) = s.marker.toNat
  length : readUint16Be bytes (before.length + 2) = s.payload.length + 2
  fits : before.length + (4 + s.payload.length) ≤ bytes.length

/-- A segment without fill bytes is read where it stands. -/
theorem Segment.of_eq (hfill : s.fill = 0) (h : bytes = before ++ (s.bytes ++ rest)) :
    Segment bytes before s := by
  have hbytes : bytes.drop before.length = 0xff :: s.marker ::
      (beBytes 2 (s.payload.length + 2) ++ (s.payload ++ rest)) := by
    rw [h, List.drop_left, JpegSegment.bytes, hfill]
    simp
  have hlen : before.length + (4 + s.payload.length) ≤ bytes.length := by
    rw [h, List.length_append, List.length_append, s.length_bytes, hfill]
    omega
  refine ⟨?_, ?_, ?_, hlen⟩
  · rw [← Nat.add_zero before.length, byteAt_add, hbytes]
    rfl
  · rw [byteAt_add, hbytes]
    rfl
  · rw [readUint16Be_eq (by omega), ← List.drop_drop, hbytes, List.drop_succ_cons,
      List.drop_succ_cons, List.drop_zero, List.take_left' (length_beBytes 2 _),
      beValue_beBytes s.length_lt]

-- ============================================================== the scan

/-- A marker with a segment is neither of the two the code passes over. -/
theorem standalone_ne {marker : UInt8} (h : isStandalone marker = false) :
    ¬ (marker.toNat = 0xd8 ∨ marker.toNat = 0xd9) := by
  rintro (hm | hm)
  · obtain rfl : marker = 0xd8 := UInt8.toNat_inj.mp hm
    exact absurd h (by decide)
  · obtain rfl : marker = 0xd9 := UInt8.toNat_inj.mp hm
    exact absurd h (by decide)

/-- The scan passes a segment that is not a frame header. -/
theorem readJpegFrom_segment {fuel : Nat} (h : Segment bytes before s)
    (hframe : isFrameHeader s.marker = false) (hrest : before.length + 8 < bytes.length) :
    readJpegFrom bytes (fuel + 1) before.length
      = readJpegFrom bytes fuel (before.length + (4 + s.payload.length)) := by
  have hfits := h.fits
  rw [readJpegFrom, if_pos hrest, h.sync, h.marker, h.length]
  simp only [ne_eq, not_true_eq_false, if_false]
  rw [if_neg (standalone_ne s.not_standalone), if_neg (by omega), isSof_eq, hframe,
    if_neg (by decide)]
  congr 1
  omega

/-- It passes the segments before the frame header. -/
theorem readJpegFrom_segments {segments : List JpegSegment} {fuel : Nat}
    (hsegments : ∀ s ∈ segments, isFrameHeader s.marker = false ∧ s.fill = 0)
    (h : bytes = before ++ (segments.flatMap JpegSegment.bytes ++ rest)) (hrest : 9 ≤ rest.length) :
    readJpegFrom bytes (fuel + segments.length) before.length
      = readJpegFrom bytes fuel (before ++ segments.flatMap JpegSegment.bytes).length := by
  induction segments generalizing before with
  | nil => rw [List.flatMap_nil, List.append_nil, List.length_nil, Nat.add_zero]
  | cons s segments ih =>
      obtain ⟨hframe, hfill⟩ := hsegments s List.mem_cons_self
      rw [List.flatMap_cons, List.append_assoc] at h
      have hlen : before.length + 8 < bytes.length := by
        rw [h]
        simp only [List.length_append, s.length_bytes]
        omega
      have hnext : before.length + (4 + s.payload.length) = (before ++ s.bytes).length := by
        rw [List.length_append, s.length_bytes, hfill]
        omega
      rw [List.length_cons, ← Nat.add_assoc, readJpegFrom_segment (.of_eq hfill h) hframe hlen,
        hnext, ih (fun s hs => hsegments s (List.mem_cons_of_mem _ hs))
          (by rw [h, List.append_assoc before]), List.flatMap_cons, List.append_assoc]

/-- At a frame header it reads the dimensions. -/
theorem readJpegFrom_frame {fuel : Nat} (h : bytes = before ++ (s.bytes ++ rest))
    (hfill : s.fill = 0) (hframe : isFrameHeader s.marker = true)
    (hcomplete : 5 ≤ s.payload.length) :
    readJpegFrom bytes (fuel + 1) before.length
      = (some (beValue ((s.payload.drop 3).take 2)), some (beValue ((s.payload.drop 1).take 2))) := by
  have hseg : Segment bytes before s := .of_eq hfill h
  have hfits := hseg.fits
  have hread : ∀ i, i + 2 ≤ s.payload.length →
      readUint16Be bytes (before.length + (4 + i)) = beValue ((s.payload.drop i).take 2) := by
    intro i hi
    have hdrop : bytes.drop before.length = (0xff :: s.marker
        :: beBytes 2 (s.payload.length + 2)) ++ (s.payload ++ rest) := by
      rw [h, List.drop_left, JpegSegment.bytes, hfill]
      simp
    have hpast : bytes.drop (before.length + (4 + i)) = s.payload.drop i ++ rest := by
      rw [← List.drop_drop, ← List.drop_drop, hdrop,
        List.drop_left' (by rw [List.length_cons, List.length_cons, length_beBytes]),
        List.drop_append_of_le_length (by omega)]
    rw [readUint16Be_eq (by omega), hpast,
      List.take_append_of_le_length (by rw [List.length_drop]; omega)]
  rw [readJpegFrom, if_pos (by omega), hseg.sync, hseg.marker, hseg.length]
  simp only [ne_eq, not_true_eq_false, if_false]
  rw [if_neg (standalone_ne s.not_standalone), if_neg (by omega), isSof_eq, hframe, if_pos rfl,
    ← hread 3 (by omega), ← hread 1 (by omega)]

/-- At a fill byte it takes the bytes two places on for a length. -/
theorem le_readUint16Be_filled (h : bytes = before ++ (s.bytes ++ rest)) (hfill : s.fill ≠ 0) :
    byteAt bytes before.length = 0xff ∧ byteAt bytes (before.length + 1) = 0xff
      ∧ 256 * s.marker.toNat ≤ readUint16Be bytes (before.length + 2) := by
  obtain ⟨k, hk⟩ := Nat.exists_eq_succ_of_ne_zero hfill
  have hdrop : bytes.drop before.length = 0xff :: (List.replicate k 0xff ++ (0xff :: s.marker
      :: beBytes 2 (s.payload.length + 2) ++ s.payload ++ rest)) := by
    rw [h, List.drop_left, JpegSegment.bytes, hk, List.replicate_succ]
    simp
  have hzero : byteAt bytes before.length = 0xff := by
    rw [← Nat.add_zero before.length, byteAt_add, hdrop]
    rfl
  refine ⟨hzero, ?_, ?_⟩
  · rw [byteAt_add, hdrop, byteAt_cons_succ]
    cases k <;> rfl
  · have htwo : s.marker.toNat ≤ byteAt bytes (before.length + 2) := by
      rw [byteAt_add, hdrop, byteAt_cons_succ]
      rcases k with _ | _ | k
      · exact le_refl _
      · exact Nat.le_of_lt_succ s.marker.toNat_lt
      · exact Nat.le_of_lt_succ s.marker.toNat_lt
    rw [readUint16Be]
    omega

/-- Where the bytes end before that length, the scan gives up. -/
theorem readJpegFrom_filled {fuel : Nat} (h : bytes = before ++ (s.bytes ++ rest))
    (hfill : s.fill ≠ 0) (hshort : bytes.length < before.length + 256 * s.marker.toNat + 2) :
    readJpegFrom bytes fuel before.length = (none, none) := by
  obtain ⟨hsync, hmarker, hlength⟩ := le_readUint16Be_filled h hfill
  cases fuel with
  | zero => rfl
  | succ fuel =>
      rw [readJpegFrom]
      by_cases hrest : before.length + 8 < bytes.length
      · rw [if_pos hrest, hsync, hmarker]
        simp only [ne_eq, not_true_eq_false, if_false]
        rw [if_neg (by decide), if_pos (by omega)]
      · rw [if_neg hrest]

-- ========================================================= the dimensions

/-- No segment is empty, so there are at most as many segments as bytes. -/
theorem length_segments_le (segments : List JpegSegment) :
    segments.length ≤ (segments.flatMap JpegSegment.bytes).length := by
  induction segments with
  | nil => rfl
  | cons s segments ih =>
      rw [List.flatMap_cons, List.length_append, s.length_bytes, List.length_cons]
      omega

/-- The scan gets to the segment after so many without fill bytes. -/
theorem readJpegDimensions_reaches {f : JpegFile} {segments : List JpegSegment} {rest : Bytes}
    (hsegments : ∀ s ∈ segments, isFrameHeader s.marker = false ∧ s.fill = 0)
    (h : f.bytes = [0xff, 0xd8] ++ (segments.flatMap JpegSegment.bytes ++ rest))
    (hrest : 9 ≤ rest.length) :
    ∃ fuel, readJpegDimensions f.bytes = readJpegFrom f.bytes (fuel + 1)
      ([0xff, 0xd8] ++ segments.flatMap JpegSegment.bytes).length := by
  obtain ⟨fuel, hfuel⟩ : ∃ fuel, f.bytes.length = fuel + 1 + segments.length := by
    have := length_segments_le segments
    refine ⟨f.bytes.length - 1 - segments.length, ?_⟩
    rw [h]
    simp only [List.length_append, List.length_cons]
    omega
  refine ⟨fuel, ?_⟩
  rw [readJpegDimensions, hfuel]
  exact readJpegFrom_segments hsegments h hrest

/-- A frame header has room for the dimensions. -/
theorem length_frame_le (f : JpegFile) : 9 ≤ f.frame.bytes.length := by
  rw [f.frame.length_bytes]
  have := f.frame_complete
  omega

/-- Without fill bytes the dimensions are those of the frame header. -/
theorem readJpegDimensions_eq {f : JpegFile} (h : f.Unfilled) :
    readJpegDimensions f.bytes = (some f.width, some f.height) := by
  have hfill : ∀ s ∈ f.segments, isFrameHeader s.marker = false ∧ s.fill = 0 := fun s hs =>
    ⟨(f.segments_before s hs).1, h s (List.mem_append_left _ hs)⟩
  have hframe : f.frame.fill = 0 := h f.frame (List.mem_append_right _ List.mem_cons_self)
  obtain ⟨fuel, hreach⟩ := readJpegDimensions_reaches hfill (f := f) rfl (by
    rw [List.length_append]
    exact le_trans (length_frame_le f) (Nat.le_add_right _ _))
  have hbytes : f.bytes = ([0xff, 0xd8] ++ f.segments.flatMap JpegSegment.bytes)
      ++ (f.frame.bytes ++ f.rest) := by
    rw [JpegFile.bytes, List.append_assoc]
  rw [hreach]
  exact readJpegFrom_frame hbytes hframe f.frame_marker f.frame_complete

/-- With a fill byte that the bytes end too soon after, there are no
dimensions. -/
theorem readJpegDimensions_filled {f : JpegFile} {segments after : List JpegSegment}
    {s : JpegSegment} (h : f.segments ++ [f.frame] = segments ++ s :: after)
    (hbefore : ∀ s ∈ segments, s.fill = 0) (hfill : s.fill ≠ 0)
    (hshort : f.bytes.length < 4 + (segments.flatMap JpegSegment.bytes).length
      + 256 * s.marker.toNat) :
    readJpegDimensions f.bytes = (none, none) := by
  have hsegments : ∀ t ∈ segments, isFrameHeader t.marker = false ∧ t.fill = 0 := by
    intro t ht
    have hinit : f.segments = segments ++ (s :: after).dropLast := by
      rw [← List.dropLast_append_of_ne_nil (by simp), ← h, List.dropLast_concat]
    exact ⟨(f.segments_before t (hinit ▸ List.mem_append_left _ ht)).1, hbefore t ht⟩
  have hflat := congrArg (List.flatMap JpegSegment.bytes) h
  simp only [List.flatMap_append, List.flatMap_cons, List.flatMap_nil, List.append_nil] at hflat
  have hbytes : f.bytes = [0xff, 0xd8] ++ (segments.flatMap JpegSegment.bytes
      ++ (s.bytes ++ (after.flatMap JpegSegment.bytes ++ f.rest))) := by
    rw [JpegFile.bytes, ← List.append_assoc (f.segments.flatMap _), hflat]
    simp only [List.append_assoc]
  have hlast : f.frame ∈ s :: after := by
    have hget := congrArg List.getLast? h
    rw [List.getLast?_concat, List.getLast?_append_cons] at hget
    exact List.mem_of_getLast? hget.symm
  have hlong : 9 ≤ (s.bytes ++ (after.flatMap JpegSegment.bytes ++ f.rest)).length := by
    obtain ⟨l, r, hlr⟩ := List.append_of_mem hlast
    have hmem := congrArg (fun l => (l.flatMap JpegSegment.bytes).length) hlr
    simp only [List.flatMap_append, List.flatMap_cons, List.length_append] at hmem
    have := length_frame_le f
    rw [List.length_append, List.length_append]
    omega
  obtain ⟨fuel, hreach⟩ := readJpegDimensions_reaches hsegments hbytes hlong
  rw [hreach]
  rw [← List.append_assoc] at hbytes
  refine readJpegFrom_filled hbytes hfill ?_
  rw [List.length_append]
  simp only [List.length_cons, List.length_nil]
  omega

-- ============================================================= the upload

/-- A file starts with the marker of its beginning and that of a segment. -/
theorem JpegFile.bytes_eq (f : JpegFile) : ∃ tail, f.bytes = 0xff :: 0xd8 :: 0xff :: tail := by
  have hstarts : ∀ s : JpegSegment, ∃ tail, s.bytes = 0xff :: tail := by
    intro s
    rw [JpegSegment.bytes]
    cases s.fill with
    | zero => exact ⟨_, rfl⟩
    | succ k => exact ⟨_, rfl⟩
  rw [JpegFile.bytes]
  cases f.segments with
  | nil =>
      obtain ⟨tail, h⟩ := hstarts f.frame
      exact ⟨tail ++ f.rest, by rw [h]; rfl⟩
  | cons s segments =>
      obtain ⟨tail, h⟩ := hstarts s
      exact ⟨_, by rw [List.flatMap_cons, h]; rfl⟩

/-- A JPEG file is inspected as one, with the dimensions that are read from
it. -/
theorem inspectAssetBytes_jpeg (f : JpegFile) (objectSize : Nat) :
    inspectAssetBytes f.bytes objectSize = some ⟨"image/jpeg", .image,
      (readJpegDimensions f.bytes).1, (readJpegDimensions f.bytes).2, none⟩ := by
  obtain ⟨tail, h⟩ := JpegFile.bytes_eq f
  rw [inspectAssetBytes, if_pos]
  rw [h]
  rfl

/-- A picture that is too large is turned down, whatever was declared. -/
theorem inspectionRejection_large {cfg : Config} {asset : ReportAsset}
    {inspection : AssetInspection} {width height : Nat} (htype : inspection.type = .image)
    (hwidth : inspection.width = some width) (hheight : inspection.height = some height)
    (hlarge : cfg.imageMaxWidth < width ∨ cfg.imageMaxHeight < height) :
    ∃ rejection, inspectionRejection cfg asset (some inspection) = .error rejection := by
  rw [inspectionRejection]
  split
  · exact ⟨_, rfl⟩
  · rw [if_pos]
    · exact ⟨_, rfl⟩
    · refine ⟨htype, hlarge.imp (fun hw => ?_) fun hh => ?_⟩
      · exact ⟨width, hwidth, hw⟩
      · exact ⟨height, hheight, hh⟩

/-- The files without fill bytes: the dimensions read are those of the frame
header, and a picture above the limits is rejected. A fill byte before a marker
hides the dimensions where the bytes end soon enough after it. -/
theorem jpeg_dimensions_read (f : JpegFile) :
    (f.Unfilled → readJpegDimensions f.bytes = (some f.width, some f.height) ∧
      ∀ (cfg : Config) (v : Visit Call Choice) (i : Nat) (R : Rest Row Env) (userId : Id)
        (asset : ReportAsset) (bytes : Bytes), Deposited cfg R userId asset bytes →
        Timely cfg v i asset → bytes.take inspectionRangeBytes = f.bytes →
        cfg.imageMaxWidth < f.width ∨ cfg.imageMaxHeight < f.height →
        BecomesRejected cfg v i R userId asset) ∧
    ∀ {segments after : List JpegSegment} {s : JpegSegment},
      f.segments ++ [f.frame] = segments ++ s :: after → (∀ s ∈ segments, s.fill = 0) →
      s.fill ≠ 0 → f.bytes.length < 4 + (segments.flatMap JpegSegment.bytes).length
        + 256 * s.marker.toNat →
      readJpegDimensions f.bytes = (none, none) := by
  refine ⟨fun h => ⟨readJpegDimensions_eq h, ?_⟩, readJpegDimensions_filled⟩
  intro cfg v i R userId asset bytes hdep ht hbytes hlarge
  have hverdict : ∃ rejection, verdict cfg asset bytes = .error rejection := by
    rw [verdict, hbytes, inspectAssetBytes_jpeg, readJpegDimensions_eq h]
    exact inspectionRejection_large rfl rfl rfl hlarge
  obtain ⟨rejection, hrejection⟩ := hverdict
  exact becomesRejected hdep ht hrejection

/-- A picture of 65535 by 65535 samples: a JFIF segment, and then so many fill
bytes before the frame header. -/
def hugePicture (fill : Nat) : JpegFile where
  segments := [⟨0, 0xe0, [0x4a, 0x46, 0x49, 0x46, 0, 1, 1, 0, 0, 1, 0, 1, 0, 0], by decide,
    by decide, by decide⟩]
  frame := ⟨fill, 0xc0, 8 :: beBytes 2 65535 ++ beBytes 2 65535 ++ [1, 1, 0x11, 0], by decide,
    by decide, by decide⟩
  rest := [0xff, 0xd9]
  segments_before := by
    intro s hs
    obtain rfl := List.mem_singleton.mp hs
    decide
  frame_marker := rfl
  frame_complete := by simp

/-- Without a fill byte the picture is turned down. -/
theorem jpeg_dimensions_read_unfilled :
    readJpegDimensions (hugePicture 0).bytes = (some 65535, some 65535) ∧
    BecomesRejected defaults promptVisit 0
      (sampleRest (sampleUpload .image "image/jpeg" (hugePicture 0).bytes) (hugePicture 0).bytes) 1
      (sampleUpload .image "image/jpeg" (hugePicture 0).bytes) := by
  have hunfilled : (hugePicture 0).Unfilled := by
    simp [JpegFile.Unfilled, hugePicture]
  obtain ⟨hread, hreject⟩ := (jpeg_dimensions_read (hugePicture 0)).1 hunfilled
  refine ⟨hread, hreject defaults promptVisit 0 _ 1 _ (hugePicture 0).bytes
    (deposited_sample .image "image/jpeg" (by decide +kernel) (by decide +kernel))
    (timely_sample _) (by decide +kernel) ?_⟩
  exact Or.inl (by decide +kernel)

/-- A fill byte hides the size of the picture, and the upload is accepted under
every limit. -/
theorem jpeg_dimensions_hidden : (hugePicture 1).width = 65535 ∧ (hugePicture 1).height = 65535 ∧
    readJpegDimensions (hugePicture 1).bytes = (none, none) ∧
    ∀ (cfg : Config) (asset : ReportAsset), asset.type = .image →
      asset.declaredMimeType = "image/jpeg" →
      verdict cfg asset (hugePicture 1).bytes = .ok ⟨"image/jpeg", .image, none, none, none⟩ := by
  refine ⟨by decide +kernel, by decide +kernel, by decide +kernel, fun cfg asset htype hmime => ?_⟩
  have hinspect : inspectAssetBytes ((hugePicture 1).bytes.take inspectionRangeBytes)
      (hugePicture 1).bytes.length = some ⟨"image/jpeg", .image, none, none, none⟩ := by
    decide +kernel
  rw [verdict, hinspect, inspectionRejection, htype, hmime]
  simp

end FastRep.Reports
