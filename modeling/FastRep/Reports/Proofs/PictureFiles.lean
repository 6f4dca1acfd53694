/-
What the inspector reads from a picture: the size its file gives, for the
three types there are.

PNG has the size at a fixed place. WebP has three headers, and each is read by
its own rule: a mask takes the scale off the lossy numbers, shifts take the
lossless word apart, and the numbers that are less by one are put right. JPEG
without fill bytes is `JpegFiles.lean`. The bit operations of the code become
arithmetic in `Format/Pictures.lean`.

`PictureFile` is any of these files, and `picture_judged_by_file` the verdict
on its upload, both ways: what was declared as what it is and is within the
limits becomes READY, and everything else is rejected.
-/
import FastRep.Reports.Proofs.JpegFiles
import FastRep.Format.Pictures

namespace FastRep.Reports

open FastRep.Format FastRep.Txn

variable {objectSize : Nat}

-- ==================================================================== PNG

/-- A PNG file is inspected as one, with its dimensions. -/
theorem inspectAssetBytes_png (f : PngFile) :
    inspectAssetBytes f.bytes objectSize
      = some ⟨"image/png", .image, some f.width, some f.height, none⟩ := by
  have hstart : ∃ tail, f.bytes = 0x89 :: 0x50 :: 0x4e :: 0x47 :: 0x0d :: 0x0a :: 0x1a :: 0x0a
      :: tail := ⟨_, rfl⟩
  have hwidth : readUint32Be f.bytes 16 = f.width :=
    readUint32Be_field rfl rfl f.width_lt
  have hafter : f.bytes = (PngFile.before ++ beBytes 4 f.width)
      ++ (beBytes 4 f.height ++ f.rest) := by
    rw [PngFile.bytes, List.append_assoc]
  have hheight : readUint32Be f.bytes 20 = f.height :=
    readUint32Be_field hafter rfl f.height_lt
  have hjpeg : hasPrefix f.bytes [0xff, 0xd8, 0xff] = false := by
    obtain ⟨tail, h⟩ := hstart
    rw [h]
    exact hasPrefix_eq_false (by decide)
  have hpng : hasPrefix f.bytes [0x89, 0x50, 0x4e, 0x47, 0x0d, 0x0a, 0x1a, 0x0a] = true := by
    obtain ⟨tail, h⟩ := hstart
    rw [h]
    rfl
  rw [inspectAssetBytes, hjpeg, if_neg (by decide), if_pos hpng, hwidth, hheight]

-- =================================================================== WebP

section Webp

variable {f : WebpFile}

/-- The name of the first chunk is that of the file's header. -/
theorem asciiAt_name (f : WebpFile) (word : String) (hnarrow : narrow word = true)
    (hlength : word.length = 4) :
    asciiAt f.bytes 12 word = decide (ascii f.header.name = ascii word) := by
  have hbytes : f.bytes = (ascii "RIFF" ++ (f.riffSize ++ ascii "WEBP"))
      ++ (ascii f.header.name ++ (f.chunkSize ++ (f.header.bytes ++ f.rest))) := by
    simp only [WebpFile.bytes, WebpFile.before, List.append_assoc]
  have hlen : (ascii "RIFF" ++ (f.riffSize ++ ascii "WEBP")).length = 12 := by
    simp only [List.length_append, length_ascii, f.riffSize_length]
    rfl
  rw [Bool.eq_iff_iff, asciiAt_iff hnarrow, hlength, hbytes, List.drop_left' hlen,
    List.take_left' (by rw [length_ascii, f.header.length_name]), decide_eq_true_iff]

/-- At the header of a lossy picture. -/
theorem readWebpDimensions_lossy {h : LossyHeader} (hheader : f.header = .lossy h) :
    readWebpDimensions f.bytes = (some h.width, some h.height) := by
  have hname := asciiAt_name f
  simp only [hheader, WebpHeader.name] at hname
  have hbytes : f.bytes = f.before ++ (h.frameTag ++ ([0x9d, 0x01, 0x2a]
      ++ (leBytes 2 (h.width + 2 ^ 14 * h.horizontalScale)
        ++ (leBytes 2 (h.height + 2 ^ 14 * h.verticalScale) ++ f.rest)))) := by
    rw [WebpFile.bytes, hheader, WebpHeader.bytes, LossyHeader.bytes]
    simp only [List.append_assoc]
  have hlen : 30 ≤ f.bytes.length := by
    rw [hbytes]
    simp only [List.length_append, f.length_before, h.frameTag_length, length_leBytes,
      List.length_cons]
    omega
  have hcode : f.bytes.drop 23 = [0x9d, 0x01, 0x2a]
      ++ (leBytes 2 (h.width + 2 ^ 14 * h.horizontalScale)
        ++ (leBytes 2 (h.height + 2 ^ 14 * h.verticalScale) ++ f.rest)) := by
    rw [hbytes, ← List.append_assoc]
    exact List.drop_left' (by rw [List.length_append, f.length_before, h.frameTag_length])
  have hfirst : byteAt f.bytes (23 + 0) = 0x9d := by
    rw [byteAt_add, hcode]
    rfl
  have hsecond : byteAt f.bytes (23 + 1) = 0x01 := by
    rw [byteAt_add, hcode]
    rfl
  have hthird : byteAt f.bytes (23 + 2) = 0x2a := by
    rw [byteAt_add, hcode]
    rfl
  have hbeforeWidth : f.bytes = (f.before ++ (h.frameTag ++ [0x9d, 0x01, 0x2a]))
      ++ (leBytes 2 (h.width + 2 ^ 14 * h.horizontalScale)
        ++ (leBytes 2 (h.height + 2 ^ 14 * h.verticalScale) ++ f.rest)) := by
    rw [hbytes]
    simp only [List.append_assoc]
  have hwidth : readUint16Le f.bytes 26 = h.width + 2 ^ 14 * h.horizontalScale :=
    readUint16Le_field hbeforeWidth (by simp [f.length_before, h.frameTag_length]) h.width_field_lt
  have hbeforeHeight : f.bytes = (f.before ++ (h.frameTag ++ ([0x9d, 0x01, 0x2a]
      ++ leBytes 2 (h.width + 2 ^ 14 * h.horizontalScale))))
      ++ (leBytes 2 (h.height + 2 ^ 14 * h.verticalScale) ++ f.rest) := by
    rw [hbytes]
    simp only [List.append_assoc]
  have hheight : readUint16Le f.bytes 28 = h.height + 2 ^ 14 * h.verticalScale :=
    readUint16Le_field hbeforeHeight (by simp [f.length_before, h.frameTag_length])
      h.height_field_lt
  have hextended : asciiAt f.bytes 12 "VP8X" = false :=
    (hname "VP8X" (by decide) rfl).trans (by decide)
  have hlossless : asciiAt f.bytes 12 "VP8L" = false :=
    (hname "VP8L" (by decide) rfl).trans (by decide)
  have hlossy : asciiAt f.bytes 12 "VP8 " = true :=
    (hname "VP8 " (by decide) rfl).trans (by decide)
  simp only [readWebpDimensions, hextended, hlossless, hlossy, hlen, hfirst, hsecond, hthird,
    hwidth, hheight, Bool.false_and, Bool.false_eq_true, if_false, decide_true, Bool.and_self,
    if_true, show 0x3fff = 2 ^ 14 - 1 from rfl, low_bits h.width_lt, low_bits h.height_lt]

/-- At the header of a lossless picture. -/
theorem readWebpDimensions_lossless {h : LosslessHeader} (hheader : f.header = .lossless h) :
    readWebpDimensions f.bytes = (some h.width, some h.height) := by
  have hname := asciiAt_name f
  simp only [hheader, WebpHeader.name] at hname
  have hbytes : f.bytes = f.before ++ (0x2f :: (leBytes 4 h.packed ++ f.rest)) := by
    rw [WebpFile.bytes, hheader, WebpHeader.bytes, LosslessHeader.bytes, List.cons_append]
  have hlen : 25 ≤ f.bytes.length := by
    rw [hbytes]
    simp only [List.length_append, f.length_before, length_leBytes, List.length_cons]
    omega
  have hcode : byteAt f.bytes 20 = 0x2f := by
    rw [← f.length_before]
    exact byteAt_length 0x2f hbytes
  have hbeforeWord : f.bytes = (f.before ++ [0x2f]) ++ (leBytes 4 h.packed ++ f.rest) := by
    rw [hbytes, List.append_assoc]
    rfl
  have hread : readUint32Le f.bytes 21 = h.packed :=
    readUint32Le_field hbeforeWord (by simp [f.length_before]) h.packed_lt
  have hwidth : h.width - 1 < 2 ^ 14 := by
    have := h.width_pos
    have := h.width_le
    omega
  have hheight : h.height - 1 < 2 ^ 14 := by
    have := h.height_pos
    have := h.height_le
    omega
  have hextended : asciiAt f.bytes 12 "VP8X" = false :=
    (hname "VP8X" (by decide) rfl).trans (by decide)
  have hlossless : asciiAt f.bytes 12 "VP8L" = true :=
    (hname "VP8L" (by decide) rfl).trans (by decide)
  simp only [readWebpDimensions, hextended, hlossless, hlen, hcode, hread, Bool.false_and,
    Bool.false_eq_true, if_false, decide_true, Bool.and_self, if_true, LosslessHeader.packed,
    show 0x3fff = 2 ^ 14 - 1 from rfl, low_bits hwidth, high_bits hwidth, low_bits hheight,
    Nat.sub_add_cancel h.width_pos, Nat.sub_add_cancel h.height_pos]

/-- At the header of an extended file. -/
theorem readWebpDimensions_extended {h : ExtendedHeader} (hheader : f.header = .extended h) :
    readWebpDimensions f.bytes = (some h.width, some h.height) := by
  have hname := asciiAt_name f
  simp only [hheader, WebpHeader.name] at hname
  have hbytes : f.bytes = f.before ++ (h.flags ++ (leBytes 3 (h.width - 1)
      ++ (leBytes 3 (h.height - 1) ++ f.rest))) := by
    rw [WebpFile.bytes, hheader, WebpHeader.bytes, ExtendedHeader.bytes]
    simp only [List.append_assoc]
  have hlen : 30 ≤ f.bytes.length := by
    rw [hbytes]
    simp only [List.length_append, f.length_before, h.flags_length, length_leBytes]
    omega
  have hbeforeWidth : f.bytes = (f.before ++ h.flags) ++ (leBytes 3 (h.width - 1)
      ++ (leBytes 3 (h.height - 1) ++ f.rest)) := by
    rw [hbytes, List.append_assoc]
  have hwidth : readUint24Le f.bytes 24 = h.width - 1 :=
    readUint24Le_field hbeforeWidth (by simp [f.length_before, h.flags_length])
      (by have := h.width_pos; have := h.width_le; omega)
  have hbeforeHeight : f.bytes = (f.before ++ (h.flags ++ leBytes 3 (h.width - 1)))
      ++ (leBytes 3 (h.height - 1) ++ f.rest) := by
    rw [hbytes]
    simp only [List.append_assoc]
  have hheight : readUint24Le f.bytes 27 = h.height - 1 :=
    readUint24Le_field hbeforeHeight (by simp [f.length_before, h.flags_length])
      (by have := h.height_pos; have := h.height_le; omega)
  have hextended : asciiAt f.bytes 12 "VP8X" = true :=
    (hname "VP8X" (by decide) rfl).trans (by decide)
  simp only [readWebpDimensions, hextended, hlen, decide_true, Bool.and_self, if_true, hwidth,
    hheight, Nat.add_sub_cancel' h.width_pos, Nat.add_sub_cancel' h.height_pos]

/-- The dimensions of each of the three headers are read. -/
theorem readWebpDimensions_eq (f : WebpFile) :
    readWebpDimensions f.bytes = (some f.header.width, some f.header.height) := by
  cases hheader : f.header with
  | lossy h => exact readWebpDimensions_lossy hheader
  | lossless h => exact readWebpDimensions_lossless hheader
  | extended h => exact readWebpDimensions_extended hheader

/-- A WebP file is inspected as one, with its dimensions. -/
theorem inspectAssetBytes_webp (f : WebpFile) :
    inspectAssetBytes f.bytes objectSize
      = some ⟨"image/webp", .image, some f.header.width, some f.header.height, none⟩ := by
  have hstart : ∃ tail, f.bytes = 0x52 :: tail := ⟨_, rfl⟩
  obtain ⟨tail, h⟩ := hstart
  have hjpeg : hasPrefix f.bytes [0xff, 0xd8, 0xff] = false := by
    rw [h]
    exact hasPrefix_eq_false (by decide)
  have hpng : hasPrefix f.bytes [0x89, 0x50, 0x4e, 0x47, 0x0d, 0x0a, 0x1a, 0x0a] = false := by
    rw [h]
    exact hasPrefix_eq_false (by decide)
  have hbytes : f.bytes = [] ++ (ascii "RIFF" ++ (f.riffSize ++ (ascii "WEBP"
      ++ (ascii f.header.name ++ (f.chunkSize ++ (f.header.bytes ++ f.rest)))))) := by
    simp only [WebpFile.bytes, WebpFile.before, List.append_assoc, List.nil_append]
  have hriff : asciiAt f.bytes 0 "RIFF" = true := asciiAt_append (by decide) hbytes rfl
  rw [List.nil_append, ← List.append_assoc] at hbytes
  have hwebp : asciiAt f.bytes 8 "WEBP" = true := asciiAt_append (by decide) hbytes (by
    rw [List.length_append, length_ascii, f.riffSize_length]
    rfl)
  rw [inspectAssetBytes, hjpeg, hpng, hriff, hwebp, readWebpDimensions_eq, if_neg (by decide),
    if_neg (by decide), Bool.and_self, if_pos rfl]

end Webp

-- ============================================================= the upload

/-- A picture whose size the inspector reads: a PNG file, a WebP file, or a JPEG
file without fill bytes. -/
inductive PictureFile
  | png (f : PngFile)
  | webp (f : WebpFile)
  | jpeg (f : JpegFile) (h : f.Unfilled)

namespace PictureFile

def bytes : PictureFile → Bytes
  | png f => f.bytes
  | webp f => f.bytes
  | jpeg f _ => f.bytes

def mimeType : PictureFile → String
  | png _ => "image/png"
  | webp _ => "image/webp"
  | jpeg _ _ => "image/jpeg"

def width : PictureFile → Nat
  | png f => f.width
  | webp f => f.header.width
  | jpeg f _ => f.width

def height : PictureFile → Nat
  | png f => f.height
  | webp f => f.header.height
  | jpeg f _ => f.height

/-- The upload was declared as what it is, and the picture is within the
limits. -/
def Fits (f : PictureFile) (cfg : Config) (asset : ReportAsset) : Prop :=
  asset.type = .image ∧ asset.declaredMimeType = f.mimeType ∧
    f.width ≤ cfg.imageMaxWidth ∧ f.height ≤ cfg.imageMaxHeight

/-- What the inspection of the picture gives. -/
def inspection (f : PictureFile) : AssetInspection :=
  ⟨f.mimeType, .image, some f.width, some f.height, none⟩

end PictureFile

theorem inspectAssetBytes_picture (f : PictureFile) :
    inspectAssetBytes f.bytes objectSize = some f.inspection := by
  cases f with
  | png f => exact inspectAssetBytes_png f
  | webp f => exact inspectAssetBytes_webp f
  | jpeg f h =>
      rw [show (PictureFile.jpeg f h).bytes = f.bytes from rfl, inspectAssetBytes_jpeg,
        readJpegDimensions_eq h]
      rfl

/-- The verdict accepts a picture exactly when it fits. -/
theorem inspectionRejection_picture (f : PictureFile) (cfg : Config) (asset : ReportAsset) :
    (f.Fits cfg asset → inspectionRejection cfg asset (some f.inspection) = .ok f.inspection) ∧
    (¬ f.Fits cfg asset →
      ∃ rejection, inspectionRejection cfg asset (some f.inspection) = .error rejection) := by
  constructor
  · rintro ⟨htype, hmime, hwidth, hheight⟩
    simp [inspectionRejection, PictureFile.inspection, htype, hmime, hwidth, hheight]
  · intro hfits
    by_cases hdeclared : asset.type = .image ∧ asset.declaredMimeType = f.mimeType
    · refine inspectionRejection_large rfl rfl rfl ?_
      by_contra hsmall
      rw [not_or, Nat.not_lt, Nat.not_lt] at hsmall
      exact hfits ⟨hdeclared.1, hdeclared.2, hsmall⟩
    · rw [inspectionRejection, if_pos]
      · exact ⟨_, rfl⟩
      · rw [not_and_or] at hdeclared
        exact hdeclared.imp Ne.symm id

/-- A picture is judged by the size in its own file: an upload that was declared
as what it is and that is within the limits becomes READY with exactly this
size, and every other one is rejected. -/
theorem picture_judged_by_file {cfg : Config} {v : Visit Call Choice} {i : Nat}
    {R : Rest Row Env} {userId : Id} {asset : ReportAsset} {bytes : Bytes} (f : PictureFile)
    (h : Deposited cfg R userId asset bytes) (ht : Timely cfg v i asset)
    (hbytes : bytes.take inspectionRangeBytes = f.bytes) :
    (f.Fits cfg asset → ∃ ready i' R',
      (confirmUpload cfg userId asset.reportId asset.id).Ends v i R (.ok ready) i' R' ∧
      asset? R'.db asset.id = some ready ∧ ready.status = .ready ∧
      ready.verifiedMimeType = some f.mimeType ∧ ready.width = some f.width ∧
      ready.height = some f.height) ∧
    (¬ f.Fits cfg asset → BecomesRejected cfg v i R userId asset) := by
  obtain ⟨haccepts, hrejects⟩ := inspectionRejection_picture f cfg asset
  have hverdict : verdict cfg asset bytes
      = inspectionRejection cfg asset (some f.inspection) := by
    rw [verdict, hbytes, inspectAssetBytes_picture]
  constructor
  · intro hfits
    exact ⟨_, _, _, confirmUpload_accepts h ht (hverdict.trans (haccepts hfits)),
      asset?_put_asset _ _, rfl, rfl, rfl, rfl⟩
  · intro hfits
    obtain ⟨rejection, hrejection⟩ := hrejects hfits
    exact becomesRejected h ht (hverdict.trans hrejection)

/-- A lossless picture of 9000 by 40 points. -/
def widePicture : WebpFile where
  riffSize := leBytes 4 17
  chunkSize := leBytes 4 5
  header := .lossless
    { width := 9000, height := 40, flags := 0, width_pos := by decide, height_pos := by decide,
      width_le := by decide, height_le := by decide, flags_lt := by decide }
  rest := []
  riffSize_length := rfl
  chunkSize_length := rfl

/-- It is too wide, and rejected. -/
theorem picture_judged_by_file_wide : BecomesRejected defaults promptVisit 0
    (sampleRest (sampleUpload .image "image/webp" widePicture.bytes) widePicture.bytes) 1
    (sampleUpload .image "image/webp" widePicture.bytes) :=
  (picture_judged_by_file (.webp widePicture)
    (deposited_sample .image "image/webp" (by decide +kernel) (by decide +kernel))
    (timely_sample _) (by decide +kernel)).2 fun h => absurd h.2.2.1 (by decide +kernel)

end FastRep.Reports
