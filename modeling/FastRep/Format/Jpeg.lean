/-
The beginning of a JPEG file: segments, one after the other, up to the frame
header with the size of the picture.

A segment is a marker with a length and a payload; any number of fill bytes
may stand before the marker, which the format allows and most writers do
not use (`JpegFile.Unfilled`). A frame header is a segment of one of the SOFn
markers. Its payload begins with the precision and the two sizes; what comes
after them, the entropy-coded picture included, is left open.
-/
import FastRep.Format.Bytes

namespace FastRep.Format

/-- The markers that stand alone, without a length: TEM, RSTn, SOI and EOI. -/
def isStandalone (marker : UInt8) : Bool :=
  marker = 0x01 || (0xd0 ≤ marker && marker ≤ 0xd9)

/-- The markers of the frame headers (SOFn). -/
def isFrameHeader (marker : UInt8) : Bool :=
  0xc0 ≤ marker && marker ≤ 0xcf && marker ≠ 0xc4 && marker ≠ 0xc8 && marker ≠ 0xcc

/-- A segment: fill bytes, a marker, and a payload with its length before it.
The length counts its own two bytes. -/
structure JpegSegment where
  fill : Nat
  marker : UInt8
  payload : List UInt8
  is_marker : marker ≠ 0x00 ∧ marker ≠ 0xff
  not_standalone : isStandalone marker = false
  length_lt : payload.length + 2 < 256 ^ 2

namespace JpegSegment

variable (s : JpegSegment)

def bytes : List UInt8 :=
  List.replicate s.fill 0xff ++ (0xff :: s.marker :: beBytes 2 (s.payload.length + 2)
    ++ s.payload)

/-- Fill bytes, marker, length field and payload. -/
theorem length_bytes : s.bytes.length = s.fill + (4 + s.payload.length) := by
  simp only [bytes, List.length_append, List.length_replicate, List.length_cons, length_beBytes]

end JpegSegment

/-- The beginning of a JPEG file: SOI, the segments before the frame header,
the frame header, and as much of the rest as there is. -/
structure JpegFile where
  segments : List JpegSegment
  frame : JpegSegment
  rest : List UInt8
  segments_before : ∀ s ∈ segments, isFrameHeader s.marker = false ∧ s.marker ≠ 0xda
  frame_marker : isFrameHeader frame.marker = true
  frame_complete : 5 ≤ frame.payload.length

namespace JpegFile

variable (f : JpegFile)

def bytes : List UInt8 :=
  [0xff, 0xd8] ++ (f.segments.flatMap JpegSegment.bytes ++ (f.frame.bytes ++ f.rest))

/-- The numbers of lines and of samples in a line: they follow the precision. -/
def height : Nat := beValue ((f.frame.payload.drop 1).take 2)

def width : Nat := beValue ((f.frame.payload.drop 3).take 2)

/-- No marker has fill bytes before it, up to the frame header. -/
def Unfilled : Prop := ∀ s ∈ f.segments ++ [f.frame], s.fill = 0

end JpegFile

end FastRep.Format
