/-
ISO media files (MP4, M4A, MOV): boxes, one after the other, and the movie
header in the movie box.

A box has its size and its type in front. The size counts the header, and
is written in four bytes, or in eight where the four bytes are 1. `Movie` is
a file as far as the movie header: whole boxes before the movie box, the
header of the movie box, whole boxes in it, and the movie header. What
stands behind is left open (`rest`), since no reader of the duration needs
it. The movie header has two versions, with times of four or of eight bytes
(`MovieHeader.width`); the duration is the one of these over the time scale.
-/
import FastRep.Format.Bytes

namespace FastRep.Format

/-- The header of a box with so many bytes in it: its size, in four bytes or in
eight after the type. -/
def boxHeader (large : Bool) (type : List UInt8) (n : Nat) : List UInt8 :=
  if large then beBytes 4 1 ++ type ++ beBytes 8 (16 + n) else beBytes 4 (8 + n) ++ type

structure MediaBox where
  large : Bool
  type : List UInt8
  payload : List UInt8
  type_length : type.length = 4
  size_lt : 16 + payload.length < 256 ^ if large then 8 else 4

def MediaBox.bytes (b : MediaBox) : List UInt8 :=
  boxHeader b.large b.type b.payload.length ++ b.payload

/-- The movie header. Version 1 has eight bytes for each time, version 0 four;
the fields after the duration take 80 bytes. -/
structure MovieHeader where
  wide : Bool
  flags : List UInt8
  creationTime : Nat
  modificationTime : Nat
  timescale : Nat
  durationUnits : Nat
  presentation : List UInt8
  flags_length : flags.length = 3
  timescale_lt : timescale < 256 ^ 4
  durationUnits_lt : durationUnits < 256 ^ if wide then 8 else 4
  presentation_length : presentation.length = 80

namespace MovieHeader

variable (h : MovieHeader)

/-- The bytes of a time. -/
def width : Nat := if h.wide then 8 else 4

def payload : List UInt8 :=
  (if h.wide then 1 else 0) :: h.flags ++ (beBytes h.width h.creationTime
    ++ (beBytes h.width h.modificationTime ++ (beBytes 4 h.timescale
      ++ (beBytes h.width h.durationUnits ++ h.presentation))))

/-- The duration in seconds. -/
def duration : Option Rat :=
  if h.timescale = 0 then none else some ((h.durationUnits : Rat) / h.timescale)

/-- The fixed fields of a movie header, and the three whose width its version
decides. -/
theorem length_payload : h.payload.length = 88 + 3 * h.width := by
  simp only [payload, List.length_append, List.length_cons, length_beBytes, h.flags_length,
    h.presentation_length]
  omega

end MovieHeader

/-- A file around its movie header: the boxes before the movie box, the header
of the movie box, the boxes in it before the movie header, which of the two
forms the size of the movie header has, and as much of the rest as there is. -/
structure Movie where
  boxes : List MediaBox
  movieSize : Nat
  largeMovie : Bool
  children : List MediaBox
  large : Bool
  rest : List UInt8

namespace Movie

variable (m : Movie)

/-- What stands before the movie header. -/
def before : List UInt8 :=
  m.boxes.flatMap MediaBox.bytes ++ (boxHeader m.largeMovie (ascii "moov") m.movieSize
    ++ m.children.flatMap MediaBox.bytes)

/-- The file with a movie header. -/
def bytes (h : MovieHeader) : List UInt8 :=
  m.before ++ (boxHeader m.large (ascii "mvhd") h.payload.length ++ (h.payload ++ m.rest))

end Movie

end FastRep.Format
