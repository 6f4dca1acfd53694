/-
RIFF files that hold a wave: chunks, one after the other, and what the
format chunk says about the sound.

A chunk is an id, a size and a payload, padded to an even length. The size
does not count the padding. A wave file has any chunks, in any number,
before its first data chunk; the format chunk is one of them, or none is.
Where there are several, a reader that goes through the chunks in their
order has the last one in hand when it gets to the data (`lastFormat`).

The length of the sound is the size of the data over the bytes for each
second, which the format chunk has at offset 8 of its payload; the samples
for each second stand at offset 4. A data chunk may announce more than the
object holds: `soundSize` clips it.
-/
import FastRep.Format.Bytes

namespace FastRep.Format

/-- A chunk: an id of four bytes, a payload with its size before it, and a
pad byte after a payload of odd size. -/
structure RiffChunk where
  id : List UInt8
  payload : List UInt8
  pad : UInt8
  id_length : id.length = 4
  size_lt : payload.length < 256 ^ 4

namespace RiffChunk

variable (c : RiffChunk)

def padding : List UInt8 := if c.payload.length % 2 = 1 then [c.pad] else []

def bytes : List UInt8 := c.id ++ leBytes 4 c.payload.length ++ c.payload ++ c.padding

/-- A format chunk. -/
def isFormat : Bool := c.id = ascii "fmt "

/-- The samples a format chunk announces for each second. -/
def samplesPerSecond : Nat := leValue ((c.payload.drop 4).take 4)

/-- The bytes it announces for each second. -/
def averageBytesPerSecond : Nat := leValue ((c.payload.drop 8).take 4)

/-- A chunk is padded to an even length. -/
theorem length_padding : c.padding.length = c.payload.length % 2 := by
  unfold padding
  split
  next h => rw [h, List.length_singleton]
  next h =>
      rw [List.length_nil]
      omega

/-- The name and the size of a chunk, its payload, and the padding. -/
theorem length_bytes : c.bytes.length = 8 + c.payload.length + c.payload.length % 2 := by
  simp only [bytes, List.length_append, c.id_length, length_leBytes, length_padding]

end RiffChunk

/-- The offset of the last format chunk of a list, when the first chunk is at
an offset. -/
def lastFormat : Nat → List RiffChunk → Option Nat
  | _, [] => none
  | offset, c :: chunks =>
      match lastFormat (offset + c.bytes.length) chunks with
      | some p => some p
      | none => if c.isFormat then some offset else none

/-- Where a format chunk stands there is a last one. -/
theorem lastFormat_isSome (offset : Nat) {chunks : List RiffChunk}
    (h : ∃ c ∈ chunks, c.isFormat) : ∃ p, lastFormat offset chunks = some p := by
  induction chunks generalizing offset with
  | nil =>
      obtain ⟨c, hc, _⟩ := h
      cases hc
  | cons c chunks ih =>
      rw [lastFormat]
      cases hlast : lastFormat (offset + c.bytes.length) chunks with
      | some p => exact ⟨p, rfl⟩
      | none =>
          obtain ⟨d, hd, hformat⟩ := h
          rcases List.mem_cons.mp hd with rfl | hd
          · exact ⟨offset, if_pos hformat⟩
          · obtain ⟨p, hp⟩ := ih (offset + c.bytes.length) ⟨d, hd, hformat⟩
            rw [hlast] at hp
            cases hp

/-- The beginning of a wave file: its header, the chunks before the first data
chunk, the header of this chunk, and as much of the rest as there is. -/
structure WaveFile where
  riffSize : List UInt8
  chunks : List RiffChunk
  dataSize : Nat
  rest : List UInt8
  riffSize_length : riffSize.length = 4
  chunks_before : ∀ c ∈ chunks, c.id ≠ ascii "data"
  dataSize_lt : dataSize < 256 ^ 4

namespace WaveFile

variable (w : WaveFile)

def header : List UInt8 := ascii "RIFF" ++ w.riffSize ++ ascii "WAVE"

def body : List UInt8 := w.chunks.flatMap RiffChunk.bytes

def bytes : List UInt8 :=
  w.header ++ (w.body ++ (ascii "data" ++ leBytes 4 w.dataSize ++ w.rest))

/-- Where the payload of the data chunk starts. -/
def dataStart : Nat := 12 + w.body.length + 8

/-- The size of the sound in an object of the size: the data size, clipped at
the end of the object. -/
def soundSize (objectSize : Nat) : Nat := min w.dataSize (objectSize - w.dataStart)

/-- How long the sound of a format takes, in seconds. -/
def duration (format : RiffChunk) (objectSize : Nat) : Option Rat :=
  if format.averageBytesPerSecond = 0 then none
  else some (w.soundSize objectSize / format.averageBytesPerSecond)

/-- The number four bytes into the payload of the last format chunk: its
samples for each second. -/
def samplesPerSecond : Nat :=
  match lastFormat 12 w.chunks with
  | some p => leValue ((w.bytes.drop (p + 12)).take 4)
  | none => 0

theorem length_header : w.header.length = 12 := by
  simp only [header, List.length_append, length_ascii, w.riffSize_length]
  rfl

/-- No chunk is empty, so there are at most as many chunks as bytes. -/
theorem length_chunks_le (chunks : List RiffChunk) :
    chunks.length ≤ (chunks.flatMap RiffChunk.bytes).length := by
  induction chunks with
  | nil => rfl
  | cons c chunks ih =>
      rw [List.flatMap_cons, List.length_append, c.length_bytes, List.length_cons]
      omega

theorem dataStart_le : w.dataStart ≤ w.bytes.length := by
  simp only [dataStart, bytes, List.length_append, length_header, length_ascii, length_leBytes]
  rw [show "data".length = 4 from rfl]
  omega

end WaveFile

end FastRep.Format
