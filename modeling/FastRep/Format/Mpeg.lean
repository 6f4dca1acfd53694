/-
MP3 files: a tag in front of the sound, and the header of the first frame.

The tag has its size in four bytes of seven bits (`synchsafeBytes`), and the
size does not count the ten bytes of the tag's header. Only tags without the
optional footer are described: the footer is a copy of the header behind the
content, and is not counted either.

A frame of layer III begins with four bytes of bit fields: eleven bits of
sync, the version, the layer, the index of the bit rate, the index of the
sample rate, and a few flags. The table of the rates depends on the version
(`MpegVersion.rates`); version 2 and 2.5 have one table. A file is described
by its tag, its first frame's header, and everything behind it; its length
in seconds at a constant rate is what a reader can tell of it without
reading the other frames.
-/
import FastRep.Format.Bytes

namespace FastRep.Format

-- ===================================================== synchsafe numbers

/-- A number in four bytes of seven bits, most significant first. -/
def synchsafeBytes (n : Nat) : List UInt8 :=
  [UInt8.ofNat (n / 2 ^ 21), UInt8.ofNat (n / 2 ^ 14 % 2 ^ 7), UInt8.ofNat (n / 2 ^ 7 % 2 ^ 7),
    UInt8.ofNat (n % 2 ^ 7)]

/-- Four groups of seven bits, put together again. -/
theorem or_groups {n : Nat} : (n / 2 ^ 21) <<< 21 ||| (n / 2 ^ 14 % 2 ^ 7) <<< 14
    ||| (n / 2 ^ 7 % 2 ^ 7) <<< 7 ||| n % 2 ^ 7 = n := by
  have hlow : n % 2 ^ 7 < 2 ^ 7 := Nat.mod_lt _ (by decide)
  have hnext : (n / 2 ^ 7 % 2 ^ 7) <<< 7 + n % 2 ^ 7 < 2 ^ 14 := by
    rw [Nat.shiftLeft_eq]
    omega
  have hthird : (n / 2 ^ 14 % 2 ^ 7) <<< 14 + ((n / 2 ^ 7 % 2 ^ 7) <<< 7 + n % 2 ^ 7) < 2 ^ 21 := by
    rw [Nat.shiftLeft_eq, Nat.shiftLeft_eq]
    omega
  rw [Nat.or_assoc, Nat.or_assoc, ← Nat.shiftLeft_add_eq_or_of_lt hlow,
    ← Nat.shiftLeft_add_eq_or_of_lt hnext, ← Nat.shiftLeft_add_eq_or_of_lt hthird]
  simp only [Nat.shiftLeft_eq]
  omega

-- ================================================================ the tag

/-- An ID3v2 tag without a footer: its version, its flags, and a content with
its size before it. The optional footer of version 4, ten bytes that the size
does not count, is left out. -/
structure Id3Tag where
  version : List UInt8
  flags : UInt8
  content : List UInt8
  version_length : version.length = 2
  size_lt : content.length < 2 ^ 28

def Id3Tag.bytes (t : Id3Tag) : List UInt8 :=
  ascii "ID3" ++ (t.version ++ (t.flags :: (synchsafeBytes t.content.length ++ t.content)))

/-- The ten bytes of the tag's header are not counted in its size. -/
theorem Id3Tag.length_bytes (t : Id3Tag) : t.bytes.length = 10 + t.content.length := by
  simp only [bytes, List.length_append, length_ascii, t.version_length, List.length_cons,
    synchsafeBytes, List.length_nil, show "ID3".length = 3 from rfl]
  omega

-- ============================================================== the frame

/-- The versions of MPEG audio. -/
inductive MpegVersion
  | mpeg25 | mpeg2 | mpeg1
  deriving DecidableEq

def MpegVersion.bits : MpegVersion → Nat
  | .mpeg25 => 0
  | .mpeg2 => 2
  | .mpeg1 => 3

/-- The kilobits for each second at an index, for layer III. Index 0 leaves the
rate open. -/
def MpegVersion.rates : MpegVersion → List Nat
  | .mpeg1 => [0, 32, 40, 48, 56, 64, 80, 96, 112, 128, 160, 192, 224, 256, 320]
  | _ => [0, 8, 16, 24, 32, 40, 48, 56, 64, 80, 96, 112, 128, 144, 160]

/-- The header of a frame of layer III. -/
structure FrameHeader where
  version : MpegVersion
  bare : Bool
  rateIndex : Nat
  low : Nat
  last : UInt8
  rateIndex_lt : rateIndex < 15
  low_lt : low < 16

namespace FrameHeader

variable (h : FrameHeader)

/-- The byte after the first eight bits of the sync: the other three, the
version, layer III, and whether there is no checksum. -/
def second : Nat := 0xe0 + 8 * h.version.bits + 2 + h.bare.toNat

def bytes : List UInt8 :=
  [0xff, UInt8.ofNat h.second, UInt8.ofNat (16 * h.rateIndex + h.low), h.last]

/-- The kilobits for each second. -/
def kilobits : Nat := h.version.rates.getD h.rateIndex 0

/-- The bit fields of the header's second byte fit into it. -/
theorem second_lt : h.second < 256 := by
  rw [second]
  cases h.version <;> cases h.bare <;> decide

/-- The bit fields of the header's third byte fit into it. -/
theorem third_lt : 16 * h.rateIndex + h.low < 256 := by
  have := h.rateIndex_lt
  have := h.low_lt
  omega

end FrameHeader

/-- An MP3 file: a tag or none, the first frame's header, and the rest. -/
structure Mp3File where
  tag : Option Id3Tag
  header : FrameHeader
  rest : List UInt8

namespace Mp3File

variable (f : Mp3File)

/-- What stands before the sound. -/
def before : List UInt8 := (f.tag.map Id3Tag.bytes).getD []

def bytes : List UInt8 := f.before ++ (f.header.bytes ++ f.rest)

/-- The seconds that so many bytes take at the rate of the first frame. -/
def seconds (size : Nat) : Option Rat :=
  if f.header.kilobits = 0 then none
  else some (((size * 8 : Nat) : Rat) / (f.header.kilobits * 1000 : Nat))

end Mp3File

end FastRep.Format
