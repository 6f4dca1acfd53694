/-
The beginnings of PNG and WebP files, up to the size of the picture.

A PNG file has the size in its first chunk, at a fixed place. A WebP file is
a RIFF file whose first chunk has one of three names, and a header of its own
for each:

- lossy (`VP8 `): two numbers of fourteen bits with a scale above each, after
  the frame tag and the start code;
- lossless (`VP8L`): two numbers of fourteen bits, each less by one, packed
  into one word with four more bits;
- extended (`VP8X`): two numbers of three bytes, each less by one.

The bit fields are written here as sums and products. `low_bits` and
`high_bits` turn a reader's masks and shifts into remainders and quotients.
-/
import FastRep.Format.Bytes

namespace FastRep.Format

-- ============================================================= bit fields

variable {n low high : Nat}

/-- The field in the low bits of a word. -/
theorem low_bits (h : low < 2 ^ n) : (low + 2 ^ n * high) &&& (2 ^ n - 1) = low := by
  rw [Nat.and_two_pow_sub_one_eq_mod, Nat.add_mul_mod_self_left, Nat.mod_eq_of_lt h]

/-- What stands above it. -/
theorem high_bits (h : low < 2 ^ n) : (low + 2 ^ n * high) >>> n = high := by
  rw [Nat.shiftRight_eq_div_pow, Nat.add_mul_div_left _ _ (Nat.two_pow_pos n),
    Nat.div_eq_of_lt h, Nat.zero_add]

/-- Two bit fields next to each other, as one number. -/
theorem field_lt {m : Nat} (hlow : low < 2 ^ n) (hhigh : high < 2 ^ m) :
    low + 2 ^ n * high < 2 ^ (n + m) := by
  calc low + 2 ^ n * high < 2 ^ n * (high + 1) := by
        rw [Nat.mul_succ]
        omega
    _ ≤ 2 ^ n * 2 ^ m := Nat.mul_le_mul_left _ hhigh
    _ = 2 ^ (n + m) := (pow_add 2 n m).symm

-- ==================================================================== PNG

/-- A PNG file: the signature, the header chunk as far as the size of the
picture, and as much of the rest as there is. -/
structure PngFile where
  width : Nat
  height : Nat
  rest : List UInt8
  width_lt : width < 256 ^ 4
  height_lt : height < 256 ^ 4

def pngSignature : List UInt8 := [0x89, 0x50, 0x4e, 0x47, 0x0d, 0x0a, 0x1a, 0x0a]

namespace PngFile

variable (f : PngFile)

/-- What stands before the size. -/
def before : List UInt8 := pngSignature ++ (beBytes 4 13 ++ ascii "IHDR")

def bytes : List UInt8 :=
  before ++ (beBytes 4 f.width ++ (beBytes 4 f.height ++ f.rest))

end PngFile

-- =================================================================== WebP

/-- The header of a lossy picture: two numbers of fourteen bits, each with two
bits above it that say how to scale. -/
structure LossyHeader where
  frameTag : List UInt8
  width : Nat
  height : Nat
  horizontalScale : Nat
  verticalScale : Nat
  frameTag_length : frameTag.length = 3
  width_lt : width < 2 ^ 14
  height_lt : height < 2 ^ 14
  horizontalScale_lt : horizontalScale < 2 ^ 2
  verticalScale_lt : verticalScale < 2 ^ 2

/-- The header of a lossless picture: two numbers of fourteen bits, each less
by one, and four more bits, in one word. -/
structure LosslessHeader where
  width : Nat
  height : Nat
  flags : Nat
  width_pos : 0 < width
  height_pos : 0 < height
  width_le : width ≤ 2 ^ 14
  height_le : height ≤ 2 ^ 14
  flags_lt : flags < 2 ^ 4

/-- The header of an extended file: two numbers of three bytes, each less by
one. -/
structure ExtendedHeader where
  flags : List UInt8
  width : Nat
  height : Nat
  flags_length : flags.length = 4
  width_pos : 0 < width
  height_pos : 0 < height
  width_le : width ≤ 256 ^ 3
  height_le : height ≤ 256 ^ 3

def LossyHeader.bytes (h : LossyHeader) : List UInt8 :=
  h.frameTag ++ ([0x9d, 0x01, 0x2a] ++ (leBytes 2 (h.width + 2 ^ 14 * h.horizontalScale)
    ++ leBytes 2 (h.height + 2 ^ 14 * h.verticalScale)))

/-- The word of a lossless header. -/
def LosslessHeader.packed (h : LosslessHeader) : Nat :=
  (h.width - 1) + 2 ^ 14 * ((h.height - 1) + 2 ^ 14 * h.flags)

def LosslessHeader.bytes (h : LosslessHeader) : List UInt8 := 0x2f :: leBytes 4 h.packed

def ExtendedHeader.bytes (h : ExtendedHeader) : List UInt8 :=
  h.flags ++ (leBytes 3 (h.width - 1) ++ leBytes 3 (h.height - 1))

/-- The width with its scale fits into two bytes. -/
theorem LossyHeader.width_field_lt (h : LossyHeader) :
    h.width + 2 ^ 14 * h.horizontalScale < 256 ^ 2 :=
  field_lt h.width_lt h.horizontalScale_lt

/-- The height with its scale fits into two bytes. -/
theorem LossyHeader.height_field_lt (h : LossyHeader) :
    h.height + 2 ^ 14 * h.verticalScale < 256 ^ 2 :=
  field_lt h.height_lt h.verticalScale_lt

/-- The fields a lossless header packs fit into four bytes. -/
theorem LosslessHeader.packed_lt (h : LosslessHeader) : h.packed < 256 ^ 4 := by
  have := h.width_pos
  have := h.height_pos
  have := h.width_le
  have := h.height_le
  exact field_lt (m := 18) (by omega) (field_lt (m := 4) (by omega) h.flags_lt)

/-- The header of a WebP file, in one of three forms. -/
inductive WebpHeader
  | lossy (h : LossyHeader)
  | lossless (h : LosslessHeader)
  | extended (h : ExtendedHeader)

namespace WebpHeader

/-- The name of its chunk. -/
def name : WebpHeader → String
  | lossy _ => "VP8 "
  | lossless _ => "VP8L"
  | extended _ => "VP8X"

def bytes : WebpHeader → List UInt8
  | lossy h => h.bytes
  | lossless h => h.bytes
  | extended h => h.bytes

def width : WebpHeader → Nat
  | lossy h => h.width
  | lossless h => h.width
  | extended h => h.width

def height : WebpHeader → Nat
  | lossy h => h.height
  | lossless h => h.height
  | extended h => h.height

/-- The name of a WebP chunk, whichever of the three it is. -/
theorem length_name (h : WebpHeader) : h.name.length = 4 := by
  cases h <;> simp only [name] <;> rfl

end WebpHeader

/-- A WebP file: the sizes of the file and of its first chunk, the header in
that chunk, and as much of the rest as there is. -/
structure WebpFile where
  riffSize : List UInt8
  chunkSize : List UInt8
  header : WebpHeader
  rest : List UInt8
  riffSize_length : riffSize.length = 4
  chunkSize_length : chunkSize.length = 4

namespace WebpFile

variable (f : WebpFile)

/-- What stands before the header. -/
def before : List UInt8 :=
  ascii "RIFF" ++ (f.riffSize ++ (ascii "WEBP" ++ (ascii f.header.name ++ f.chunkSize)))

def bytes : List UInt8 := f.before ++ (f.header.bytes ++ f.rest)

/-- The header of the container and the chunk stand before the picture. -/
theorem length_before : f.before.length = 20 := by
  simp only [before, List.length_append, length_ascii, f.riffSize_length, f.chunkSize_length,
    f.header.length_name]
  rfl

end WebpFile

end FastRep.Format
