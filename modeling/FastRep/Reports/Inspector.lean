/-
`asset-file-inspector.ts`: the type of an uploaded object from its first
bytes.

Reading past the end of the bytes reads zero, as `bytes[i] ?? 0` does. A
scan that moves an offset forward is a recursion on fuel; one unit for
each byte is enough, since every round moves by at least one byte.
Durations are exact fractions.

The readers are tried in the order of the source: the signatures of the image
formats, of the audio formats, of PDF and of the office formats, and text
last. A reader that recognizes the type and does not find the numbers still
answers with the type alone, and the limits are checked by the caller
(`inspectionRejection`). A text is UTF-8 in the range that was read; it is CSV
where all of its lines that are not blank have a comma.
-/
import FastRep.Reports.Services

namespace FastRep.Reports

structure AssetInspection where
  mimeType : String
  type : ReportAssetType
  width : Option Nat
  height : Option Nat
  durationSeconds : Option Rat
  deriving DecidableEq, Repr

-- ============================================================== readers

/-- `bytes[offset] ?? 0`. -/
def byteAt (bytes : Bytes) (offset : Nat) : Nat := (bytes.getD offset 0).toNat

def hasPrefix (bytes : Bytes) (pre : List Nat) : Bool :=
  (bytes.take pre.length).map UInt8.toNat = pre

/-- The bytes of an ASCII text. -/
def asciiBytes (s : String) : List Nat := s.toList.map Char.toNat

/-- `ascii(bytes, offset, length) === value`, for a value of that
length. -/
def asciiAt (bytes : Bytes) (offset : Nat) (value : String) : Bool :=
  ((bytes.drop offset).take value.length).map UInt8.toNat = asciiBytes value

/-- `findAscii`: the offset of the first occurrence. -/
def findAscii (value : String) : Bytes → Option Nat
  | [] => none
  | b :: rest =>
      if asciiAt (b :: rest) 0 value then some 0
      else (findAscii value rest).map (· + 1)

def readUint16Be (bytes : Bytes) (offset : Nat) : Nat :=
  byteAt bytes offset * 256 + byteAt bytes (offset + 1)

def readUint16Le (bytes : Bytes) (offset : Nat) : Nat :=
  byteAt bytes offset + byteAt bytes (offset + 1) * 256

def readUint24Le (bytes : Bytes) (offset : Nat) : Nat :=
  readUint16Le bytes offset + byteAt bytes (offset + 2) * 65536

def readUint32Be (bytes : Bytes) (offset : Nat) : Nat :=
  readUint16Be bytes offset * 65536 + readUint16Be bytes (offset + 2)

def readUint32Le (bytes : Bytes) (offset : Nat) : Nat :=
  readUint16Le bytes offset + readUint16Le bytes (offset + 2) * 65536

def readSynchsafe (bytes : Bytes) (offset : Nat) : Nat :=
  byteAt bytes offset <<< 21 ||| byteAt bytes (offset + 1) <<< 14
    ||| byteAt bytes (offset + 2) <<< 7 ||| byteAt bytes (offset + 3)

-- =============================================================== images

/-- The markers of the frame headers that carry the dimensions. -/
def isSof (marker : Nat) : Bool :=
  (0xc0 ≤ marker && marker ≤ 0xc3) || (0xc5 ≤ marker && marker ≤ 0xc7)
    || (0xc9 ≤ marker && marker ≤ 0xcb) || (0xcd ≤ marker && marker ≤ 0xcf)

/-- Width and height of a JPEG, scanning from an offset. -/
def readJpegFrom (bytes : Bytes) : Nat → Nat → Option Nat × Option Nat
  | 0, _ => (none, none)
  | fuel + 1, offset =>
      if offset + 8 < bytes.length then
        if byteAt bytes offset ≠ 0xff then
          readJpegFrom bytes fuel (offset + 1)
        else
          let marker := byteAt bytes (offset + 1)
          if marker = 0xd8 ∨ marker = 0xd9 then
            readJpegFrom bytes fuel (offset + 2)
          else
            let length := readUint16Be bytes (offset + 2)
            if length < 2 ∨ bytes.length < offset + length + 2 then
              (none, none)
            else if isSof marker then
              (some (readUint16Be bytes (offset + 7)),
                some (readUint16Be bytes (offset + 5)))
            else
              readJpegFrom bytes fuel (offset + length + 2)
      else
        (none, none)

def readJpegDimensions (bytes : Bytes) : Option Nat × Option Nat :=
  readJpegFrom bytes bytes.length 2

def readWebpDimensions (bytes : Bytes) : Option Nat × Option Nat :=
  if asciiAt bytes 12 "VP8X" && 30 ≤ bytes.length then
    (some (1 + readUint24Le bytes 24), some (1 + readUint24Le bytes 27))
  else if asciiAt bytes 12 "VP8L" && 25 ≤ bytes.length && byteAt bytes 20 = 0x2f then
    let packed := readUint32Le bytes 21
    (some ((packed &&& 0x3fff) + 1), some (((packed >>> 14) &&& 0x3fff) + 1))
  else if asciiAt bytes 12 "VP8 " && 30 ≤ bytes.length && byteAt bytes 23 = 0x9d
      && byteAt bytes 24 = 0x01 && byteAt bytes 25 = 0x2a then
    (some (readUint16Le bytes 26 &&& 0x3fff), some (readUint16Le bytes 28 &&& 0x3fff))
  else
    (none, none)

-- ================================================================ audio

/-- Byte rate and data size found so far, scanning the chunks of a WAV
file from an offset. -/
def readWavFrom (bytes : Bytes) (objectSize : Nat) :
    Nat → Nat → Option Nat → Option Nat × Option Int
  | 0, _, byteRate => (byteRate, none)
  | fuel + 1, offset, byteRate =>
      if offset + 8 ≤ bytes.length then
        let chunkSize := readUint32Le bytes (offset + 4)
        let next := offset + 8 + chunkSize + chunkSize % 2
        if asciiAt bytes offset "fmt " && offset + 16 ≤ bytes.length then
          readWavFrom bytes objectSize fuel next (some (readUint32Le bytes (offset + 12)))
        else if asciiAt bytes offset "data" then
          (byteRate, some (min (chunkSize : Int) (objectSize - offset - 8 : Int)))
        else
          readWavFrom bytes objectSize fuel next byteRate
      else
        (byteRate, none)

def readWavDuration (bytes : Bytes) (objectSize : Nat) : Option Rat :=
  match readWavFrom bytes objectSize bytes.length 12 none with
  | (some byteRate, some dataSize) =>
      if byteRate = 0 then none else some (dataSize / byteRate)
  | _ => none

/-- A byte that continues a frame sync after `0xff`. -/
def syncs (b : Nat) : Bool := b &&& 0xe0 = 0xe0

def isMp3 (bytes : Bytes) : Bool :=
  asciiAt bytes 0 "ID3"
    || (2 ≤ bytes.length && byteAt bytes 0 = 0xff && syncs (byteAt bytes 1))

/-- Kilobits per second of a frame header; `none` outside the tables. -/
def bitrate (version layer bitrateIndex : Nat) : Option Nat :=
  (if version = 3 ∧ layer = 1 then
    [0, 32, 40, 48, 56, 64, 80, 96, 112, 128, 160, 192, 224, 256, 320]
  else
    [0, 8, 16, 24, 32, 40, 48, 56, 64, 80, 96, 112, 128, 144, 160])[bitrateIndex]?

def readMp3From (bytes : Bytes) (objectSize : Nat) : Nat → Nat → Option Rat
  | 0, _ => none
  | fuel + 1, offset =>
      if offset + 4 ≤ bytes.length then
        if byteAt bytes offset = 0xff && syncs (byteAt bytes (offset + 1)) then
          let header := byteAt bytes (offset + 1)
          match bitrate ((header >>> 3) &&& 0x03) ((header >>> 1) &&& 0x03)
              ((byteAt bytes (offset + 2) >>> 4) &&& 0x0f) with
          | none => none
          | some kilobitsPerSecond =>
              if kilobitsPerSecond = 0 then none
              else some (((objectSize * 8 : Nat) : Rat) / (kilobitsPerSecond * 1000 : Nat))
        else
          readMp3From bytes objectSize fuel (offset + 1)
      else
        none

def readMp3Duration (bytes : Bytes) (objectSize : Nat) : Option Rat :=
  readMp3From bytes objectSize bytes.length
    (if asciiAt bytes 0 "ID3" then 10 + readSynchsafe bytes 6 else 0)

def audioBrandAt (bytes : Bytes) (offset : Nat) : Bool :=
  ["M4A ", "M4B ", "M4P "].any (asciiAt bytes offset)

def isM4a (bytes : Bytes) : Bool :=
  16 ≤ bytes.length && asciiAt bytes 4 "ftyp" &&
    let boxSize := min (readUint32Be bytes 0) bytes.length
    audioBrandAt bytes 8 || (List.range (boxSize / 4)).any fun i =>
      16 ≤ 4 * i && 4 * i + 4 ≤ boxSize && audioBrandAt bytes (4 * i)

def readMp4Duration (bytes : Bytes) : Option Rat :=
  match findAscii "mvhd" bytes with
  | none => none
  | some marker =>
      if bytes.length ≤ marker + 24 then none
      else
        let version := byteAt bytes (marker + 4)
        let timescale := readUint32Be bytes
          (if version = 1 then marker + 24 else marker + 16)
        if timescale = 0 then none
        else if version = 1 then
          let high := readUint32Be bytes (marker + 28)
          let low := readUint32Be bytes (marker + 32)
          some (((high * 4294967296 + low : Nat) : Rat) / (timescale : Nat))
        else
          some (((readUint32Be bytes (marker + 20) : Nat) : Rat) / (timescale : Nat))

-- ================================================================= text

/-- A continuation byte, from a lower to an upper bound. -/
def continues (low high : Nat) (b : UInt8) : Bool := low ≤ b.toNat && b.toNat ≤ high

/-- The code points of a UTF-8 text, `none` where it is malformed. -/
def decodeUtf8 : Bytes → Option (List Nat)
  | [] => some []
  | a :: rest =>
      let n := a.toNat
      if n < 0x80 then
        (decodeUtf8 rest).map (n :: ·)
      else if 0xc2 ≤ n ∧ n ≤ 0xdf then
        match rest with
        | b :: rest =>
            if continues 0x80 0xbf b then
              (decodeUtf8 rest).map
                (((n - 0xc0) * 64 + (b.toNat - 0x80)) :: ·)
            else none
        | [] => none
      else if 0xe0 ≤ n ∧ n ≤ 0xef then
        match rest with
        | b :: c :: rest =>
            if continues (if n = 0xe0 then 0xa0 else 0x80)
                (if n = 0xed then 0x9f else 0xbf) b && continues 0x80 0xbf c then
              (decodeUtf8 rest).map (((n - 0xe0) * 4096 + (b.toNat - 0x80) * 64
                + (c.toNat - 0x80)) :: ·)
            else none
        | _ => none
      else if 0xf0 ≤ n ∧ n ≤ 0xf4 then
        match rest with
        | b :: c :: d :: rest =>
            if continues (if n = 0xf0 then 0x90 else 0x80)
                (if n = 0xf4 then 0x8f else 0xbf) b && continues 0x80 0xbf c
                && continues 0x80 0xbf d then
              (decodeUtf8 rest).map (((n - 0xf0) * 262144 + (b.toNat - 0x80) * 4096
                + (c.toNat - 0x80) * 64 + (d.toNat - 0x80)) :: ·)
            else none
        | _ => none
      else none

/-- The lines of a text, split at LF with an optional CR before it. -/
def splitLines : List Nat → List Nat → List (List Nat)
  | line, [] => [line.reverse]
  | line, c :: rest =>
      if c = 10 then
        (match line with
          | 13 :: line => line.reverse
          | line => line.reverse) :: splitLines [] rest
      else
        splitLines (c :: line) rest

/-- A leading byte order mark is not part of the decoded text. -/
def withoutBom : List Nat → List Nat
  | 0xfeff :: rest => rest
  | text => text

def inspectText (bytes : Bytes) : Option AssetInspection :=
  if bytes.isEmpty || bytes.contains 0 then none
  else match decodeUtf8 bytes with
    | none => none
    | some decoded =>
        let text := withoutBom decoded
        if text.any fun c => c < 32 && !([9, 10, 13].contains c) then none
        else
          let nonEmptyLines :=
            ((splitLines [] text).map (trimList isSpace)).filter (· ≠ [])
          let csv := nonEmptyLines ≠ [] ∧ ∀ line ∈ nonEmptyLines, 44 ∈ line
          some ⟨if csv then "text/csv" else "text/plain", .document,
            none, none, none⟩

-- =========================================================== inspection

/-- An inspection that is a type alone. -/
def plainInspection (mimeType : String) (type : ReportAssetType) :
    AssetInspection :=
  ⟨mimeType, type, none, none, none⟩

def inspectAssetBytes (bytes : Bytes) (objectSize : Nat) : Option AssetInspection :=
  if hasPrefix bytes [0xff, 0xd8, 0xff] then
    let dimensions := readJpegDimensions bytes
    some ⟨"image/jpeg", .image, dimensions.1, dimensions.2, none⟩
  else if hasPrefix bytes [0x89, 0x50, 0x4e, 0x47, 0x0d, 0x0a, 0x1a, 0x0a] then
    some ⟨"image/png", .image, some (readUint32Be bytes 16),
      some (readUint32Be bytes 20), none⟩
  else if asciiAt bytes 0 "RIFF" && asciiAt bytes 8 "WEBP" then
    let dimensions := readWebpDimensions bytes
    some ⟨"image/webp", .image, dimensions.1, dimensions.2, none⟩
  else if asciiAt bytes 0 "RIFF" && asciiAt bytes 8 "WAVE" then
    some ⟨"audio/wav", .audio, none, none, readWavDuration bytes objectSize⟩
  else if isMp3 bytes then
    some ⟨"audio/mpeg", .audio, none, none, readMp3Duration bytes objectSize⟩
  else if isM4a bytes then
    some ⟨"audio/x-m4a", .audio, none, none, readMp4Duration bytes⟩
  else if asciiAt bytes 0 "%PDF-" then
    some (plainInspection "application/pdf" .document)
  else if hasPrefix bytes [0x50, 0x4b, 0x03, 0x04]
      || hasPrefix bytes [0x50, 0x4b, 0x05, 0x06] then
    if (findAscii "word/" bytes).isSome then
      some (plainInspection
        "application/vnd.openxmlformats-officedocument.wordprocessingml.document"
        .document)
    else if (findAscii "xl/" bytes).isSome then
      some (plainInspection
        "application/vnd.openxmlformats-officedocument.spreadsheetml.sheet"
        .document)
    else none
  else
    inspectText bytes

end FastRep.Reports
