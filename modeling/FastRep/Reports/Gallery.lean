/-
`PdfReportService.renderGallery`: where the images of a section stand.

Points are exact rationals and the page is A4. What the layout needs of the
PDF library is in `Layout.Kit`: the dimensions `openImage` reads and how far
`moveDown` moves. `addPage` goes to the top margin, and `image` draws the
rectangle it is given.

# The layout

A single image has a column of its own, more images go into two, and two
images of which one would become too narrow go below each other. A row is a
slice of as many images as there are columns; each is fitted into its cell
with its proportions, the row is as high as the highest of them, and where it
would pass the bottom margin a page is added first. `Document` is what a row
needs to know of the rows before it: the page, and the `y` it has reached.
-/
import FastRep.Rect
import FastRep.Reports.PdfReport
import Mathlib.Data.Rat.Defs

namespace FastRep.Reports.Layout

/-- A4, in points. -/
def pageWidth : ℚ := 595.28

def pageHeight : ℚ := 841.89

def pageMarginX : ℚ := 56

def pageMarginTop : ℚ := 62

def pageMarginBottom : ℚ := 66

def galleryGap : ℚ := 12

def singleImageMaxWidth : ℚ := 360

def singleImageMaxHeight : ℚ := 300

def gridImageMaxHeight : ℚ := 210

def minTwoColumnImageWidth : ℚ := 84

def contentWidth : ℚ := pageWidth - pageMarginX * 2

def contentBottom : ℚ := pageHeight - pageMarginBottom

-- ============================================================ dimensions

structure ImageDimensions where
  width : ℚ
  height : ℚ
  orientation : Option Nat
  deriving DecidableEq, Repr

def fitImageDimensions (sourceWidth sourceHeight maximumWidth maximumHeight : ℚ) :
    ImageDimensions :=
  let scale := min (min (maximumWidth / sourceWidth) (maximumHeight / sourceHeight)) 1
  { width := sourceWidth * scale, height := sourceHeight * scale, orientation := none }

/-- An EXIF orientation beyond 4 lays the image on its side. -/
def orientedImageDimensions (source : ImageDimensions) : ImageDimensions :=
  if source.orientation.any (4 < ·) then
    { width := source.height, height := source.width, orientation := none }
  else
    { width := source.width, height := source.height, orientation := none }

-- =============================================================== document

/-- An image as it is drawn: on which page, and its rectangle there. -/
structure Drawn where
  image : Id × Bytes
  page : Nat
  rect : Rect ℚ
  deriving DecidableEq, Repr

/-- The document as far as the layout goes: the page and the `y` it has
reached, and the images drawn so far. -/
structure Document where
  page : Nat
  y : ℚ
  drawn : List Drawn
  deriving DecidableEq, Repr

structure Kit where
  openImage : Bytes → Option ImageDimensions
  /-- The points `moveDown` moves for a number of lines. -/
  moveDown : ℚ → ℚ

def Document.addPage (document : Document) : Document :=
  { document with page := document.page + 1, y := pageMarginTop }

def needsPageBreak (currentY requiredHeight bottom : ℚ) : Bool :=
  bottom < currentY + requiredHeight

def ensureSpace (points : ℚ) (document : Document) : Document :=
  if needsPageBreak document.y points contentBottom then document.addPage else document

-- ================================================================ gallery

/-- The columns of a gallery. -/
inductive Columns where
  | one | two
  deriving DecidableEq, Repr

def galleryColumnCount (imageCount : Nat) : Columns :=
  if imageCount = 1 then .one else .two

def twoColumnCellWidth : ℚ := (contentWidth - galleryGap) / 2

/-- An image with the dimensions it has upright. -/
structure OpenedImage where
  image : Id × Bytes
  source : ImageDimensions
  deriving DecidableEq, Repr

/-- The dimensions of an image in a cell. -/
def OpenedImage.fitted (opened : OpenedImage) (cellWidth maximumHeight : ℚ) : ImageDimensions :=
  fitImageDimensions opened.source.width opened.source.height cellWidth maximumHeight

def columnsOf (openedImages : List OpenedImage) : Columns :=
  if openedImages.length = 2 ∧ openedImages.any fun opened =>
      (opened.fitted twoColumnCellWidth gridImageMaxHeight).width < minTwoColumnImageWidth then
    .one
  else galleryColumnCount openedImages.length

def Columns.cellWidth : Columns → ℚ
  | .one => min contentWidth singleImageMaxWidth
  | .two => twoColumnCellWidth

def Columns.maximumHeight : Columns → ℚ
  | .one => singleImageMaxHeight
  | .two => gridImageMaxHeight

/-- The slices of the row loop. -/
def rowsOf {α : Type} : Columns → List α → List (List α)
  | .one, images => images.map fun image => [image]
  | .two, left :: right :: rest => [left, right] :: rowsOf .two rest
  | .two, [image] => [[image]]
  | .two, [] => []

/-- The largest height of a row. -/
def rowHeight (columns : Columns) : List OpenedImage → ℚ
  | [] => 0
  | [opened] => (opened.fitted columns.cellWidth columns.maximumHeight).height
  | opened :: rest =>
      max (opened.fitted columns.cellWidth columns.maximumHeight).height (rowHeight columns rest)

def rowLeft (columns : Columns) (occupiedColumns : Nat) : ℚ :=
  let rowWidth := occupiedColumns * columns.cellWidth + (occupiedColumns - 1) * galleryGap
  pageMarginX + (contentWidth - rowWidth) / 2

/-- The images of a row from a column on, each in the middle of its cell. -/
def drawCells (columns : Columns) (page : Nat) (left rowTop height : ℚ) :
    Nat → List OpenedImage → List Drawn
  | _, [] => []
  | columnIndex, opened :: rest =>
      let dimensions := opened.fitted columns.cellWidth columns.maximumHeight
      let cellLeft := left + columnIndex * (columns.cellWidth + galleryGap)
      let imageX := cellLeft + (columns.cellWidth - dimensions.width) / 2
      let imageY := rowTop + (height - dimensions.height) / 2
      { image := opened.image, page, rect := ⟨imageX, imageY, dimensions.width, dimensions.height⟩ }
        :: drawCells columns page left rowTop height (columnIndex + 1) rest

def renderRow (columns : Columns) (row : List OpenedImage) (document : Document) : Document :=
  let height := rowHeight columns row
  let document := ensureSpace (height + galleryGap) document
  let rowTop := document.y
  { document with
    y := rowTop + height + galleryGap
    drawn := document.drawn
      ++ drawCells columns document.page (rowLeft columns row.length) rowTop height 0 row }

def renderRows (columns : Columns) : List (List OpenedImage) → Document → Document
  | [], document => document
  | row :: rest, document => renderRows columns rest (renderRow columns row document)

/-- Every image is opened before the first is drawn. -/
def openImages (kit : Kit) : List (Id × Bytes) → Except Error (List OpenedImage)
  | [] => .ok []
  | image :: rest =>
      match kit.openImage image.2 with
      | none => .error unknownImageFormat
      | some source => do
          let others ← openImages kit rest
          .ok (⟨image, orientedImageDimensions source⟩ :: others)

def renderGallery (kit : Kit) (images : List (Id × Bytes)) (document : Document) :
    Except Error Document :=
  if images = [] then .ok document
  else do
    let openedImages ← openImages kit images
    let columns := columnsOf openedImages
    .ok (renderRows columns (rowsOf columns openedImages)
      { document with y := document.y + kit.moveDown 0.9 })

end FastRep.Reports.Layout
