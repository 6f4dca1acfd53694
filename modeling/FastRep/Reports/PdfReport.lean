/-
`PdfReportService.generate`: what it draws, and when it throws.

The document is the list of its parts in order. Where they stand on the
pages, how texts are broken, and how asset ids are hidden in them are left
out; `PdfKit` is the library that turns the parts into bytes. Titles are
compared after Unicode normalization, whose tables are `Unicode`.

# The sections

The section loop carries the ids of the images rendered so far. A section
under one of the dedicated titles is passed over where the document has that
part in its own place; a section that is drawn draws those of its images that
no section before it has drawn. `generate` throws on missing fonts, on images
beyond the memory limit, on a section without a first text, on an image
format that `openImage` does not know, and on a document beyond the limit of
pages or bytes.
-/
import FastRep.Reports.Inspector
import FastRep.Reports.Processor
import Mathlib.Algebra.GroupWithZero.Nat

namespace FastRep.Reports

-- ================================================================ titles

/-- The Unicode functions of the language: `normalize('NFKC')`,
`toLocaleLowerCase` and the classes `\p{L}` and `\p{N}`. -/
structure Unicode where
  nfkc : String → String
  toLocaleLowerCase : String → String
  isLetterOrNumber : Char → Bool

inductive DedicatedSectionKind where
  | conclusion | recommendations | summary
  deriving DecidableEq, Repr

/-- `DEDICATED_SECTION_TITLES`. -/
def dedicatedSectionTitles : DedicatedSectionKind → List String
  | .conclusion =>
      ["conclusion", "conclusions", "висновок", "висновки", "fazit", "schlussfolgerung",
        "schlussfolgerungen", "conclusión", "conclusiones"]
  | .recommendations =>
      ["recommendation", "recommendations", "рекомендація", "рекомендації", "empfehlung",
        "empfehlungen", "recommandation", "recommandations", "recomendación",
        "recomendaciones"]
  | .summary =>
      ["summary", "executive summary", "резюме", "підсумок", "zusammenfassung", "résumé",
        "resumen", "resumen ejecutivo"]

/-- A blank for each run of other characters; the flag says that one has
been written for the run. -/
def spaceRuns (keep : Char → Bool) : Bool → List Char → List Char
  | _, [] => []
  | inRun, c :: rest =>
      if keep c then c :: spaceRuns keep false rest
      else if inRun then spaceRuns keep true rest
      else ' ' :: spaceRuns keep true rest

def normalizedTitle (unicode : Unicode) (title : String) : String :=
  let lower := unicode.toLocaleLowerCase (trim (unicode.nfkc title))
  trim (String.ofList (spaceRuns unicode.isLetterOrNumber false lower.toList))

def dedicatedSectionKind (unicode : Unicode) (title : String) :
    Option DedicatedSectionKind :=
  let normalized := normalizedTitle unicode title
  if normalized ∈ dedicatedSectionTitles .summary then some .summary
  else if normalized ∈ dedicatedSectionTitles .conclusion then some .conclusion
  else if normalized ∈ dedicatedSectionTitles .recommendations then some .recommendations
  else none

/-- The section loop passes over the section. -/
def skipsSection (unicode : Unicode) (result : ReportResult) (reportSection : ReportSection) :
    Bool :=
  match dedicatedSectionKind unicode reportSection.title with
  | some .summary => true
  | some .conclusion => result.conclusion.any (· ≠ "")
  | some .recommendations => !result.recommendations.isEmpty
  | none => false

-- ============================================================== document

structure RenderedSection where
  title : String
  blocks : List ReportBlock
  images : List (Id × Bytes)
  deriving DecidableEq, Repr

/-- The parts of the document, in order. -/
structure PdfContent where
  title : String
  subtitle : Option String
  summary : String
  sections : List RenderedSection
  conclusion : Option String
  recommendations : List String
  deriving DecidableEq, Repr

/-- The PDF library: whether it opens an image, and the pages and bytes of a
document, which has headers and footers or not. -/
structure PdfKit where
  openImage : Bytes → Bool
  pageCount : PdfContent → Nat
  write : PdfContent → Bool → Bytes

/-- `REPORT_OUTPUT_MAX_BYTES`, `REPORT_PDF_MAX_PAGES` and
`REPORT_PDF_MAX_IMAGE_BYTES`, and whether the fonts were found. -/
structure PdfSettings where
  maximumBytes : Nat
  maximumPages : Nat
  maximumImageBytes : Nat
  fontsFound : Bool

/-- `imageMap.get`: a later entry replaces an earlier one. -/
def imageBytes? (images : List (Id × Bytes)) (assetId : Id) : Option Bytes :=
  (images.reverse.find? fun image => image.1 = assetId).map (·.2)

/-- The images of a section that have not been rendered yet, and the ids
rendered so far. -/
def sectionImages (images : List (Id × Bytes)) :
    List Id → List Id → List (Id × Bytes) × List Id
  | rendered, [] => ([], rendered)
  | rendered, assetId :: rest =>
      if assetId ∈ rendered then sectionImages images rendered rest
      else match imageBytes? images assetId with
        | none => sectionImages images rendered rest
        | some bytes =>
            let others := sectionImages images (assetId :: rendered) rest
            ((assetId, bytes) :: others.1, others.2)

/-- `section.blocks[0]`, its text or its first item. -/
def firstBlockText (reportSection : ReportSection) : Option String :=
  match reportSection.blocks with
  | .paragraph text :: _ => some text
  | .bulletList (item :: _) :: _ => some item
  | _ => none

/-- What `openImage` throws. -/
def unknownImageFormat : Error := .other "Unknown image format."

/-- `renderGallery`: every image is opened before the first is drawn. -/
def renderGallery (pdf : PdfKit) (images : List (Id × Bytes)) :
    Except Error (List (Id × Bytes)) :=
  if images.all fun image => pdf.openImage image.2 then .ok images
  else .error unknownImageFormat

/-- The section loop. -/
def renderSections (pdf : PdfKit) (unicode : Unicode) (result : ReportResult)
    (images : List (Id × Bytes)) :
    List Id → List ReportSection → Except Error (List RenderedSection)
  | _, [] => .ok []
  | rendered, reportSection :: rest =>
      if skipsSection unicode result reportSection then
        renderSections pdf unicode result images rendered rest
      else match firstBlockText reportSection with
        | none => .error (.other "Cannot read properties of undefined")
        | some _ => do
            let own := sectionImages images rendered reportSection.imageAssetIds
            let drawn ← renderGallery pdf own.1
            let others ← renderSections pdf unicode result images own.2 rest
            .ok (⟨reportSection.title, reportSection.blocks, drawn⟩ :: others)

/-- The parts `generate` draws. -/
def drawReport (pdf : PdfKit) (settings : PdfSettings) (unicode : Unicode)
    (result : ReportResult) (images : List (Id × Bytes)) (reportTitle : String) :
    Except Error PdfContent :=
  if !settings.fontsFound then
    .error (aiProviderError "PDF_FONT_MISSING" false "Required PDF fonts are unavailable")
  else if settings.maximumImageBytes < (images.map (·.2.length)).sum then
    .error (aiProviderError "PDF_IMAGE_INPUT_TOO_LARGE" false
      "PDF image input exceeds the configured memory limit")
  else do
    let sections ← renderSections pdf unicode result images [] result.sections
    .ok {
      title := reportTitle
      subtitle := result.subtitle.filter (· ≠ "")
      summary := result.summary
      sections
      conclusion := result.conclusion.filter (· ≠ "")
      recommendations := result.recommendations }

/-- `completed`: the bytes of the document, within the limit. -/
def completedBytes (settings : PdfSettings) (bytes : Bytes) : Except Error Bytes :=
  if settings.maximumBytes < bytes.length then
    .error (aiProviderError "REPORT_OUTPUT_TOO_LARGE" false
      "Generated PDF exceeds the configured size limit")
  else if !asciiAt bytes 0 "%PDF-" then
    .error (aiProviderError "PDF_GENERATION_FAILED" false "Generated output is not a valid PDF")
  else .ok bytes

def generate (pdf : PdfKit) (settings : PdfSettings) (unicode : Unicode)
    (result : ReportResult) (images : List (Id × Bytes)) (reportTitle : String) :
    Except Error Bytes := do
  let content ← drawReport pdf settings unicode result images reportTitle
  if settings.maximumPages < pdf.pageCount content then do
    let _ ← completedBytes settings (pdf.write content false)
    .error (aiProviderError "REPORT_OUTPUT_TOO_MANY_PAGES" false
      "Generated PDF exceeds the configured page limit")
  else
    completedBytes settings (pdf.write content true)

end FastRep.Reports
