/-
`OpenAiReportProviderService.generateReport`: the request for a report and
how its answer is read.

The model is shown the images under aliases, `IMAGE_1` and so on, and refers
to them by these; `mapImageAliases` turns the references of an answer into
the ids of the assets. `Call.generateReport` is this function from the
outside, with the result it returns.

The answer is read in three steps: the schema, which allows the aliases of
this request and no other reference; the aliases, which become ids, each id
once in a section; and the schema of the result, which trims and bounds the
texts.
-/
import FastRep.Reports.Processor

namespace FastRep.Reports

-- ============================================================ the request

structure ProviderImageInputWithAlias extends ProviderImageInput where
  imageAlias : String
  deriving DecidableEq, Repr

/-- The alias of the image at an index, which counts from 0. -/
def aliasAt (index : Nat) : String := "IMAGE_" ++ toString (index + 1)

def withAliases (images : List ProviderImageInput) : List ProviderImageInputWithAlias :=
  images.mapIdx fun index image => { image with imageAlias := aliasAt index }

inductive ResponseInputContent where
  /-- an `input_text` with the source text -/
  | sourceText (text : SourceText)
  | inputText (text : String)
  | inputImage (imageUrl : StorageKey)
  | inputFile (fileId : Nat)
  deriving DecidableEq, Repr

/-- An image is announced with its alias. -/
def imageContent (image : ProviderImageInputWithAlias) : List ResponseInputContent :=
  [.inputText ("The next image is " ++ image.imageAlias
      ++ ". Use this alias in imageRefs when referencing the image."),
    .inputImage image.url]

/-- The content of the request, in order. -/
def responseContent (request : ProviderReportRequest) : List ResponseInputContent :=
  .sourceText request.sourceText
    :: ((withAliases request.images).flatMap imageContent
      ++ request.documents.map fun document => .inputFile document.fileId)

def validateImageInputs (now : Time) (images : List ProviderImageInput) : Except Error Unit :=
  match images.find? fun image =>
      image.mimeType ∉ supportedImageMimeTypes || image.referenceExpiresAt ≤ now with
  | none => .ok ()
  | some image =>
      if image.mimeType ∉ supportedImageMimeTypes then
        .error (aiProviderError "AI_UNSUPPORTED_IMAGE_MIME" false
          "A report image has an unsupported format")
      else
        .error (aiProviderError "AI_INVALID_IMAGE_REFERENCE" false
          "A report image reference expired before provider generation")

-- ============================================================= the answer

/-- A section as the model writes it, with references for ids. -/
structure ProviderSection where
  title : String
  blocks : List ReportBlock
  imageRefs : List String
  deriving DecidableEq, Repr

structure ProviderReportResult where
  title : String
  subtitle : Option String
  summary : String
  sections : List ProviderSection
  conclusion : Option String
  recommendations : List String
  deriving DecidableEq, Repr

/-- `z.array(z.enum(aliases)).max(20)`, or no reference where there is no
alias. -/
def parseImageRefs (aliases : List String) (imageRefs : List String) : Option (List String) :=
  if 0 < aliases.length then
    boundedList 0 20 (fun ref => if ref ∈ aliases then some ref else none) imageRefs
  else
    boundedList 0 0 some imageRefs

def parseProviderSection (aliases : List String) (s : ProviderSection) :
    Option ProviderSection := do
  let title ← boundedText 300 s.title
  let blocks ← boundedList 1 50 parseBlock s.blocks
  let imageRefs ← parseImageRefs aliases s.imageRefs
  some { title, blocks, imageRefs }

/-- `responseSchema(aliases).safeParse`, `none` where it fails. -/
def responseSchema (aliases : List String) (r : ProviderReportResult) :
    Option ProviderReportResult := do
  let title ← boundedText 300 r.title
  let subtitle ← parseNullable 500 r.subtitle
  let summary ← boundedText 8000 r.summary
  let sections ← boundedList 1 30 (parseProviderSection aliases) r.sections
  let conclusion ← parseNullable 8000 r.conclusion
  let recommendations ← boundedList 0 30 (boundedText 2000) r.recommendations
  some { title, subtitle, summary, sections, conclusion, recommendations }

/-- `assetIdByAlias.get`: a later entry replaces an earlier one. -/
def assetIdByAlias (images : List ProviderImageInputWithAlias) (ref : String) : Option Id :=
  (images.reverse.find? fun image => image.imageAlias = ref).map (·.assetId)

def unavailableImage (providerRequestId : Option String) : Error :=
  .provider ⟨"AI_INVALID_IMAGE_REFERENCE", false, "AI response referenced an unavailable image",
    providerRequestId⟩

/-- The `flatMap` over the references of a section, with the ids seen. -/
def mapImageRefs (images : List ProviderImageInputWithAlias) (providerRequestId : Option String) :
    List Id → List String → Except Error (List Id)
  | _, [] => .ok []
  | seen, ref :: rest =>
      match assetIdByAlias images ref with
      | none => .error (unavailableImage providerRequestId)
      | some assetId =>
          if assetId ∈ seen then
            mapImageRefs images providerRequestId seen rest
          else do
            let others ← mapImageRefs images providerRequestId (assetId :: seen) rest
            .ok (assetId :: others)

/-- The sections of the result. -/
def mapSections (images : List ProviderImageInputWithAlias) (providerRequestId : Option String) :
    List ProviderSection → Except Error (List ReportSection)
  | [] => .ok []
  | s :: rest => do
      let imageAssetIds ← mapImageRefs images providerRequestId [] s.imageRefs
      let others ← mapSections images providerRequestId rest
      .ok ({ title := s.title, blocks := s.blocks, imageAssetIds } :: others)

def mapImageAliases (result : ProviderReportResult) (images : List ProviderImageInputWithAlias)
    (providerRequestId : Option String) : Except Error ReportResult := do
  let sections ← mapSections images providerRequestId result.sections
  match parseReportResult {
      title := result.title
      subtitle := result.subtitle
      summary := result.summary
      sections
      conclusion := result.conclusion
      recommendations := result.recommendations } with
  | some result => .ok result
  | none => .error (.other "ZodError")

/-- Why an answer does not match the schema. -/
def invalidProviderImageReference (result : ProviderReportResult) (aliases : List String)
    (providerRequestId : Option String) : Error :=
  if (result.sections.flatMap (·.imageRefs)).any (· ∉ aliases) then
    unavailableImage providerRequestId
  else
    .provider ⟨"AI_INVALID_RESPONSE", false,
      "AI provider response did not match the required schema", providerRequestId⟩

/-- What `responses.parse` returns. -/
structure ParsedResponse where
  completed : Bool
  incomplete : Bool
  outputParsed : Option ProviderReportResult
  requestId : Option String
  inputTokens : Option Nat
  outputTokens : Option Nat

/-- The answer of the model, read as a report. -/
def readResponse (images : List ProviderImageInputWithAlias) (response : ParsedResponse) :
    Except Error (ProviderResult ReportResult) :=
  match response.outputParsed.filter fun _ => response.completed with
  | none => .error (.provider ⟨"AI_INCOMPLETE_RESPONSE", response.incomplete,
      "The AI provider returned an incomplete response", response.requestId⟩)
  | some output =>
      match responseSchema (images.map (·.imageAlias)) output with
      | none => .error (invalidProviderImageReference output (images.map (·.imageAlias))
          response.requestId)
      | some parsed => do
          let value ← mapImageAliases parsed images response.requestId
          .ok ⟨value, response.requestId, response.inputTokens, response.outputTokens⟩

/-- `generateReport`, with the API as a function of the content. Its errors
and those of the schemas go through `providerError` on the way out. -/
def generateReport (now : Time) (request : ProviderReportRequest)
    (respond : List ResponseInputContent → Except Error ParsedResponse) :
    Except Error (ProviderResult ReportResult) := do
  validateImageInputs now request.images
  let response ← respond (responseContent request)
  readResponse (withAliases request.images) response

end FastRep.Reports
