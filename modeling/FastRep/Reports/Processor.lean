/-
`ReportGenerationProcessorService`: one run of the worker on a generation.

A run draws a processing token and claims the generation with it. Every
later change of the row is guarded by that token. The `try` block of
`process` is `tryBlock`; what its handlers read of it, the temporary files
and the key of an output uploaded but not published, is in its outcome.
`settleError` is the `catch` block, and `finally` deletes the temporary
files whichever way the run went.

# The order of a run

- `analyze` loads the generation and its snapshot, transcribes the audio
  assets one by one, and has the source text and the images moderated;
- `generateContent` takes the stored result, or uploads the documents and
  asks the provider for one;
- `renderOutput` loads the images the result refers to and draws the
  document;
- `tryBlock` uploads the document under a key of its own and publishes it
  in `finalizeSuccess`, which settles the credit and the report.

Each of these may throw at any of its calls. `settleError` then decides
between another attempt (`prepareRetry`) and the end (`failGeneration`), and
schedules the cleanup of an output that was uploaded.

# What runs beside it

The heartbeat timer of a run is a request of its own (`heartbeat`), since
its lease renewals interleave with the run. Aborting only makes provider
calls fail, which they may at any time.
-/
import FastRep.Reports.Generations
import FastRep.Reports.Transcriptions

namespace FastRep.Reports

open FastRep.Txn

-- ============================================================= results

inductive GenerationProcessResult where
  | completed
  | deferred (retryAt : Time)
  deriving DecidableEq, Repr

/-- `GENERATION_PROGRESS`. -/
def generationProgress : ReportGenerationStage → Nat
  | .preparing => 5
  | .transcribing => 10
  | .analyzing => 40
  | .generatingContent => 60
  | .generatingPdf => 80
  | .uploadingOutput => 95
  | .completed => 100

/-- `z.string().trim().min(1).max(n)`. -/
def boundedText (maximum : Nat) (s : String) : Option String :=
  if 1 ≤ utf16Length (trim s) ∧ utf16Length (trim s) ≤ maximum then some (trim s) else none

/-- A list schema: each item parsed, the length in bounds. -/
def boundedList {α β : Type} (minimum maximum : Nat) (parse : α → Option β)
    (l : List α) : Option (List β) :=
  if minimum ≤ l.length ∧ l.length ≤ maximum then l.mapM parse else none

def parseNullable (maximum : Nat) : Option String → Option (Option String)
  | none => some none
  | some s => (boundedText maximum s).map some

def parseBlock : ReportBlock → Option ReportBlock
  | .paragraph text => (boundedText 8000 text).map .paragraph
  | .bulletList items =>
      (boundedList 1 30 (boundedText 1000) items).map .bulletList

def parseSection (r : ReportSection) : Option ReportSection := do
  let title ← boundedText 300 r.title
  let blocks ← boundedList 1 50 parseBlock r.blocks
  if r.imageAssetIds.length ≤ 20 then
    some { title, blocks, imageAssetIds := r.imageAssetIds }
  else
    none

/-- `reportResultSchema.parse`, `none` where it throws. -/
def parseReportResult (r : ReportResult) : Option ReportResult := do
  let title ← boundedText 300 r.title
  let subtitle ← parseNullable 500 r.subtitle
  let summary ← boundedText 8000 r.summary
  let sections ← boundedList 1 30 parseSection r.sections
  let conclusion ← parseNullable 8000 r.conclusion
  let recommendations ← boundedList 0 30 (boundedText 2000) r.recommendations
  some { title, subtitle, summary, sections, conclusion, recommendations }

def parseOrThrow (r : ReportResult) : Async ReportResult :=
  match parseReportResult r with
  | some r => pure r
  | none => .throw (.other "ZodError")

-- =========================================================== the claim

/-- A QUEUED row, or a PROCESSING one whose lease ran out. -/
def ReportGeneration.claimable (now : Time) (r : ReportGeneration) : Bool :=
  r.status = .queued || (r.status = .processing
    && match r.processingLeaseExpiresAt with
      | some expiresAt => expiresAt < now
      | none => false)

def ReportGeneration.claimed (now leaseExpiresAt : Time) (processingToken : Id)
    (r : ReportGeneration) : ReportGeneration :=
  { r with
    status := .processing
    processingToken := some processingToken
    processingLeaseExpiresAt := some leaseExpiresAt
    startedAt := some now
    attemptCount := r.attemptCount + 1 }

def claim (cfg : Config) (generationId processingToken : Id) : Async Bool := do
  let now ← Prog.clock
  transaction (.claim generationId processingToken) do
    let count ← updateRow (.generation generationId)
      (onGeneration (·.claimable now))
      (setGeneration
        (·.claimed now (now + cfg.reportGenerationJobTimeoutMs) processingToken))
    if count ≠ 1 then
      pure false
    else do
      let generation ← selectOrThrow fun d => generation? d generationId
      let _ ← updateRow (.report generation.reportId)
        (onReport fun r => r.status = .queued || r.status = .processing)
        (setReport fun r => { r with status := .processing })
      pure true

def resultAfterClaimLoss (generationId : Id) : Async GenerationProcessResult := do
  let generation ← query (.resultAfterClaimLoss generationId) fun d =>
    generation? d generationId
  match generation with
  | none => pure .completed
  | some generation =>
      if generation.status ≠ .processing then
        pure .completed
      else do
        let now ← Prog.clock
        let leaseExpiration := generation.processingLeaseExpiresAt.getD now
        pure (.deferred (max (now + 1000) (leaseExpiration + 1000)))

-- ======================================================= fenced updates

/-- The guard of every fenced update: the token and an unexpired lease. -/
def ReportGeneration.heldBy (processingToken : Id) (now : Time)
    (r : ReportGeneration) : Bool :=
  r.ownedBy processingToken && r.leasedAfter now

def updateProgress (cfg : Config) (generationId : Id)
    (stage : ReportGenerationStage) (progress : Nat) (processingToken : Id) :
    Async Unit := do
  let now ← Prog.clock
  let leaseStart ← Prog.clock
  let count ← transaction (.updateProgress generationId processingToken)
    (updateRow (.generation generationId)
      (onGeneration (·.heldBy processingToken now))
      (setGeneration fun r => { r with
        stage
        progress
        processingLeaseExpiresAt :=
          some (leaseStart + cfg.reportGenerationJobTimeoutMs) }))
  if count ≠ 1 then
    .throw claimLost
  else
    pure ()

def renewLease (cfg : Config) (generationId processingToken : Id) : Async Bool := do
  let now ← Prog.clock
  let leaseStart ← Prog.clock
  let count ← transaction (.renewLease generationId processingToken)
    (updateRow (.generation generationId)
      (onGeneration (·.heldBy processingToken now))
      (setGeneration fun r => { r with
        processingLeaseExpiresAt :=
          some (leaseStart + cfg.reportGenerationJobTimeoutMs) }))
  pure (count = 1)

def assertOwnership (cfg : Config) (generationId processingToken : Id) :
    Async Unit := do
  let renewed ← renewLease cfg generationId processingToken
  if renewed then
    pure ()
  else
    .throw claimLost

/-- The transaction that stores the provider's result with its attempt. -/
def persistReportResult (cfg : Config) (generationId processingToken : Id)
    (attempt : AttemptKey) (structuredResult : ReportResult)
    (result : ProviderResult ReportResult) : Async Unit :=
  transaction (.persistReportResult generationId processingToken) do
    let now ← Tx.clock
    let owned ← select (findOwned generationId processingToken now)
    if owned.isNone then
      .throw claimLost
    else do
      completeInTransaction attempt processingToken
        ⟨result.providerRequestId, result.inputTokens, result.outputTokens, none⟩
      let leaseStart ← Tx.clock
      let count ← updateRow (.generation generationId)
        (onGeneration (·.ownedBy processingToken))
        (setGeneration fun r => { r with
          structuredResult := some structuredResult
          provider := some "openai"
          model := some cfg.openaiReportModel
          providerRequestId := result.providerRequestId
          inputTokens := result.inputTokens
          outputTokens := result.outputTokens
          processingLeaseExpiresAt :=
            some (leaseStart + cfg.reportGenerationJobTimeoutMs) })
      if count ≠ 1 then
        .throw claimLost
      else
        pure ()

-- ============================================================== endings

def ReportGeneration.completed (now : Time) (r : ReportGeneration) :
    ReportGeneration :=
  { r with
    status := .completed
    stage := .completed
    progress := generationProgress .completed
    completedAt := some now
    processingToken := none
    processingLeaseExpiresAt := none }

def Report.published (r : Report) : Report :=
  { r with
    status := .ready
    reportConsecutiveFailureCount := 0
    reportFailureWindowStartedAt := none
    reportGenerationLockedUntil := none }

/-- `update` with a second condition on the row (`where: { id, userId }`). -/
def updateOwnedOrThrow (k : Key) (p : Row → Bool) (f : Row → Row) :
    InTransaction Unit := do
  let count ← updateRow k p f
  if count = 1 then
    pure ()
  else
    .throw (raise .recordNotFound)

def finalizeSuccess (generationId reportId userId processingToken : Id)
    (storageKey : StorageKey) (size : Nat) : Async Unit :=
  transaction (.finalizeSuccess generationId processingToken) do
    let now ← Tx.clock
    let owned ← select fun d => (findOwned generationId processingToken now d).filter
      fun r => r.userId = userId
    if owned.isNone then
      .throw claimLost
    else do
      let createdAt ← Tx.clock
      insertRow (.output {
        reportId, generationId, storageKey
        mimeType := "application/pdf", size, createdAt })
      let completedAt ← Tx.clock
      let count ← updateRow (.generation generationId)
        (onGeneration fun r => r.userId = userId && r.ownedBy processingToken)
        (setGeneration (·.completed completedAt))
      if count ≠ 1 then
        .throw claimLost
      else do
        updateOwnedOrThrow (.report reportId)
          (onReport fun r => r.userId = userId) (setReport Report.published)
        consumeInTransaction generationId

def ReportGeneration.requeued (errorCode : String) (r : ReportGeneration) :
    ReportGeneration :=
  { r with
    status := .queued
    errorCode := some errorCode
    errorMessage := some "A temporary dependency error occurred; retrying"
    processingToken := none
    processingLeaseExpiresAt := none }

def prepareRetry (generationId processingToken : Id) (errorCode : String) :
    Async Bool :=
  transaction (.prepareRetry generationId processingToken) do
    let now ← Tx.clock
    let count ← updateRow (.generation generationId)
      (onGeneration (·.heldBy processingToken now))
      (setGeneration (·.requeued errorCode))
    if count ≠ 1 then
      pure false
    else do
      let generation ← selectOrThrow fun d => generation? d generationId
      let _ ← updateRow (.report generation.reportId)
        (onReport fun r => r.status = .processing)
        (setReport fun r => { r with status := .queued })
      pure true

def ReportGeneration.ended (errorCode message : String) (now : Time)
    (r : ReportGeneration) : ReportGeneration :=
  { r with
    status := .failed
    errorCode := some errorCode
    errorMessage := some (slice message 300)
    completedAt := some now
    processingToken := none
    processingLeaseExpiresAt := none }

/-- The throttle fields after one more terminal failure, and the status
the report falls back to. -/
def Report.failedAt (cfg : Config) (now : Time) (hasOutput : Bool)
    (r read : Report) : Report :=
  let withinWindow := match read.reportFailureWindowStartedAt with
    | none => false
    | some startedAt => startedAt ≤ now
        && now - startedAt ≤ cfg.reportFailedRetryWindowMinutes * 60000
  let consecutiveFailures :=
    if withinWindow then read.reportConsecutiveFailureCount + 1 else 1
  { r with
    status := if hasOutput then .ready else .failed
    reportConsecutiveFailureCount := consecutiveFailures
    reportFailureWindowStartedAt :=
      if withinWindow then read.reportFailureWindowStartedAt else some now
    reportGenerationLockedUntil :=
      if cfg.reportFailedRetryLimit ≤ consecutiveFailures then
        some (now + cfg.reportFailedLockMinutes * 60000)
      else none }

/-- The report of a failed generation, with whether it has an output. -/
def reportWithOutput (reportId : Id) (d : Db Row) : Option (Report × Bool) :=
  (report? d reportId).map fun r =>
    (r, (outputs d).any fun o => o.reportId = reportId)

def failGeneration (cfg : Config) (generationId processingToken : Id)
    (errorCode message : String) : Async Bool :=
  transaction (.failGeneration generationId processingToken) do
    let now ← Tx.clock
    let leaseNow ← Tx.clock
    let count ← updateRow (.generation generationId)
      (onGeneration (·.heldBy processingToken leaseNow))
      (setGeneration (·.ended errorCode message now))
    if count ≠ 1 then
      pure false
    else do
      let owned ← selectOrThrow fun d => generation? d generationId
      let report ← selectOrThrow (reportWithOutput owned.reportId)
      updateOrThrow (.report owned.reportId)
        (setReport (·.failedAt cfg now report.2 report.1))
      releaseInTransaction generationId ("Terminal failure: " ++ errorCode)
      pure true

def scheduleOrphanCleanup (k : StorageKey) : Async Unit := do
  transaction (.scheduleOrphanCleanup k) (upsertCleanupTask k .orphanOutput)
  let _ ← (attemptMany [k]).attempt
  pure ()

-- ========================================================= source text

def sourceTypeLabel : ReportAssetType → String
  | .image => "photograph"
  | .document => "attached document"
  | .audio => "audio recording"

/-- The manifest entries, numbered per type. -/
def assetManifest (counts : ReportAssetType → Nat) :
    List GenerationSnapshotAsset → List ManifestEntry
  | [] => []
  | asset :: rest =>
      let sourceNumber := counts asset.type + 1
      { source := sourceTypeLabel asset.type ++ " " ++ toString sourceNumber
        type := asset.type
        mimeType := asset.verifiedMimeType
        position := asset.position }
        :: assetManifest
          (fun type => if type = asset.type then sourceNumber else counts type) rest

def buildSourceText (snapshot : GenerationInputSnapshot)
    (transcripts : List (Id × String)) : SourceText where
  requestedLanguage := snapshot.report.language
  title := snapshot.report.title
  notes := snapshot.report.notes
  assetManifest := assetManifest (fun _ => 0) snapshot.assets
  audioTranscripts := transcripts.mapIdx fun index transcript =>
    ("audio recording " ++ toString (index + 1), transcript.2)

def validateImageReferences (result : ReportResult)
    (images : List GenerationSnapshotAsset) : Async Unit :=
  if (result.sections.flatMap (·.imageAssetIds)).any fun id =>
      id ∉ images.map (·.id) then
    .throw (aiProviderError "AI_INVALID_IMAGE_REFERENCE" false
      "AI response referenced an unavailable image")
  else
    pure ()

def supportedImageMimeTypes : List String := ["image/jpeg", "image/png", "image/webp"]

def assertSupportedImageMimeTypes (images : List GenerationSnapshotAsset) :
    Async Unit :=
  if images.any fun image => image.verifiedMimeType ∉ supportedImageMimeTypes then
    .throw (aiProviderError "AI_UNSUPPORTED_IMAGE_MIME" false
      "A report image has an unsupported format")
  else
    pure ()

def parseSnapshot (value : Option GenerationInputSnapshot) :
    Async GenerationInputSnapshot :=
  match value.filter fun snapshot => snapshot.version = 1 with
  | some snapshot => pure snapshot
  | none => .throw (aiProviderError "INVALID_INPUT_SNAPSHOT" false
      "Generation input snapshot is invalid")

def assertBeforeDeadline (deadline : Time) : Async Unit := do
  let now ← Prog.clock
  if deadline ≤ now then
    .throw (aiProviderError "GENERATION_TIMEOUT" true
      "Report generation exceeded its processing deadline")
  else
    pure ()

def normalizeError : Error → AiProviderError
  | .provider e => e
  | _ => ⟨"GENERATION_DEPENDENCY_UNAVAILABLE", true,
      "Report generation failed because a dependency is unavailable", none⟩

-- ========================================================= the try block

/-- What the try block works on: the run, the generation it loaded and its
snapshot. -/
structure Run where
  generationId : Id
  processingToken : Id
  deadline : Time
  generation : ReportGeneration
  snapshot : GenerationInputSnapshot

def Run.imageAssets (run : Run) : List GenerationSnapshotAsset :=
  run.snapshot.assets.filter fun a => a.type = .image

/-- `Math.round(((index + 1) / count) * 25)`. -/
def transcriptionProgress (index count : Nat) : Nat :=
  (50 * (index + 1) + count) / (2 * count)

/-- The transcripts of the audio assets from an index on. -/
def transcribeAll (cfg : Config) (run : Run) (count : Nat) :
    Nat → List GenerationSnapshotAsset → Async (List (Id × String))
  | _, [] => pure []
  | index, asset :: rest => do
      assertBeforeDeadline run.deadline
      let text ← getOrCreate cfg run.generationId asset
        run.snapshot.report.language run.processingToken run.deadline
      updateProgress cfg run.generationId .transcribing
        (generationProgress .transcribing + transcriptionProgress index count)
        run.processingToken
      let transcripts ← transcribeAll cfg run count (index + 1) rest
      pure ((asset.id, text) :: transcripts)

/-- Presigned GETs for a list of images. -/
def presignAll (cfg : Config) :
    List GenerationSnapshotAsset → Async (List (GenerationSnapshotAsset × PresignedGet))
  | [] => pure []
  | asset :: rest => do
      let reference ← createPresignedGet cfg asset.storageKey
      let references ← presignAll cfg rest
      pure ((asset, reference) :: references)

/-- The moderation of a source text and its images, with its attempt. -/
def moderate (cfg : Config) (run : Run) (sourceText : SourceText)
    (imageUrls : List StorageKey) : Async Unit := do
  let completed ← hasCompleted run.generationId .moderation none
  if completed then
    pure ()
  else do
    assertBeforeDeadline run.deadline
    let moderationAttempt ← startAttempt cfg run.generationId .moderation
      "openai" "omni-moderation-latest" run.processingToken run.deadline none
    (do
      let moderation ← calling run.generationId .moderation none
        (Provider.moderate sourceText imageUrls)
      if moderation.value then
        .throw (aiProviderError "CONTENT_NOT_PROCESSABLE" false
          "The supplied content cannot be processed")
      else
        completeOwned run.generationId moderationAttempt run.processingToken
          ⟨moderation.providerRequestId, none, none, none⟩).catch fun error => do
        match error with
        | .provider e =>
            failAttempt moderationAttempt e.code run.processingToken
              e.providerRequestId
        | _ =>
            failAttempt moderationAttempt "AI_UNAVAILABLE" run.processingToken none
        .throw error

/-- From loading the generation to the moderated source text. -/
def analyze (cfg : Config) (generationId processingToken : Id) (deadline : Time) :
    Async (Run × SourceText × Option ReportResult) := do
  let generation ← transaction (.loadGeneration generationId)
    (selectOrThrow fun d => generation? d generationId)
  let snapshot ← parseSnapshot generation.inputSnapshot
  let run : Run := { generationId, processingToken, deadline, generation, snapshot }
  updateProgress cfg generationId .transcribing
    (generationProgress .transcribing) processingToken
  let audioAssets := snapshot.assets.filter fun a => a.type = .audio
  let transcripts ← transcribeAll cfg run audioAssets.length 0 audioAssets
  updateProgress cfg generationId .analyzing
    (generationProgress .analyzing) processingToken
  assertSupportedImageMimeTypes run.imageAssets
  assertBeforeDeadline deadline
  let moderationImageInputs ← presignAll cfg run.imageAssets
  let sourceText := buildSourceText snapshot transcripts
  moderate cfg run sourceText (moderationImageInputs.map (·.2.url))
  updateProgress cfg generationId .generatingContent
    (generationProgress .generatingContent) processingToken
  match generation.structuredResult with
  | none => pure (run, sourceText, none)
  | some stored => do
      let structuredResult ← parseOrThrow stored
      pure (run, sourceText, some structuredResult)

/-- Upload the documents in order; the files uploaded so far are part of
the outcome, also of a failed one. -/
def uploadDocuments (deadline : Time) :
    List GenerationSnapshotAsset →
    Async (List ProviderDocumentInput × Except Error Unit)
  | [] => pure ([], .ok ())
  | asset :: rest => do
      let uploaded ← (do
        assertBeforeDeadline deadline
        let _ ← awaitOk (.getObject asset.storageKey none)
        let fileId : Nat ← awaitOk (.uploadDocument asset.storageKey
          asset.originalFileName asset.verifiedMimeType)
        pure fileId).attempt
      match uploaded with
      | .error e => pure ([], .error e)
      | .ok fileId => do
          let others ← uploadDocuments deadline rest
          pure (⟨asset.id, fileId⟩ :: others.1, others.2)

/-- The provider call that writes the report, with its attempt. -/
def requestReport (cfg : Config) (run : Run) (sourceText : SourceText)
    (documents : List ProviderDocumentInput) : Async ReportResult := do
  let reportAttempt ← startAttempt cfg run.generationId .reportGeneration
    "openai" cfg.openaiReportModel run.processingToken run.deadline none
  (do
    assertBeforeDeadline run.deadline
    let references ← presignAll cfg run.imageAssets
    let images := references.map fun r : GenerationSnapshotAsset × PresignedGet =>
      { assetId := r.1.id, url := r.2.url, mimeType := r.1.verifiedMimeType
        referenceExpiresAt := r.2.expiresAt : ProviderImageInput }
    let result : ProviderResult ReportResult ←
      calling run.generationId .reportGeneration none (awaitOk (.generateReport {
        sourceText
        images
        documents
        safetyIdentifier := run.generation.userId
        maxOutputTokens := cfg.aiMaxOutputTokens }))
    let structuredResult ← parseOrThrow result.value
    validateImageReferences structuredResult run.imageAssets
    persistReportResult cfg run.generationId run.processingToken reportAttempt
      structuredResult result
    pure structuredResult).catch fun error => do
      match error with
      | .provider e => do
          failAttempt reportAttempt e.code run.processingToken e.providerRequestId
          .throw error
      | _ => do
          failAttempt reportAttempt "AI_INVALID_RESPONSE" run.processingToken none
          .throw (aiProviderError "AI_INVALID_RESPONSE" true
            "AI response validation failed")

/-- The report content, stored or new, with the temporary files. -/
def generateContent (cfg : Config) (run : Run) (sourceText : SourceText)
    (stored : Option ReportResult) :
    Async (List Nat × Except Error ReportResult) :=
  match stored with
  | some structuredResult => pure ([], .ok structuredResult)
  | none => do
      let documents ← uploadDocuments run.deadline
        (run.snapshot.assets.filter fun a => a.type = .document)
      let temporaryFileIds := documents.1.map (·.fileId)
      match documents.2 with
      | .error e => pure (temporaryFileIds, .error e)
      | .ok _ => do
          let content ← (requestReport cfg run sourceText documents.1).attempt
          pure (temporaryFileIds, content)

/-- The bytes of the images a result refers to. -/
def loadImages : List GenerationSnapshotAsset → Async (List (Id × Bytes))
  | [] => pure []
  | image :: rest => do
      let bytes ← readObjectBytes image.storageKey image.verifiedSize
      let images ← loadImages rest
      pure ((image.id, bytes) :: images)

def loadReferencedImages (result : ReportResult)
    (images : List GenerationSnapshotAsset) : Async (List (Id × Bytes)) :=
  loadImages (images.filter fun image =>
    image.id ∈ result.sections.flatMap (·.imageAssetIds))

/-- From the report content to the moment before the upload. -/
def renderOutput (cfg : Config) (run : Run) (structuredResult : ReportResult) :
    Async Bytes := do
  validateImageReferences structuredResult run.imageAssets
  updateProgress cfg run.generationId .generatingPdf
    (generationProgress .generatingPdf) run.processingToken
  assertBeforeDeadline run.deadline
  let pdfImages ← loadReferencedImages structuredResult run.imageAssets
  let generatedAt ← Prog.clock
  let pdfBytes : Bytes ← awaitOk (.renderPdf structuredResult pdfImages generatedAt
    run.snapshot.report.language run.snapshot.report.title
    run.snapshot.report.timezone)
  assertOwnership cfg run.generationId run.processingToken
  updateProgress cfg run.generationId .uploadingOutput
    (generationProgress .uploadingOutput) run.processingToken
  assertBeforeDeadline run.deadline
  pure pdfBytes

/-- What the handlers of the try block read. -/
structure TryOutcome where
  temporaryFileIds : List Nat
  uploadedOutputKey : Option StorageKey
  result : Except Error Unit

def tryBlock (cfg : Config) (generationId processingToken : Id) (deadline : Time) :
    Async TryOutcome := do
  let analyzed ← (analyze cfg generationId processingToken deadline).attempt
  match analyzed with
  | .error e => pure ⟨[], none, .error e⟩
  | .ok (run, sourceText, stored) => do
      let content ← generateContent cfg run sourceText stored
      match content.2 with
      | .error e => pure ⟨content.1, none, .error e⟩
      | .ok structuredResult => do
          let rendered ← (renderOutput cfg run structuredResult).attempt
          match rendered with
          | .error e => pure ⟨content.1, none, .error e⟩
          | .ok pdfBytes => do
              let uploadedOutputKey := StorageKey.output run.generation.userId
                run.generation.reportId generationId processingToken
              let published ← (do
                uploadObject uploadedOutputKey pdfBytes
                finalizeSuccess generationId run.generation.reportId
                  run.generation.userId processingToken uploadedOutputKey
                  pdfBytes.length).attempt
              match published with
              | .error e => pure ⟨content.1, some uploadedOutputKey, .error e⟩
              | .ok _ => pure ⟨content.1, none, .ok ()⟩

-- ============================================================= process

/-- `if (uploadedOutputKey) await this.scheduleOrphanCleanup(...)`. -/
def cleanupOrphan : Option StorageKey → Async Unit
  | none => pure ()
  | some k => scheduleOrphanCleanup k

/-- The catch block. -/
def settleError (cfg : Config) (generationId processingToken : Id)
    (queueAttempt maximumQueueAttempts : Nat)
    (uploadedOutputKey : Option StorageKey) (error : Error) :
    Async GenerationProcessResult := do
  let providerError := normalizeError error
  cleanupOrphan uploadedOutputKey
  if providerError.code = "GENERATION_CLAIM_LOST" then
    resultAfterClaimLoss generationId
  else if providerError.retryable && queueAttempt < maximumQueueAttempts then do
    let prepared ← prepareRetry generationId processingToken providerError.code
    if prepared then
      .throw (.provider providerError)
    else
      resultAfterClaimLoss generationId
  else do
    let failed ← failGeneration cfg generationId processingToken
      providerError.code providerError.message
    if failed then
      pure .completed
    else
      resultAfterClaimLoss generationId

def deleteTemporaryFiles : List Nat → Async Unit
  | [] => pure ()
  | fileId :: rest => do
      let _ ← (awaitOk (.deleteTemporaryFile fileId)).attempt
      deleteTemporaryFiles rest

def process (cfg : Config) (generationId queueAttempt maximumQueueAttempts : Nat) :
    Async GenerationProcessResult := do
  let processingToken ← randomUUID
  let claimed ← claim cfg generationId processingToken
  if !claimed then
    resultAfterClaimLoss generationId
  else do
    let startedAt ← Prog.clock
    let outcome ← tryBlock cfg generationId processingToken
      (startedAt + cfg.reportGenerationJobTimeoutMs)
    let result ← (match outcome.result with
      | .ok _ => pure GenerationProcessResult.completed
      | .error e => settleError cfg generationId processingToken queueAttempt
          maximumQueueAttempts outcome.uploadedOutputKey e).attempt
    deleteTemporaryFiles outcome.temporaryFileIds
    Prog.settle result

/-- One tick of the heartbeat timer of a run. -/
def heartbeat (cfg : Config) (generationId processingToken : Id) (deadline : Time) :
    Async Unit := do
  let now ← Prog.clock
  if deadline ≤ now then
    pure ()
  else do
    let _ ← (renewLease cfg generationId processingToken).attempt
    pure ()

end FastRep.Reports
