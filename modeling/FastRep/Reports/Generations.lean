/-
`ReportGenerationsService`: starting, retrying and cancelling a
generation.

`start` looks the idempotency key up before its transaction, inside it,
and once more after a unique violation. The transaction is SERIALIZABLE
and retried on a write conflict. Only then is the job enqueued; where the
queue throws, `compensateQueueFailure` undoes the start.

# The transaction of a start

In the order of the source: the key, the report, the verified account, that
the report is DRAFT or FAILED, the lock of the failure throttle, the notes and
assets, the hourly and daily numbers of the user and the daily number of all
users, and only then the new row with its snapshot, its reservation and the
report's status. Each check throws an error of its own, and all of them look
at the rows of one moment.

# Undoing a start

The compensation reads the generation once, and where it is QUEUED gives the
credit back, puts the report back to the status before, guarded by QUEUED, and
deletes the generation. The read takes no lock, so a worker that got the job
after all, or a cancellation, may come in between.
-/
import FastRep.Reports.Credits

namespace FastRep.Reports

open FastRep.Txn

def reportPromptVersion : String := "report-v1"

def serializableRetryLimit : Nat := 3

/-- What a client sees of a generation (`publicGenerationSelect`). -/
structure PublicGeneration where
  id : Id
  status : ReportGenerationStatus
  stage : ReportGenerationStage
  progress : Nat
  errorCode : Option String
  errorMessage : Option String
  createdAt : Time
  startedAt : Option Time
  completedAt : Option Time
  cancelledAt : Option Time
  deriving DecidableEq, Repr

def toPublicGeneration (r : ReportGeneration) : PublicGeneration where
  id := r.id
  status := r.status
  stage := r.stage
  progress := r.progress
  errorCode := r.errorCode
  errorMessage := r.errorMessage
  createdAt := r.createdAt
  startedAt := r.startedAt
  completedAt := r.completedAt
  cancelledAt := r.cancelledAt

/-- The generation of a user, report and idempotency key. -/
def generationByKey (userId reportId : Id) (idempotencyKey : String)
    (d : Db Row) : Option ReportGeneration :=
  (generations d).find? fun r =>
    r.userId = userId && r.reportId = reportId
      && r.idempotencyKey = idempotencyKey

def findOne (userId reportId generationId : Id) : Async ReportGeneration := do
  let generation ← query (.findGeneration generationId) fun d =>
    (generation? d generationId).filter fun r =>
      r.reportId = reportId && r.userId = userId
  match generation with
  | none => .throw (notFound "GENERATION_NOT_FOUND" "Generation not found")
  | some generation => pure generation

-- ========================================================== compensation

def compensateQueueFailure (generationId : Id) : Async Unit :=
  transaction (.compensateQueueFailure generationId) do
    let generation ← select fun d => generation? d generationId
    match generation with
    | none => pure ()
    | some generation =>
        if generation.status ≠ .queued then
          pure ()
        else do
          releaseInTransaction generation.id "Queue enqueue failed"
          let _ ← updateRow (.report generation.reportId)
            (onReport fun r => r.status = .queued)
            (setReport fun r => { r with status := generation.priorReportStatus })
          deleteOrThrow (.generation generation.id)

/-- The marker written once the queue has taken the job. -/
def markEnqueued (generationId : Id) : Async Unit := do
  let now ← Prog.clock
  let _ ← transaction (.markEnqueued generationId)
    (updateRow (.generation generationId)
      (onGeneration fun r => r.status = .queued && r.enqueuedAt.isNone)
      (setGeneration fun r => { r with enqueuedAt := some now }))
  pure ()

def ensureEnqueued (generation : ReportGeneration) : Async PublicGeneration :=
  if generation.status ≠ .queued ∨ generation.enqueuedAt.isSome then
    pure (toPublicGeneration generation)
  else do
    let enqueued ← (awaitOk (.enqueue generation.id)).attempt
    match enqueued with
    | .error _ => do
        -- a failed compensation is logged, nothing else
        let _ ← (compensateQueueFailure generation.id).attempt
        .throw (unavailable "GENERATION_QUEUE_UNAVAILABLE"
          "Report generation is temporarily unavailable")
    | .ok _ => do
        let _ ← (markEnqueued generation.id).attempt
        pure (toPublicGeneration generation)

-- ================================================================= start

def validIdempotencyKey (idempotencyKey : String) : Bool :=
  1 ≤ idempotencyKey.length && idempotencyKey.length ≤ 128
    && idempotencyKey.toList.all fun c => '!' ≤ c && c ≤ '~'

def assertReportUnlocked (report : Report) : InTransaction Unit :=
  match report.reportGenerationLockedUntil with
  | none => pure ()
  | some lockedUntil => do
      let now ← Tx.clock
      if lockedUntil ≤ now then
        pure ()
      else
        .throw (.temporarilyLocked lockedUntil ((lockedUntil - now + 999) / 1000)
          report.reportConsecutiveFailureCount)

/-- `!notes?.trim()`. -/
def blank (notes : Option String) : Bool :=
  match notes with
  | none => true
  | some text => trim text = ""

def validateSources (notes : Option String) (assets : List ReportAsset) :
    InTransaction Unit :=
  if assets.any fun a => a.status = .pendingUpload then
    .throw (conflict "REPORT_HAS_PENDING_UPLOADS"
      "Complete or remove pending uploads before generation")
  else if assets.any fun a => a.status = .rejected then
    .throw (conflict "REPORT_HAS_REJECTED_ASSETS"
      "Remove rejected assets before generation")
  else if blank notes && assets.isEmpty then
    .throw (conflict "REPORT_HAS_NO_CONTENT" "Add notes or at least one ready asset")
  else
    pure ()

/-- Generations with a property created at or after a moment. -/
def createdSince (p : ReportGeneration → Bool) (since : Time) (d : Db Row) : Nat :=
  ((generations d).filter fun r => p r && since ≤ r.createdAt).length

def enforceStartLimits (cfg : Config) (userId : Id) : InTransaction Unit := do
  let now ← Tx.clock
  let hourly ← select (createdSince (fun r => r.userId = userId)
    (now - cfg.generationStartRateWindowSeconds * 1000))
  let daily ← select (createdSince (fun r => r.userId = userId) (now - 86400000))
  let globalDaily ← select (createdSince (fun _ => true) (now - 86400000))
  if cfg.generationStartRateLimit ≤ hourly then
    .throw (tooManyRequests "GENERATION_RATE_LIMITED"
      "Generation start rate limit reached")
  else if cfg.generationDailySafetyLimit ≤ daily then
    .throw (tooManyRequests "GENERATION_DAILY_LIMIT_REACHED"
      "Daily generation limit reached")
  else if cfg.aiGlobalDailyGenerationLimit ≤ globalDaily then
    .throw (unavailable "GENERATION_DISABLED"
      "Report generation is temporarily unavailable")
  else
    pure ()

def snapshotAsset (a : ReportAsset) : GenerationSnapshotAsset where
  id := a.id
  type := a.type
  verifiedMimeType := a.verifiedMimeType.getD ""
  verifiedSize := a.verifiedSize.getD 0
  position := a.position
  storageKey := a.storageKey
  originalFileName := a.originalFileName

def inputSnapshot (report : Report) (user : User) (assets : List ReportAsset)
    (createdAt : Time) : GenerationInputSnapshot where
  version := 1
  report :=
    { id := report.id, title := report.title, notes := report.notes
      language := user.language, timezone := user.timezone }
  assets := (assets.filter fun a => a.status = .ready).map snapshotAsset
  createdAt

/-- The row `start` creates, with the defaults of the table. -/
def newGeneration (id reportId userId : Id) (idempotencyKey : String)
    (snapshot : GenerationInputSnapshot) (priorReportStatus : ReportStatus)
    (createdAt : Time) : ReportGeneration where
  id
  reportId
  userId
  idempotencyKey
  status := .queued
  stage := .preparing
  progress := 0
  attemptCount := 0
  errorCode := none
  errorMessage := none
  provider := none
  model := none
  providerRequestId := none
  promptVersion := reportPromptVersion
  inputSnapshot := some snapshot
  structuredResult := none
  inputTokens := none
  outputTokens := none
  startedAt := none
  completedAt := none
  cancelledAt := none
  processingToken := none
  processingLeaseExpiresAt := none
  enqueuedAt := none
  priorReportStatus
  createdAt

/-- The assets of a report, by position. -/
def assetsOf (reportId : Id) (d : Db Row) : List ReportAsset :=
  ((assets d).filter fun a => a.reportId = reportId).insertionSort fun l r =>
    l.position ≤ r.position

/-- The transaction of `start`. -/
def startTransaction (cfg : Config) (userId reportId : Id)
    (idempotencyKey : String) (generationId : Id) :
    InTransaction ReportGeneration := do
  let duplicate ← select (generationByKey userId reportId idempotencyKey)
  match duplicate with
  | some duplicate => pure duplicate
  | none => do
      let report ← select fun d =>
        (report? d reportId).filter fun r => r.userId = userId
      match report with
      | none => .throw (notFound "Not Found" "Report not found")
      | some report => do
          let user ← selectOrThrow fun d => user? d report.userId
          let assets ← select (assetsOf reportId)
          if user.emailVerifiedAt.isNone then
            .throw (forbidden "EMAIL_VERIFICATION_REQUIRED"
              "Verify the account email before generating reports")
          else if report.status = .processing then
            .throw (conflict "GENERATION_ALREADY_ACTIVE"
              "A generation is already active")
          else if report.status = .queued then
            .throw (conflict "GENERATION_ALREADY_ACTIVE"
              "A generation is already active")
          else if report.status ≠ .draft ∧ report.status ≠ .failed then
            .throw (conflict "REPORT_NOT_EDITABLE"
              "The report is not eligible for generation")
          else do
            assertReportUnlocked report
            validateSources report.notes assets
            enforceStartLimits cfg userId
            let createdAt ← Tx.clock
            insertRow (.generation (newGeneration generationId reportId userId
              idempotencyKey (inputSnapshot report user assets createdAt)
              report.status createdAt))
            reserve userId generationId
            updateOrThrow (.report reportId)
              (setReport fun r => { r with status := .queued })
            selectOrThrow fun d => generation? d generationId

/-- The retried transaction, with the attempts that are left. -/
def reserveGeneration (cfg : Config) (userId reportId : Id)
    (idempotencyKey : String) (generationId : Id) : Nat →
    Async (Option ReportGeneration)
  | 0 => pure none
  | left + 1 =>
      (serializable (.start userId reportId idempotencyKey generationId)
        (startTransaction cfg userId reportId idempotencyKey generationId)
        >>= fun generation => pure (some generation)).catch fun
      | .db .writeConflict =>
          if 0 < left then
            reserveGeneration cfg userId reportId idempotencyKey generationId left
          else
            .throw (conflict "GENERATION_CREDIT_RESERVATION_FAILED"
              "Generation could not be reserved; retry the request")
      | .db .uniqueConstraint => do
          let duplicate ← query (.findExisting userId reportId idempotencyKey)
            (generationByKey userId reportId idempotencyKey)
          match duplicate with
          | some duplicate => pure (some duplicate)
          | none => .throw (conflict "GENERATION_ALREADY_ACTIVE"
              "A generation is already active")
      | e => .throw e

def start (cfg : Config) (userId reportId : Id) (idempotencyKey : String) :
    Async PublicGeneration :=
  if !cfg.aiGenerationEnabled then
    .throw (unavailable "GENERATION_DISABLED" "Report generation is disabled")
  else if !validIdempotencyKey idempotencyKey then
    .throw (conflict "INVALID_IDEMPOTENCY_KEY"
      "A valid Idempotency-Key header is required")
  else do
    let existing ← query (.findExisting userId reportId idempotencyKey)
      (generationByKey userId reportId idempotencyKey)
    match existing with
    | some existing => ensureEnqueued existing
    | none => do
        let generationId ← randomUUID
        let generation ← reserveGeneration cfg userId reportId idempotencyKey
          generationId serializableRetryLimit
        match generation with
        | none => .throw (conflict "GENERATION_CREDIT_RESERVATION_FAILED"
            "Generation could not be reserved; retry the request")
        | some generation => ensureEnqueued generation

def create (cfg : Config) (userId reportId : Id) (idempotencyKey : String) :
    Async PublicGeneration :=
  start cfg userId reportId idempotencyKey

def retry (cfg : Config) (userId reportId generationId : Id)
    (idempotencyKey : String) : Async PublicGeneration := do
  let _ ← findOne userId reportId generationId
  start cfg userId reportId idempotencyKey

-- ================================================================ cancel

/-- The transaction of `cancel`. The cancellation time is read with the
statement that writes it. -/
def cancelTransaction (userId reportId generationId : Id) :
    InTransaction PublicGeneration := do
  let current ← select fun d => (generation? d generationId).filter fun r =>
    r.reportId = reportId && r.userId = userId && r.status = .queued
  match current with
  | none => .throw (conflict "GENERATION_NOT_CANCELLABLE"
      "Generation processing has already started")
  | some current => do
      let now ← Tx.clock
      let count ← updateRow (.generation generationId)
        (onGeneration fun r => r.reportId = reportId && r.userId = userId
          && r.status = .queued)
        (setGeneration fun r =>
          { r with status := .cancelled, cancelledAt := some now })
      if count ≠ 1 then
        .throw (conflict "GENERATION_NOT_CANCELLABLE"
          "Generation processing has already started")
      else do
        updateOrThrow (.report reportId)
          (setReport fun r => { r with status := current.priorReportStatus })
        releaseInTransaction generationId "Queued generation cancelled"
        let generation ← selectOrThrow fun d => generation? d generationId
        pure (toPublicGeneration generation)

def cancel (userId reportId generationId : Id) : Async PublicGeneration := do
  let generation ← findOne userId reportId generationId
  if generation.status ≠ .queued then
    .throw (conflict "GENERATION_NOT_CANCELLABLE"
      "Only a queued generation can be cancelled")
  else do
    let removed ← (awaitOk (.removeJob generationId)).attempt
    match removed with
    | .error _ => .throw (unavailable "GENERATION_QUEUE_UNAVAILABLE"
        "Generation cancellation is temporarily unavailable")
    | .ok _ =>
        transaction (.cancel generationId)
          (cancelTransaction userId reportId generationId)

end FastRep.Reports
