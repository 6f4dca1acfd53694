/-
What the report side talks to outside its database: the job queue, the
object store, the AI provider and the PDF renderer; the errors it throws;
the requests it serves; the settings it reads.

A call answers by a choice. `done` is success. `failed` throws without an
effect and `lost` throws after the effect took place, as a lost
acknowledgement does. The provider and the renderer answer anything.
Clients act on the store by themselves: a POST on an issued upload
contract is an ambient step.

# The outside

`Env` is what the outside remembers: the jobs the queue holds, the objects of
the bucket with their bytes, and the upload contracts that were issued. An
object is replaced by a later POST on its contract, as long as the contract
lasts and the size is within its limit. Everything else about the outside is
in the choices.

# Strings

Lengths and cuts count UTF-16 code units, as the language does
(`utf16Length`, `slice`), unless the source spreads a string into its code
points first (`duplicateTitle`). `trim` removes what ECMAScript calls white
space and line terminators.
-/
import FastRep.Reports.Schema
import FastRep.Txn.Machine

namespace FastRep.Reports

open FastRep.Txn

-- ============================================================== errors

/-- `AiProviderError`, without its diagnostics. -/
structure AiProviderError where
  code : String
  retryable : Bool
  message : String
  providerRequestId : Option String
  deriving DecidableEq, Repr

inductive Error where
  | db (e : DbError)
  /-- an HTTP exception with its status, code and message -/
  | api (status : Nat) (code message : String)
  | provider (e : AiProviderError)
  /-- 409 `REPORT_TEMPORARILY_LOCKED` with its details -/
  | temporarilyLocked (lockedUntil retryAfterSeconds consecutiveFailures : Nat)
  /-- a plain `Error` -/
  | other (message : String)
  deriving DecidableEq, Repr

instance : DbErrors Error := ⟨.db⟩

def conflict (code message : String) : Error := .api 409 code message

def notFound (code message : String) : Error := .api 404 code message

def forbidden (code message : String) : Error := .api 403 code message

def badRequest (code message : String) : Error := .api 400 code message

def unavailable (code message : String) : Error := .api 503 code message

def tooManyRequests (code message : String) : Error := .api 429 code message

/-- `new AiProviderError(code, retryable, message)`. -/
def aiProviderError (code : String) (retryable : Bool) (message : String) : Error :=
  .provider ⟨code, retryable, message, none⟩

-- ============================================================= settings

/-- The settings the modelled code reads, after `validateEnvironment`. -/
structure Config where
  nodeEnvironment : Option String
  enableDevCreditGrants : Option String
  aiGenerationEnabled : Bool
  generationStartRateWindowSeconds : Nat
  generationStartRateLimit : Nat
  generationDailySafetyLimit : Nat
  aiGlobalDailyGenerationLimit : Nat
  reportGenerationJobTimeoutMs : Nat
  reportFailedRetryWindowMinutes : Nat
  reportFailedRetryLimit : Nat
  reportFailedLockMinutes : Nat
  openaiReportModel : String
  openaiTranscriptionModel : String
  aiMaxOutputTokens : Nat
  transcriptionMaxAttemptsPerAsset : Nat
  aiMaxProviderCallsPerGeneration : Nat
  uploadUrlTtlSeconds : Nat
  downloadUrlTtlSeconds : Nat
  pendingUploadTtlMinutes : Nat
  imageMaxBytes : Nat
  audioMaxBytes : Nat
  documentMaxBytes : Nat
  reportMaxImages : Nat
  reportMaxAudioFiles : Nat
  reportMaxDocuments : Nat
  reportMaxTotalAssetBytes : Nat
  imageMaxWidth : Nat
  imageMaxHeight : Nat
  audioMaxDurationSeconds : Nat

-- ================================================================ calls

/-- An entry of the asset manifest of the source text. -/
structure ManifestEntry where
  source : String
  type : ReportAssetType
  mimeType : String
  position : Nat
  deriving DecidableEq, Repr

/-- The JSON document `buildSourceText` writes. -/
structure SourceText where
  requestedLanguage : String
  title : String
  notes : Option String
  assetManifest : List ManifestEntry
  audioTranscripts : List (String × String)
  deriving DecidableEq, Repr

/-- A presigned GET: the object it reads and when it expires. -/
structure PresignedGet where
  url : StorageKey
  expiresAt : Time
  deriving DecidableEq, Repr

structure ProviderImageInput where
  assetId : Id
  url : StorageKey
  mimeType : String
  referenceExpiresAt : Time
  deriving DecidableEq, Repr

structure ProviderDocumentInput where
  assetId : Id
  fileId : Nat
  deriving DecidableEq, Repr

structure ProviderReportRequest where
  sourceText : SourceText
  images : List ProviderImageInput
  documents : List ProviderDocumentInput
  safetyIdentifier : Id
  maxOutputTokens : Nat
  deriving DecidableEq, Repr

/-- `ProviderResult`. -/
structure ProviderResult (α : Type) where
  value : α
  providerRequestId : Option String
  inputTokens : Option Nat
  outputTokens : Option Nat
  deriving DecidableEq, Repr

structure ProviderTranscription where
  text : String
  language : Option String
  durationSeconds : Option Nat
  deriving DecidableEq, Repr

abbrev Bytes := List UInt8

/-- An item of a moderation request. -/
inductive ModerationInput where
  | text (t : SourceText)
  | imageUrl (url : StorageKey)
  deriving DecidableEq, Repr

inductive Call where
  /-- `queue.add` with the generation's id as job id -/
  | enqueue (generationId : Id)
  | removeJob (generationId : Id)
  | headObject (k : StorageKey)
  /-- a GET, of the first bytes only where a range is given -/
  | getObject (k : StorageKey) (range : Option Nat)
  | putObject (k : StorageKey) (bytes : Bytes)
  | deleteObject (k : StorageKey)
  | copyObject (source destination : StorageKey)
  | createPresignedPost (k : StorageKey) (mimeType : String)
      (maximumBytes ttlSeconds : Nat)
  | createPresignedGet (k : StorageKey) (ttlSeconds : Nat)
  | moderateInput (input : List ModerationInput)
  | transcribe (k : StorageKey) (fileName mimeType : String)
      (language : Option String)
  | uploadDocument (k : StorageKey) (fileName mimeType : String)
  | deleteTemporaryFile (fileId : Nat)
  | generateReport (r : ProviderReportRequest)
  | renderPdf (result : ReportResult) (images : List (Id × Bytes))
      (generatedAt : Time) (language title : String) (timezone : Option String)
  deriving DecidableEq, Repr

inductive Choice where
  | done
  | failed (e : Error)
  | lost (e : Error)
  | moderated (flagged : Bool) (providerRequestId : Option String)
  | transcribed (r : ProviderResult ProviderTranscription)
  | uploaded (fileId : Nat)
  | reported (r : ProviderResult ReportResult)
  | rendered (bytes : Bytes)
  /-- a client POSTs an object on an upload contract -/
  | post (k : StorageKey) (bytes : Bytes)
  deriving DecidableEq, Repr

/-- An issued upload contract: key, size limit and last moment. -/
structure UploadContract where
  storageKey : StorageKey
  maximumBytes : Nat
  expiresAt : Time
  deriving DecidableEq, Repr

/-- The outside world: jobs the queue holds, objects of the bucket, upload
contracts ever issued. -/
structure Env where
  jobs : List Id
  objects : List (StorageKey × Bytes)
  contracts : List UploadContract
  deriving DecidableEq, Repr

/-- The object stored under a key. -/
def Env.object? (k : StorageKey) (v : Env) : Option Bytes :=
  (v.objects.find? fun o => o.1 = k).map (·.2)

def Env.putObject (k : StorageKey) (bytes : Bytes) (v : Env) : Env :=
  { v with objects := (k, bytes) :: v.objects.filter fun o => o.1 ≠ k }

def Env.deleteObject (k : StorageKey) (v : Env) : Env :=
  { v with objects := v.objects.filter fun o => o.1 ≠ k }

/-- What a call returns when it does not throw. -/
def Call.Value : Call → Type
  | .headObject _ => Option Nat
  | .getObject _ _ => Bytes
  | .createPresignedPost _ _ _ _ => Time
  | .createPresignedGet _ _ => PresignedGet
  | .moderateInput _ => ProviderResult Bool
  | .transcribe _ _ _ _ => ProviderResult ProviderTranscription
  | .uploadDocument _ _ _ => Nat
  | .generateReport _ => ProviderResult ReportResult
  | .renderPdf _ _ _ _ _ _ => Bytes
  | _ => Unit

/-- What a call does and returns when nothing goes wrong. -/
def Call.serve (now : Time) (v : Env) : (x : Call) → Choice →
    Option (x.Value × Env)
  | .enqueue g, .done => some ((), { v with jobs := g :: v.jobs })
  | .removeJob g, .done => some ((), { v with jobs := v.jobs.filter (· ≠ g) })
  | .headObject k, .done => some ((v.object? k).map List.length, v)
  | .getObject k range, .done =>
      match v.object? k with
      | some bytes => some (match range with
          | some n => bytes.take n
          | none => bytes, v)
      | none => none
  | .putObject k bytes, .done => some ((), v.putObject k bytes)
  | .deleteObject k, .done => some ((), v.deleteObject k)
  | .copyObject source destination, .done =>
      (v.object? source).map fun bytes => ((), v.putObject destination bytes)
  | .createPresignedPost k _ maximumBytes ttlSeconds, .done =>
      some (now + ttlSeconds * 1000, { v with
        contracts := ⟨k, maximumBytes, now + ttlSeconds * 1000⟩ :: v.contracts })
  | .createPresignedGet k ttlSeconds, .done =>
      some (⟨k, now + ttlSeconds * 1000⟩, v)
  | .moderateInput _, .moderated flagged rid => some (⟨flagged, rid, none, none⟩, v)
  | .transcribe _ _ _ _, .transcribed r => some (r, v)
  | .uploadDocument _ _ _, .uploaded fileId => some (fileId, v)
  | .deleteTemporaryFile _, .done => some ((), v)
  | .generateReport _, .reported r => some (r, v)
  | .renderPdf _ _ _ _ _ _, .rendered bytes => some (bytes, v)
  | _, _ => none

/-- The calls whose effect can take place without an answer. -/
def Call.losable : Call → Bool
  | .enqueue _ | .removeJob _ | .putObject _ _ | .deleteObject _
  | .copyObject _ _ => true
  | _ => false

/-- `deleteTemporaryFile` swallows its errors. -/
def Call.throws : Call → Bool
  | .deleteTemporaryFile _ => false
  | _ => true

instance : Services Call Choice Env where
  Answer x := Except Error x.Value
  perform x c now v :=
    match c with
    | .failed e => if x.throws then some (.error e, v) else none
    | .lost e =>
        if x.losable then (x.serve now v .done).map fun r => (.error e, r.2)
        else none
    | c => (x.serve now v c).map fun r => (.ok r.1, r.2)
  ambient c now v :=
    match c with
    | .post k bytes =>
        if v.contracts.any (fun u => u.storageKey = k && now ≤ u.expiresAt
            && 1 ≤ bytes.length && bytes.length ≤ u.maximumBytes) then
          some (v.putObject k bytes)
        else none
    | _ => none

-- ================================================================ sites

/-- The transactions and functions of the report side. -/
inductive Site where
  -- ReportGenerationsService
  | findGeneration (generationId : Id)
  | findExisting (userId reportId : Id) (idempotencyKey : String)
  | start (userId reportId : Id) (idempotencyKey : String) (generationId : Id)
  | markEnqueued (generationId : Id)
  | compensateQueueFailure (generationId : Id)
  | cancel (generationId : Id)
  -- ReportGenerationProcessorService
  | claim (generationId processingToken : Id)
  | loadGeneration (generationId : Id)
  | updateProgress (generationId processingToken : Id)
  | persistReportResult (generationId processingToken : Id)
  | renewLease (generationId processingToken : Id)
  | finalizeSuccess (generationId processingToken : Id)
  | prepareRetry (generationId processingToken : Id)
  | failGeneration (generationId processingToken : Id)
  | resultAfterClaimLoss (generationId : Id)
  | scheduleOrphanCleanup (k : StorageKey)
  -- ProviderAttemptsService
  | startAttempt (generationId processingToken : Id)
      (operation : GenerationProviderOperation) (assetId : Option Id)
  | hasCompleted (generationId : Id)
  | completeOwned (generationId processingToken : Id)
  | failAttempt (id : AttemptKey)
  -- ReportAiProvider: the paid functions, on behalf of a scope
  | provider (generationId : Id) (operation : GenerationProviderOperation)
      (assetId : Option Id)
  -- AssetTranscriptionsService
  | findTranscription (assetId : Id)
  | beginTranscription (assetId : Id)
  | completeTranscription (generationId processingToken assetId : Id)
  | ownedTranscription (generationId processingToken : Id)
  | failTranscription (assetId : Id)
  -- CreditsService and the grant command
  | allocateMonthly (userId : Id) (subscriptionPeriodKey : String)
  | grantGenerationCredits (requestKey : String)
  -- ReportsService
  | createReport (reportId : Id)
  | findReports (userId : Id)
  | updateReport (reportId : Id)
  | findReport (reportId : Id)
  | duplicateReport (reportId : Id)
  | rollbackDuplicateCopies (reportId : Id)
  | deleteReport (reportId : Id)
  -- ObjectStorageService and StorageCleanupService
  | uploadObject (k : StorageKey)
  | enqueueCleanup (k : StorageKey)
  | finishCleanup (k : StorageKey)
  | deferCleanup (k : StorageKey)
  | pendingCleanup
  -- ReportAssetsService
  | findAsset (assetId : Id)
  | createPendingAsset (assetId : Id)
  | dropPendingAsset (assetId : Id)
  | markReady (assetId : Id)
  | rejectUpload (assetId : Id)
  | markRejected (assetId : Id)
  | findExpired (reportId : Id)
  | expireUpload (assetId : Id)
  | markExpired (assetId : Id)
  | deleteAsset (assetId : Id)
  deriving DecidableEq, Repr

/-- A program of the report side, and the body of one of its
transactions. -/
abbrev Async (α : Type) := Prog Row Error Site Call α

abbrev InTransaction (α : Type) := Tx Row Error α

/-- The UTF-16 code units of a character. -/
def utf16Size (c : Char) : Nat := if c.toNat < 0x10000 then 1 else 2

/-- `length` of a string: its UTF-16 code units. -/
def utf16Length (s : String) : Nat := s.toList.foldl (fun n c => n + utf16Size c) 0

/-- The characters of the first code units. Half a pair that is cut off is
stored as U+FFFD. -/
def takeUnits : Nat → List Char → List Char
  | 0, _ | _, [] => []
  | n, c :: cs => if utf16Size c ≤ n then c :: takeUnits (n - utf16Size c) cs else ['\uFFFD']

/-- `slice(0, n)` of a string. -/
def slice (s : String) (n : Nat) : String := String.ofList (takeUnits n s.toList)

/-- The code points `trim` removes: white space and line terminators of
ECMAScript. -/
def isSpace (c : Nat) : Bool :=
  (9 ≤ c && c ≤ 13) || c = 32 || c = 0xa0 || c = 0x1680
    || (0x2000 ≤ c && c ≤ 0x200a) || c = 0x2028 || c = 0x2029 || c = 0x202f
    || c = 0x205f || c = 0x3000 || c = 0xfeff

/-- `trim`, on a list of characters or code points. -/
def trimList {α : Type} (space : α → Bool) (l : List α) : List α :=
  ((l.dropWhile space).reverse.dropWhile space).reverse

def trim (s : String) : String :=
  String.ofList (trimList (fun c => isSpace c.toNat) s.toList)

/-- A query outside an explicit transaction. -/
def query {α : Type} (s : Site) (f : Db Row → α) : Async α :=
  transaction s (select f)

/-- Await a call; its error is thrown. -/
def awaitOk (x : Call) : Async x.Value :=
  await x >>= fun r => Prog.settle r

end FastRep.Reports
