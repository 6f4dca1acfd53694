/-
The tables of the report side: reports with their assets, generations and
outputs, the credit ledger, and the provider bookkeeping.

A record is one table of `schema.prisma`, without `updatedAt`. Surrogate
ids that nothing reads are left out, and such a table is keyed by the
unique column the code addresses it by: an output by its generation, a
transcription by its asset, a ledger entry by its idempotency key, an
attempt by its number in its scope, a cleanup task by its storage key.
Ids are the UUIDs in the order they were drawn, times are milliseconds.
Idempotency keys of the ledger and storage keys are template strings in
the source; here they are the templates with their holes.

# Indexes

The unique indexes are those the migrations leave behind. Three are partial:
one active generation for each report, one RESERVE entry and one terminal
entry for each generation. The index on the active generation of a user was
dropped again by a later migration, so a user may have generations of
several reports under way.

# References

Deleting a report takes its assets, generations and outputs along; deleting
a generation takes its attempts and its output along and clears its name on
the ledger entries.
-/
import FastRep.Txn.Store
import Mathlib.Data.List.Dedup

namespace FastRep.Reports

open FastRep.Txn

/-- A UUID. -/
abbrev Id := Nat

/-- A `Date`, in milliseconds. -/
abbrev Time := Nat

-- ============================================================== values

inductive ReportStatus where
  | draft | queued | processing | ready | failed
  deriving DecidableEq, Repr

inductive ReportAssetType where
  | image | document | audio
  deriving DecidableEq, Repr

inductive ReportAssetStatus where
  | pendingUpload | ready | rejected
  deriving DecidableEq, Repr

inductive ReportGenerationStatus where
  | queued | processing | completed | failed | cancelled
  deriving DecidableEq, Repr

inductive ReportGenerationStage where
  | preparing | transcribing | analyzing | generatingContent | generatingPdf
  | uploadingOutput | completed
  deriving DecidableEq, Repr

inductive AssetTranscriptionStatus where
  | pending | processing | completed | failed
  deriving DecidableEq, Repr

inductive SubscriptionStatus where
  | active | gracePeriod | pastDue | cancelled | expired
  deriving DecidableEq, Repr

inductive GenerationCreditSource where
  | subscriptionMonthly | purchasedPack | promotional | admin | refund
  deriving DecidableEq, Repr

inductive GenerationCreditTransactionType where
  | grant | reserve | consume | release | refund | expire
  deriving DecidableEq, Repr

inductive GenerationProviderOperation where
  | moderation | transcription | reportGeneration
  deriving DecidableEq, Repr

inductive GenerationProviderAttemptStatus where
  | started | completed | failed
  deriving DecidableEq, Repr

inductive StorageCleanupReason where
  | assetDelete | reportDelete | duplicateRollback | rejectedUpload
  | expiredUpload | outputReplaced | orphanOutput
  deriving DecidableEq, Repr

/-- The keys objects are stored under. -/
inductive StorageKey where
  /-- `users/${user}/reports/${report}/assets/${asset}-${nonce}` -/
  | asset (userId reportId assetId nonce : Id)
  /-- `users/${user}/reports/${report}/outputs/${generation}/${token}.pdf` -/
  | output (userId reportId generationId processingToken : Id)
  deriving DecidableEq, Repr

/-- What a ledger entry of a generation does (`CreditsService.key`). -/
inductive CreditAction where
  | reserve | consume | release
  deriving DecidableEq, Repr

/-- The idempotency keys of the credit ledger. -/
inductive LedgerKey where
  /-- `generation:${generation}:${action}` -/
  | generation (generationId : Id) (action : CreditAction)
  /-- `subscription-period:${user}:${period}` -/
  | subscriptionPeriod (userId : Id) (subscriptionPeriodKey : String)
  /-- `admin-credit-grant:${request}` -/
  | adminCreditGrant (requestKey : String)
  deriving DecidableEq, Repr

/-- A block of a report section. -/
inductive ReportBlock where
  | paragraph (text : String)
  | bulletList (items : List String)
  deriving DecidableEq, Repr

structure ReportSection where
  title : String
  blocks : List ReportBlock
  imageAssetIds : List Id
  deriving DecidableEq, Repr

/-- `ReportResult`, what the provider writes. -/
structure ReportResult where
  title : String
  subtitle : Option String
  summary : String
  sections : List ReportSection
  conclusion : Option String
  recommendations : List String
  deriving DecidableEq, Repr

structure GenerationSnapshotAsset where
  id : Id
  type : ReportAssetType
  verifiedMimeType : String
  verifiedSize : Nat
  position : Nat
  storageKey : StorageKey
  originalFileName : String
  deriving DecidableEq, Repr

structure SnapshotReport where
  id : Id
  title : String
  notes : Option String
  language : String
  timezone : Option String
  deriving DecidableEq, Repr

structure GenerationInputSnapshot where
  version : Nat
  report : SnapshotReport
  assets : List GenerationSnapshotAsset
  createdAt : Time
  deriving DecidableEq, Repr

-- ============================================================== tables

structure User where
  id : Id
  email : String
  language : String
  timezone : Option String
  emailVerifiedAt : Option Time
  deriving DecidableEq, Repr

structure Report where
  id : Id
  userId : Id
  title : String
  notes : Option String
  status : ReportStatus
  reportGenerationLockedUntil : Option Time
  reportFailureWindowStartedAt : Option Time
  reportConsecutiveFailureCount : Nat
  createdAt : Time
  deriving DecidableEq, Repr

structure ReportAsset where
  id : Id
  reportId : Id
  type : ReportAssetType
  status : ReportAssetStatus
  storageKey : StorageKey
  originalFileName : String
  declaredMimeType : String
  verifiedMimeType : Option String
  declaredSize : Nat
  verifiedSize : Option Nat
  position : Nat
  width : Option Nat
  height : Option Nat
  durationSeconds : Option Rat
  rejectionReason : Option String
  createdAt : Time
  deriving DecidableEq, Repr

structure ReportGeneration where
  id : Id
  reportId : Id
  userId : Id
  idempotencyKey : String
  status : ReportGenerationStatus
  stage : ReportGenerationStage
  progress : Nat
  attemptCount : Nat
  errorCode : Option String
  errorMessage : Option String
  provider : Option String
  model : Option String
  providerRequestId : Option String
  promptVersion : String
  inputSnapshot : Option GenerationInputSnapshot
  structuredResult : Option ReportResult
  inputTokens : Option Nat
  outputTokens : Option Nat
  startedAt : Option Time
  completedAt : Option Time
  cancelledAt : Option Time
  processingToken : Option Id
  processingLeaseExpiresAt : Option Time
  enqueuedAt : Option Time
  priorReportStatus : ReportStatus
  createdAt : Time
  deriving DecidableEq, Repr

structure ReportOutput where
  reportId : Id
  generationId : Id
  storageKey : StorageKey
  mimeType : String
  size : Nat
  createdAt : Time
  deriving DecidableEq, Repr

structure ReportAssetTranscription where
  assetId : Id
  status : AssetTranscriptionStatus
  text : Option String
  language : Option String
  provider : Option String
  model : Option String
  providerRequestId : Option String
  errorCode : Option String
  errorMessage : Option String
  deriving DecidableEq, Repr

structure UserSubscription where
  id : Id
  userId : Id
  planCode : String
  status : SubscriptionStatus
  currentPeriodEnd : Time
  deriving DecidableEq, Repr

structure GenerationCreditGrant where
  id : Id
  userId : Id
  source : GenerationCreditSource
  totalCredits : Int
  remainingCredits : Int
  validFrom : Time
  expiresAt : Option Time
  subscriptionPeriodKey : Option String
  externalPurchaseId : Option String
  createdAt : Time
  deriving DecidableEq, Repr

structure GenerationCreditTransaction where
  userId : Id
  generationId : Option Id
  grantId : Option Id
  type : GenerationCreditTransactionType
  amount : Int
  idempotencyKey : LedgerKey
  reason : String
  createdAt : Time
  deriving DecidableEq, Repr

/-- The scope and number of a provider attempt. -/
structure AttemptKey where
  generationId : Id
  operation : GenerationProviderOperation
  assetId : Option Id
  attemptNumber : Nat
  deriving DecidableEq, Repr

structure GenerationProviderAttempt where
  id : AttemptKey
  status : GenerationProviderAttemptStatus
  provider : String
  model : String
  providerRequestId : Option String
  inputTokens : Option Nat
  outputTokens : Option Nat
  audioDurationSeconds : Option Nat
  errorCode : Option String
  processingToken : Id
  leaseExpiresAt : Time
  startedAt : Time
  completedAt : Option Time
  deriving DecidableEq, Repr

structure StorageCleanupTask where
  storageKey : StorageKey
  reason : StorageCleanupReason
  attemptCount : Nat
  lastAttemptAt : Option Time
  createdAt : Time
  deriving DecidableEq, Repr

-- =============================================================== schema

inductive Row where
  | user (r : User)
  | report (r : Report)
  | asset (r : ReportAsset)
  | generation (r : ReportGeneration)
  | output (r : ReportOutput)
  | transcription (r : ReportAssetTranscription)
  | subscription (r : UserSubscription)
  | grant (r : GenerationCreditGrant)
  | ledger (r : GenerationCreditTransaction)
  | attempt (r : GenerationProviderAttempt)
  | cleanupTask (r : StorageCleanupTask)
  deriving DecidableEq, Repr

inductive Key where
  | user (id : Id)
  | report (id : Id)
  | asset (id : Id)
  | generation (id : Id)
  | output (generationId : Id)
  | transcription (assetId : Id)
  | subscription (id : Id)
  | grant (id : Id)
  | ledger (idempotencyKey : LedgerKey)
  | attempt (id : AttemptKey)
  | cleanupTask (storageKey : StorageKey)
  deriving DecidableEq, Repr

/-- The unique indexes beside the keys. `activeReport`, `reserveOf` and
`terminalOf` are the partial ones of the migrations. A user may have active
generations of several reports: a later migration dropped the index on the
user. -/
inductive Index where
  | generationKey (userId reportId : Id) (idempotencyKey : String)
  | activeReport (reportId : Id)
  | outputReport (reportId : Id)
  | outputStorage (storageKey : StorageKey)
  | assetStorage (storageKey : StorageKey)
  | grantPeriod (userId : Id) (subscriptionPeriodKey : String)
  | grantPurchase (source : GenerationCreditSource) (externalPurchaseId : String)
  | reserveOf (generationId : Id)
  | terminalOf (generationId : Id)
  deriving DecidableEq, Repr

/-- `status IN ('QUEUED', 'PROCESSING')`. -/
def ReportGenerationStatus.active : ReportGenerationStatus → Bool
  | .queued | .processing => true
  | _ => false

/-- `type IN ('CONSUME', 'RELEASE', 'REFUND')`. -/
def GenerationCreditTransactionType.terminal :
    GenerationCreditTransactionType → Bool
  | .consume | .release | .refund => true
  | _ => false

def ReportGeneration.indexes (r : ReportGeneration) : List Index :=
  .generationKey r.userId r.reportId r.idempotencyKey
    :: if r.status.active then [.activeReport r.reportId] else []

def GenerationCreditTransaction.indexes (r : GenerationCreditTransaction) :
    List Index :=
  match r.generationId with
  | none => []
  | some g =>
      (if r.type = .reserve then [.reserveOf g] else [])
        ++ if r.type.terminal then [.terminalOf g] else []

instance : Schema Row Key Index where
  key
    | .user r => .user r.id
    | .report r => .report r.id
    | .asset r => .asset r.id
    | .generation r => .generation r.id
    | .output r => .output r.generationId
    | .transcription r => .transcription r.assetId
    | .subscription r => .subscription r.id
    | .grant r => .grant r.id
    | .ledger r => .ledger r.idempotencyKey
    | .attempt r => .attempt r.id
    | .cleanupTask r => .cleanupTask r.storageKey
  indexes
    | .asset r => [.assetStorage r.storageKey]
    | .generation r => r.indexes
    | .output r => [.outputReport r.reportId, .outputStorage r.storageKey]
    | .grant r =>
        (r.subscriptionPeriodKey.toList.map (.grantPeriod r.userId))
          ++ r.externalPurchaseId.toList.map (.grantPurchase r.source)
    | .ledger r => r.indexes
    | _ => []
  references
    | .user _ => []
    | .report r => [(.user r.userId, .cascade)]
    | .asset r => [(.report r.reportId, .cascade)]
    | .generation r => [(.report r.reportId, .cascade), (.user r.userId, .cascade)]
    | .output r =>
        [(.report r.reportId, .cascade), (.generation r.generationId, .cascade)]
    | .transcription r => [(.asset r.assetId, .cascade)]
    | .subscription r => [(.user r.userId, .cascade)]
    | .grant r => [(.user r.userId, .cascade)]
    | .ledger r =>
        (.user r.userId, .cascade)
          :: (r.generationId.toList.map fun g => (.generation g, .setNull))
          ++ r.grantId.toList.map fun g => (.grant g, .setNull)
    | .attempt r =>
        (.generation r.id.generationId, .cascade)
          :: r.id.assetId.toList.map fun a => (.asset a, .cascade)
    | .cleanupTask _ => []
  unlink
    | .generation g, .ledger r =>
        .ledger { r with
          generationId := if r.generationId = some g then none else r.generationId }
    | .grant g, .ledger r =>
        .ledger { r with grantId := if r.grantId = some g then none else r.grantId }
    | _, r => r
  check
    | .grant r => 0 < r.totalCredits && 0 ≤ r.remainingCredits
        && r.remainingCredits ≤ r.totalCredits
    | .ledger r => 0 < r.amount
    | _ => true

-- ============================================================== lookups

section Lookups

variable (d : Db Row)

def user? (id : Id) : Option User :=
  match d.find? (.user id) with
  | some (.user r) => some r
  | _ => none

def report? (id : Id) : Option Report :=
  match d.find? (.report id) with
  | some (.report r) => some r
  | _ => none

def asset? (id : Id) : Option ReportAsset :=
  match d.find? (.asset id) with
  | some (.asset r) => some r
  | _ => none

def generation? (id : Id) : Option ReportGeneration :=
  match d.find? (.generation id) with
  | some (.generation r) => some r
  | _ => none

def output? (generationId : Id) : Option ReportOutput :=
  match d.find? (.output generationId) with
  | some (.output r) => some r
  | _ => none

def transcription? (assetId : Id) : Option ReportAssetTranscription :=
  match d.find? (.transcription assetId) with
  | some (.transcription r) => some r
  | _ => none

def grant? (id : Id) : Option GenerationCreditGrant :=
  match d.find? (.grant id) with
  | some (.grant r) => some r
  | _ => none

def ledger? (k : LedgerKey) : Option GenerationCreditTransaction :=
  match d.find? (.ledger k) with
  | some (.ledger r) => some r
  | _ => none

def attempt? (id : AttemptKey) : Option GenerationProviderAttempt :=
  match d.find? (.attempt id) with
  | some (.attempt r) => some r
  | _ => none

def reports : List Report :=
  d.rows.filterMap fun | .report r => some r | _ => none

def assets : List ReportAsset :=
  d.rows.filterMap fun | .asset r => some r | _ => none

def generations : List ReportGeneration :=
  d.rows.filterMap fun | .generation r => some r | _ => none

def outputs : List ReportOutput :=
  d.rows.filterMap fun | .output r => some r | _ => none

def subscriptions : List UserSubscription :=
  d.rows.filterMap fun | .subscription r => some r | _ => none

def grants : List GenerationCreditGrant :=
  d.rows.filterMap fun | .grant r => some r | _ => none

def ledger : List GenerationCreditTransaction :=
  d.rows.filterMap fun | .ledger r => some r | _ => none

def attempts : List GenerationProviderAttempt :=
  d.rows.filterMap fun | .attempt r => some r | _ => none

def cleanupTasks : List StorageCleanupTask :=
  d.rows.filterMap fun | .cleanupTask r => some r | _ => none

end Lookups

/-- A statement condition on the rows of one table; rows of other tables
never match. -/
def onReport (p : Report → Bool) : Row → Bool
  | .report r => p r
  | _ => false

def onAsset (p : ReportAsset → Bool) : Row → Bool
  | .asset r => p r
  | _ => false

def onGeneration (p : ReportGeneration → Bool) : Row → Bool
  | .generation r => p r
  | _ => false

def onGrant (p : GenerationCreditGrant → Bool) : Row → Bool
  | .grant r => p r
  | _ => false

def onAttempt (p : GenerationProviderAttempt → Bool) : Row → Bool
  | .attempt r => p r
  | _ => false

/-- An assignment to the columns of one table. -/
def setReport (f : Report → Report) : Row → Row
  | .report r => .report (f r)
  | r => r

def setAsset (f : ReportAsset → ReportAsset) : Row → Row
  | .asset r => .asset (f r)
  | r => r

def setGeneration (f : ReportGeneration → ReportGeneration) : Row → Row
  | .generation r => .generation (f r)
  | r => r

def setGrant (f : GenerationCreditGrant → GenerationCreditGrant) : Row → Row
  | .grant r => .grant (f r)
  | r => r

def setAttempt (f : GenerationProviderAttempt → GenerationProviderAttempt) :
    Row → Row
  | .attempt r => .attempt (f r)
  | r => r

def setTranscription
    (f : ReportAssetTranscription → ReportAssetTranscription) : Row → Row
  | .transcription r => .transcription (f r)
  | r => r

def setCleanupTask (f : StorageCleanupTask → StorageCleanupTask) : Row → Row
  | .cleanupTask r => .cleanupTask (f r)
  | r => r

end FastRep.Reports
