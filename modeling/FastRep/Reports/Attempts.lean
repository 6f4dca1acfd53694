/-
`ProviderAttemptsService`: the ledger of provider calls, which bounds how
often a provider is called for a generation or an asset.

`start` runs in one SERIALIZABLE transaction. It marks the attempts of the
scope whose lease is over as failed, refuses where the number of attempts has
reached the limit, and inserts the next number. The refusal is a throw, so it
takes the marks back with it. `start` looks at no processing token;
completing and failing an attempt do.

The scope of a transcription is the asset, in whichever generation it is
transcribed; that of every other operation is the generation (`inScope`).
-/
import FastRep.Reports.Services
import Mathlib.Data.List.Sort

namespace FastRep.Reports

open FastRep.Txn

structure ProviderAttemptUsage where
  providerRequestId : Option String
  inputTokens : Option Nat
  outputTokens : Option Nat
  audioDurationSeconds : Option Nat

def claimLost : Error :=
  aiProviderError "GENERATION_CLAIM_LOST" false
    "Generation processing ownership was lost"

/-- The row is PROCESSING under the token. -/
def ReportGeneration.ownedBy (processingToken : Id) (r : ReportGeneration) : Bool :=
  r.status = .processing && r.processingToken = some processingToken

/-- The lease of the row ends after a moment. -/
def ReportGeneration.leasedAfter (now : Time) (r : ReportGeneration) : Bool :=
  match r.processingLeaseExpiresAt with
  | some expiresAt => now < expiresAt
  | none => false

/-- The attempts of a scope: per asset over all generations for a
transcription, per generation otherwise. -/
def inScope (generationId : Id) (operation : GenerationProviderOperation)
    (assetId : Option Id) (r : GenerationProviderAttempt) : Bool :=
  if operation = .transcription && assetId.isSome then
    r.id.operation = operation && r.id.assetId = assetId
  else
    r.id.generationId = generationId && r.id.operation = operation
      && r.id.assetId = assetId

def scopeAttempts (generationId : Id) (operation : GenerationProviderOperation)
    (assetId : Option Id) (d : Db Row) : List GenerationProviderAttempt :=
  ((attempts d).filter (inScope generationId operation assetId)).insertionSort
    fun l r => l.id.attemptNumber ≤ r.id.attemptNumber

/-- Mark the listed attempts as stale. -/
def closeStale (now : Time) : List GenerationProviderAttempt → InTransaction Unit
  | [] => pure ()
  | attempt :: rest => do
      let _ ← updateRow (.attempt attempt.id)
        (onAttempt fun r => r.status = .started && r.leaseExpiresAt ≤ now)
        (setAttempt fun r => { r with
          status := .failed
          errorCode := some "AI_PROVIDER_ATTEMPT_STALE"
          completedAt := some now })
      closeStale now rest

def maximumAttempts (cfg : Config) : GenerationProviderOperation → Nat
  | .transcription => cfg.transcriptionMaxAttemptsPerAsset
  | .reportGeneration => cfg.aiMaxProviderCallsPerGeneration
  | .moderation => cfg.aiMaxProviderCallsPerGeneration

/-- `ProviderAttemptsService.start`. -/
def startAttempt (cfg : Config) (generationId : Id)
    (operation : GenerationProviderOperation) (provider model : String)
    (processingToken : Id) (leaseExpiresAt : Time) (assetId : Option Id) :
    Async AttemptKey :=
  serializable (.startAttempt generationId processingToken operation assetId) do
    let attempts ← select (scopeAttempts generationId operation assetId)
    let now ← Tx.clock
    if attempts.any fun a => a.status = .started && now < a.leaseExpiresAt then
      .throw (aiProviderError "AI_PROVIDER_ATTEMPT_IN_PROGRESS" true
        "An AI provider attempt is already in progress")
    else do
      closeStale now (attempts.filter fun a =>
        a.status = .started && a.leaseExpiresAt ≤ now)
      if maximumAttempts cfg operation ≤ attempts.length then
        .throw (aiProviderError "AI_PROVIDER_CALL_BUDGET_EXHAUSTED" false
          "AI provider call budget exhausted")
      else do
        let startedAt ← Tx.clock
        let id : AttemptKey :=
          { generationId, operation, assetId, attemptNumber := attempts.length + 1 }
        insertRow (.attempt {
          id
          status := .started
          provider
          model
          providerRequestId := none
          inputTokens := none
          outputTokens := none
          audioDurationSeconds := none
          errorCode := none
          processingToken
          leaseExpiresAt
          startedAt
          completedAt := none })
        pure id

def hasCompleted (generationId : Id) (operation : GenerationProviderOperation)
    (assetId : Option Id) : Async Bool :=
  query (.hasCompleted generationId) fun d => (attempts d).any fun r =>
    r.id.generationId = generationId && r.id.operation = operation
      && r.id.assetId = assetId && r.status = .completed

def completeInTransaction (id : AttemptKey) (processingToken : Id)
    (usage : ProviderAttemptUsage) : InTransaction Unit := do
  let now ← Tx.clock
  let completedAt ← Tx.clock
  let completed ← updateRow (.attempt id)
    (onAttempt fun r => r.processingToken = processingToken
      && r.status = .started && now < r.leaseExpiresAt)
    (setAttempt fun r => { r with
      status := .completed
      providerRequestId := usage.providerRequestId
      inputTokens := usage.inputTokens
      outputTokens := usage.outputTokens
      audioDurationSeconds := usage.audioDurationSeconds
      completedAt := some completedAt })
  if completed ≠ 1 then
    .throw claimLost
  else
    pure ()

/-- The row a run owns under an unexpired lease. -/
def findOwned (generationId processingToken : Id) (now : Time) (d : Db Row) :
    Option ReportGeneration :=
  (generation? d generationId).filter fun r =>
    r.ownedBy processingToken && r.leasedAfter now

def completeOwned (generationId : Id) (id : AttemptKey) (processingToken : Id)
    (usage : ProviderAttemptUsage) : Async Unit :=
  transaction (.completeOwned generationId processingToken) do
    let now ← Tx.clock
    let owned ← select (findOwned generationId processingToken now)
    if owned.isNone then
      .throw claimLost
    else
      completeInTransaction id processingToken usage

/-- `ProviderAttemptsService.fail`, as every caller uses it: with the
token of the run. -/
def failAttempt (id : AttemptKey) (errorCode : String) (processingToken : Id)
    (providerRequestId : Option String) : Async Unit := do
  let now ← Prog.clock
  let _ ← transaction (.failAttempt id) (updateRow (.attempt id)
    (onAttempt fun r => r.processingToken = processingToken && r.status = .started)
    (setAttempt fun r => { r with
      status := .failed
      errorCode := some errorCode
      providerRequestId
      completedAt := some now }))
  pure ()

end FastRep.Reports
