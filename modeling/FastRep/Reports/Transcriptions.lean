/-
`AssetTranscriptionsService`: one transcription row per audio asset,
shared by all generations that use the asset.

`getOrCreate` returns the stored text of a finished transcription, and calls
nothing then. Otherwise it opens the row by an upsert, starts an attempt,
calls the provider, and completes the row with the attempt in one
transaction under the token of the run. An empty text counts as absent, as it
does in the source. The upsert that opens the row looks at no token, and
neither does the update that marks it as failed.
-/
import FastRep.Reports.Attempts
import FastRep.Reports.Provider
import FastRep.Reports.Storage

namespace FastRep.Reports

open FastRep.Txn

def audioMimeTypes : List String := ["audio/mpeg", "audio/x-m4a", "audio/wav"]

def normalizeLanguage (language : String) : Option String :=
  if language ∈ ["en", "uk", "de", "fr", "es"] then some language else none

/-- The stored text of a finished transcription. An empty text counts as
absent. -/
def finishedText (r : Option ReportAssetTranscription) : Option String :=
  match r with
  | some r => if r.status = .completed then r.text.filter (· ≠ "") else none
  | none => none

/-- The upsert that opens a transcription. -/
def beginTranscription (cfg : Config) (assetId : Id) : Async Unit :=
  transaction (.beginTranscription assetId) do
    let _ ← upsertRow (fun r => key r = Key.transcription assetId)
      (.transcription {
        assetId
        status := .processing
        text := none
        language := none
        provider := some "openai"
        model := some cfg.openaiTranscriptionModel
        providerRequestId := none
        errorCode := none
        errorMessage := none })
      (setTranscription fun r =>
        { r with status := .processing, errorCode := none, errorMessage := none })
    pure ()

/-- The transaction that stores a transcription under the claim. -/
def completeTranscription (cfg : Config) (generationId : Id)
    (asset : GenerationSnapshotAsset) (language : String) (processingToken : Id)
    (attempt : AttemptKey) (result : ProviderResult ProviderTranscription) :
    Async Unit :=
  transaction (.completeTranscription generationId processingToken asset.id) do
    let now ← Tx.clock
    let owned ← select (findOwned generationId processingToken now)
    if owned.isNone then
      .throw claimLost
    else do
      completeInTransaction attempt processingToken
        ⟨result.providerRequestId, none, none, result.value.durationSeconds⟩
      updateOrThrow (.transcription asset.id) (setTranscription fun r => { r with
        status := .completed
        text := some result.value.text
        language := some (result.value.language.getD language)
        provider := some "openai"
        model := some cfg.openaiTranscriptionModel
        providerRequestId := result.providerRequestId })

/-- What follows a failed transcription, by the error it threw. -/
def failTranscription (generationId : Id) (assetId processingToken : Id)
    (attempt : AttemptKey) (error : Error) : Async String :=
  let providerError : AiProviderError := match error with
    | .provider e => e
    | _ => ⟨"TRANSCRIPTION_FAILED", true, "Audio transcription failed", none⟩
  if providerError.code = "GENERATION_CLAIM_LOST" then
    .throw (.provider providerError)
  else do
    let owned ← query (.ownedTranscription generationId processingToken) fun d =>
      (generation? d generationId).filter fun r => r.ownedBy processingToken
    if owned.isNone then
      .throw claimLost
    else do
      failAttempt attempt providerError.code processingToken
        providerError.providerRequestId
      transaction (.failTranscription assetId)
        (updateOrThrow (.transcription assetId) (setTranscription fun r => { r with
          status := .failed
          errorCode := some providerError.code
          errorMessage := some "Audio transcription failed" }))
      .throw (.provider providerError)

def getOrCreate (cfg : Config) (generationId : Id)
    (asset : GenerationSnapshotAsset) (language : String) (processingToken : Id)
    (leaseExpiresAt : Time) : Async String :=
  if asset.type ≠ .audio ∨ asset.verifiedMimeType ∉ audioMimeTypes then
    .throw (aiProviderError "TRANSCRIPTION_UNSUPPORTED" false
      "Audio format is not supported for transcription")
  else do
    let existing ← query (.findTranscription asset.id) fun d =>
      transcription? d asset.id
    match finishedText existing with
    | some text => pure text
    | none => do
        beginTranscription cfg asset.id
        let attempt ← startAttempt cfg generationId .transcription "openai"
          cfg.openaiTranscriptionModel processingToken leaseExpiresAt
          (some asset.id)
        (do
          let _ ← awaitOk (.getObject asset.storageKey none)
          let result : ProviderResult ProviderTranscription ←
            calling generationId .transcription (some asset.id)
              (awaitOk (.transcribe asset.storageKey asset.originalFileName
                asset.verifiedMimeType (normalizeLanguage language)))
          completeTranscription cfg generationId asset language processingToken
            attempt result
          pure result.value.text).catch
            (failTranscription generationId asset.id processingToken attempt)

end FastRep.Reports
