/-
`OpenAiReportProviderService` over the calls of the AI provider.

A run enters a paid function of the provider on behalf of a scope: a
generation, an operation and, for a transcription, an asset. Entering is a
step of the run, so the paid calls of a scope can be counted.

`moderate` submits the text first and then the images in batches of one, each
batch a request of its own, and stops at the first that is flagged.
-/
import FastRep.Reports.Services

namespace FastRep.Reports

open FastRep.Txn

/-- Run a paid function of the provider for a scope. -/
def calling {α : Type} (generationId : Id) (operation : GenerationProviderOperation)
    (assetId : Option Id) (p : Async α) : Async α :=
  .enter (.provider generationId operation assetId) p

-- ========================================================== moderation

/-- `OPENAI_MODERATION_MAX_IMAGES_PER_REQUEST`. -/
def moderationMaxImagesPerRequest : Nat := 1

/-- The images of a batch. -/
def moderationBatch (imageUrls : List StorageKey) (batchIndex : Nat) :
    List StorageKey :=
  (imageUrls.drop (batchIndex * moderationMaxImagesPerRequest)).take
    moderationMaxImagesPerRequest

/-- `Math.ceil(imageUrls.length / max)`. -/
def moderationBatchCount (imageUrls : List StorageKey) : Nat :=
  (imageUrls.length + moderationMaxImagesPerRequest - 1)
    / moderationMaxImagesPerRequest

/-- The batches still to be submitted, until one is flagged. -/
def moderateBatches (imageUrls : List StorageKey) :
    List Nat → Option String → Async (ProviderResult Bool)
  | [], providerRequestId => pure ⟨false, providerRequestId, none, none⟩
  | batchIndex :: rest, providerRequestId => do
      let result : ProviderResult Bool ← awaitOk (.moderateInput
        ((moderationBatch imageUrls batchIndex).map .imageUrl))
      let providerRequestId := result.providerRequestId <|> providerRequestId
      if result.value then
        pure ⟨true, providerRequestId, none, none⟩
      else
        moderateBatches imageUrls rest providerRequestId

/-- `moderate`. The text is a JSON document, which is never blank. -/
def Provider.moderate (text : SourceText) (imageUrls : List StorageKey) :
    Async (ProviderResult Bool) := do
  let result : ProviderResult Bool ← awaitOk (.moderateInput [.text text])
  if result.value then
    pure ⟨true, result.providerRequestId, none, none⟩
  else
    moderateBatches imageUrls (List.range (moderationBatchCount imageUrls))
      result.providerRequestId

end FastRep.Reports
