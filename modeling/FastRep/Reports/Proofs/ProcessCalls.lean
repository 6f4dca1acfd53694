/-
The calls a run of the worker can make, part by part: which parts call
nothing, and which hand no image URL to anybody.

A part that calls nothing takes no time between two requests, and one whose
calls are plain (`Call.Plain`) moves no URL, whatever it does otherwise. The
lemmas follow the programs of `Processor.lean` in their order; what is left
are the three parts an image URL passes through: the presigning, the
moderation, and the request for the report. `ImageUrls.lean` is about these.
-/
import FastRep.Reports.Pacing
import FastRep.Txn.Proofs.Steps

namespace FastRep.Reports

open FastRep.Txn

variable {cfg : Config} {ok : Call → Prop} {g tok : Id}

/-- The calls an image URL passes through. -/
def Call.carriesUrls : Call → Bool
  | .createPresignedGet _ _ | .moderateInput _ | .generateReport _ => true
  | _ => false

/-- A call no image URL passes through. -/
def Call.Plain (x : Call) : Prop := x.carriesUrls = false

/-- A call that throws its error is one call. -/
theorem Calls.awaitOk {x : Call} (h : ok x) : (awaitOk x).Calls ok :=
  Prog.Calls.bind (Prog.Calls.await h) fun _ => Prog.Calls.settle

-- ======================================================== nothing is called

/-- A look at the clock calls nothing. -/
theorem Calls.assertBeforeDeadline {deadline : Time} :
    (assertBeforeDeadline deadline).Calls ok := by
  refine Prog.Calls.bind Prog.Calls.clock fun now => ?_
  split
  next => exact Prog.Calls.throw
  next => exact Prog.Calls.pure

/-- The claim is a transaction. -/
theorem Calls.claim : (claim cfg g tok).Calls ok :=
  Prog.Calls.bind Prog.Calls.clock fun _ => Prog.Calls.transaction

/-- So is the look at a lost generation. -/
theorem Calls.resultAfterClaimLoss : (resultAfterClaimLoss g).Calls ok := by
  refine Prog.Calls.bind Prog.Calls.transaction fun generation => ?_
  split
  next => exact Prog.Calls.pure
  next =>
      split
      next => exact Prog.Calls.pure
      next => exact Prog.Calls.bind Prog.Calls.clock fun _ => Prog.Calls.pure

/-- And a report of progress. -/
theorem Calls.updateProgress {stage : ReportGenerationStage} {progress : Nat} :
    (updateProgress cfg g stage progress tok).Calls ok := by
  refine Prog.Calls.bind Prog.Calls.clock fun _ => Prog.Calls.bind Prog.Calls.clock fun _ => ?_
  refine Prog.Calls.bind Prog.Calls.transaction fun count => ?_
  split
  next => exact Prog.Calls.throw
  next => exact Prog.Calls.pure

/-- And the renewal of the lease. -/
theorem Calls.assertOwnership : (assertOwnership cfg g tok).Calls ok := by
  refine Prog.Calls.bind ?_ fun renewed => ?_
  · exact Prog.Calls.bind Prog.Calls.clock fun _ => Prog.Calls.bind Prog.Calls.clock fun _ =>
      Prog.Calls.bind Prog.Calls.transaction fun _ => Prog.Calls.pure
  · split
    next => exact Prog.Calls.pure
    next => exact Prog.Calls.throw

/-- And the failure of an attempt. -/
theorem Calls.failAttempt {id : AttemptKey} {errorCode : String}
    {providerRequestId : Option String} :
    (failAttempt id errorCode tok providerRequestId).Calls ok :=
  Prog.Calls.bind Prog.Calls.clock fun _ =>
    Prog.Calls.bind Prog.Calls.transaction fun _ => Prog.Calls.pure

/-- And that of a transcription. -/
theorem Calls.failTranscription {assetId : Id} {attempt : AttemptKey} {error : Error} :
    (failTranscription g assetId tok attempt error).Calls ok := by
  unfold Reports.failTranscription
  extract_lets providerError
  split
  next => exact Prog.Calls.throw
  next =>
      refine Prog.Calls.bind Prog.Calls.transaction fun owned => ?_
      split
      next => exact Prog.Calls.throw
      next => exact Prog.Calls.bind Calls.failAttempt fun _ =>
        Prog.Calls.bind Prog.Calls.transaction fun _ => Prog.Calls.throw

/-- Parsing a snapshot calls nothing. -/
theorem Calls.parseSnapshot {value : Option GenerationInputSnapshot} :
    (parseSnapshot value).Calls ok := by
  unfold Reports.parseSnapshot
  split
  next => exact Prog.Calls.pure
  next => exact Prog.Calls.throw

/-- Nor does parsing a result. -/
theorem Calls.parseOrThrow {r : ReportResult} : (parseOrThrow r).Calls ok := by
  unfold Reports.parseOrThrow
  split
  next => exact Prog.Calls.pure
  next => exact Prog.Calls.throw

/-- Nor the check of its references. -/
theorem Calls.validateImageReferences {result : ReportResult}
    {images : List GenerationSnapshotAsset} :
    (validateImageReferences result images).Calls ok := by
  unfold Reports.validateImageReferences
  split
  next => exact Prog.Calls.throw
  next => exact Prog.Calls.pure

/-- Nor that of the image types. -/
theorem Calls.assertSupportedImageMimeTypes {images : List GenerationSnapshotAsset} :
    (assertSupportedImageMimeTypes images).Calls ok := by
  unfold Reports.assertSupportedImageMimeTypes
  split
  next => exact Prog.Calls.throw
  next => exact Prog.Calls.pure

-- ====================================================== no URL is handed on

/-- A transcription reads the recording and asks for its transcript. -/
theorem Calls.getOrCreate {asset : GenerationSnapshotAsset} {language : String}
    {leaseExpiresAt : Time} :
    (getOrCreate cfg g asset language tok leaseExpiresAt).Calls Call.Plain := by
  unfold Reports.getOrCreate
  split
  next => exact Prog.Calls.throw
  next =>
      refine Prog.Calls.bind Prog.Calls.transaction fun existing => ?_
      split
      next => exact Prog.Calls.pure
      next =>
          refine Prog.Calls.bind Prog.Calls.transaction fun _ => ?_
          refine Prog.Calls.bind Prog.Calls.serializable fun attempt => ?_
          refine Prog.Calls.catch ?_ fun _ => Calls.failTranscription
          refine Prog.Calls.bind (Calls.awaitOk rfl) fun _ => ?_
          refine Prog.Calls.bind (Prog.Calls.enter (Calls.awaitOk rfl)) fun _ => ?_
          exact Prog.Calls.bind Prog.Calls.transaction fun _ => Prog.Calls.pure

/-- All of them, one after the other. -/
theorem Calls.transcribeAll {run : Run} {count index : Nat}
    {audioAssets : List GenerationSnapshotAsset} :
    (transcribeAll cfg run count index audioAssets).Calls Call.Plain := by
  induction audioAssets generalizing index with
  | nil => exact Prog.Calls.pure
  | cons asset rest ih =>
      exact Prog.Calls.bind Calls.assertBeforeDeadline fun _ =>
        Prog.Calls.bind Calls.getOrCreate fun _ => Prog.Calls.bind Calls.updateProgress fun _ =>
          Prog.Calls.bind ih fun _ => Prog.Calls.pure

/-- Documents are read and uploaded to the provider. -/
theorem Calls.uploadDocuments {deadline : Time} {documents : List GenerationSnapshotAsset} :
    (uploadDocuments deadline documents).Calls Call.Plain := by
  induction documents with
  | nil => exact Prog.Calls.pure
  | cons asset rest ih =>
      refine Prog.Calls.bind ?_ fun uploaded => ?_
      · refine Prog.Calls.attempt (Prog.Calls.bind Calls.assertBeforeDeadline fun _ => ?_)
        refine Prog.Calls.bind (Calls.awaitOk rfl) fun _ => ?_
        exact Calls.awaitOk rfl
      · split
        next => exact Prog.Calls.pure
        next => exact Prog.Calls.bind ih fun _ => Prog.Calls.pure

/-- An object is looked at and read. -/
theorem Calls.readObjectBytes {k : StorageKey} {maximumBytes : Nat} :
    (readObjectBytes k maximumBytes).Calls Call.Plain := by
  refine Prog.Calls.bind (Calls.awaitOk rfl) fun metadata => ?_
  split
  next => exact Prog.Calls.throw
  next =>
      split
      next => exact Prog.Calls.throw
      next =>
          refine Prog.Calls.bind (Calls.awaitOk rfl) fun bytes => ?_
          split
          next => exact Prog.Calls.throw
          next => exact Prog.Calls.pure

/-- So are the images. -/
theorem Calls.loadImages {images : List GenerationSnapshotAsset} :
    (loadImages images).Calls Call.Plain := by
  induction images with
  | nil => exact Prog.Calls.pure
  | cons image rest ih =>
      exact Prog.Calls.bind Calls.readObjectBytes fun _ =>
        Prog.Calls.bind ih fun _ => Prog.Calls.pure

/-- The output is rendered from the images that were read. -/
theorem Calls.renderOutput {run : Run} {structuredResult : ReportResult} :
    (renderOutput cfg run structuredResult).Calls Call.Plain :=
  Prog.Calls.bind Calls.validateImageReferences fun _ =>
    Prog.Calls.bind Calls.updateProgress fun _ =>
      Prog.Calls.bind Calls.assertBeforeDeadline fun _ =>
        Prog.Calls.bind Calls.loadImages fun _ => Prog.Calls.bind Prog.Calls.clock fun _ =>
          Prog.Calls.bind (Calls.awaitOk rfl) fun _ =>
            Prog.Calls.bind Calls.assertOwnership fun _ =>
              Prog.Calls.bind Calls.updateProgress fun _ =>
                Prog.Calls.bind Calls.assertBeforeDeadline fun _ => Prog.Calls.pure

/-- It is stored. -/
theorem Calls.uploadObject {k : StorageKey} {bytes : Bytes} :
    (uploadObject k bytes).Calls Call.Plain := by
  refine Prog.Calls.enter (Prog.Calls.bind (Calls.awaitOk rfl) fun _ => ?_)
  refine Prog.Calls.bind (Calls.awaitOk rfl) fun metadata => ?_
  split
  next => exact Prog.Calls.pure
  next => exact Prog.Calls.throw

/-- A cleanup deletes an object. -/
theorem Calls.attempt {k : StorageKey} : (attempt k).Calls Call.Plain := by
  refine Prog.Calls.catch ?_ fun _ => ?_
  · exact Prog.Calls.bind (Calls.awaitOk rfl) fun _ =>
      Prog.Calls.bind Prog.Calls.transaction fun _ => Prog.Calls.pure
  · exact Prog.Calls.bind Prog.Calls.clock fun _ =>
      Prog.Calls.bind Prog.Calls.transaction fun _ => Prog.Calls.pure

/-- Scheduling one deletes it at once, if it can. -/
theorem Calls.scheduleOrphanCleanup {k : StorageKey} :
    (scheduleOrphanCleanup k).Calls Call.Plain := by
  refine Prog.Calls.bind Prog.Calls.transaction fun _ =>
    Prog.Calls.bind (Prog.Calls.attempt ?_) fun _ => Prog.Calls.pure
  refine Prog.Calls.bind ?_ fun _ => Prog.Calls.bind Prog.Calls.settle fun _ => Prog.Calls.pure
  exact Prog.Calls.bind (Prog.Calls.attempt Calls.attempt) fun _ =>
    Prog.Calls.bind Prog.Calls.pure fun _ => Prog.Calls.pure

/-- An error is settled with transactions and a cleanup. -/
theorem Calls.settleError {queueAttempt maximumQueueAttempts : Nat}
    {uploadedOutputKey : Option StorageKey} {error : Error} :
    (settleError cfg g tok queueAttempt maximumQueueAttempts uploadedOutputKey error).Calls
      Call.Plain := by
  refine Prog.Calls.bind ?_ fun _ => ?_
  · cases uploadedOutputKey with
    | none => exact Prog.Calls.pure
    | some k => exact Calls.scheduleOrphanCleanup
  · split
    next => exact Calls.resultAfterClaimLoss
    next =>
        split
        next =>
            refine Prog.Calls.bind Prog.Calls.transaction fun prepared => ?_
            split
            next => exact Prog.Calls.throw
            next => exact Calls.resultAfterClaimLoss
        next =>
            refine Prog.Calls.bind Prog.Calls.transaction fun failed => ?_
            split
            next => exact Prog.Calls.pure
            next => exact Calls.resultAfterClaimLoss

/-- The temporary files are deleted at the provider. -/
theorem Calls.deleteTemporaryFiles {fileIds : List Nat} :
    (deleteTemporaryFiles fileIds).Calls Call.Plain := by
  induction fileIds with
  | nil => exact Prog.Calls.pure
  | cons fileId rest ih =>
      exact Prog.Calls.bind (Prog.Calls.attempt (Calls.awaitOk rfl)) fun _ => ih

end FastRep.Reports
