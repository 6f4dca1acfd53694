/-
The transactions of the report side: a property of transactions that is
free outside the ones that move credits holds of every transaction of
every request, once these have it.

There is one lemma for each function of the source that runs a transaction or
calls one that does, in the order of the modules: storage, reports, assets,
the worker, generations. Each walks its program once, with the promise
general; a promise about credits is one use of `main_transacts`, and another
promise would be another.
-/
import FastRep.Reports.CreditMoves
import FastRep.Txn.Proofs.Bodies

namespace FastRep.Reports

open FastRep.Txn

variable {cfg : Config} {g tok : Id} {P : ∀ β : Type, Isolation → Site → Tx Row Error β → Prop}

/-- A call is no transaction. -/
theorem Transacts.awaitOk {x : Call} : (awaitOk x).Transacts P :=
  Prog.Transacts.bind Prog.Transacts.await fun _ => Prog.Transacts.settle

/-- Nor is a look at the clock. -/
theorem Transacts.assertBeforeDeadline {deadline : Time} :
    (assertBeforeDeadline deadline).Transacts P := by
  refine Prog.Transacts.bind Prog.Transacts.clock fun now => ?_
  split
  next => exact Prog.Transacts.throw
  next => exact Prog.Transacts.pure

/-- Nor is parsing a result. -/
theorem Transacts.parseOrThrow {r : ReportResult} : (parseOrThrow r).Transacts P := by
  unfold Reports.parseOrThrow
  split
  next => exact Prog.Transacts.pure
  next => exact Prog.Transacts.throw

/-- Nor the check of its references. -/
theorem Transacts.validateImageReferences {result : ReportResult}
    {images : List GenerationSnapshotAsset} :
    (validateImageReferences result images).Transacts P := by
  unfold Reports.validateImageReferences
  split
  next => exact Prog.Transacts.throw
  next => exact Prog.Transacts.pure

/-- The temporary files are deleted by calls only. -/
theorem Transacts.deleteTemporaryFiles {fileIds : List Nat} :
    (deleteTemporaryFiles fileIds).Transacts P := by
  induction fileIds with
  | nil => exact Prog.Transacts.pure
  | cons fileId rest ih =>
      exact Prog.Transacts.bind (Prog.Transacts.attempt Transacts.awaitOk) fun _ => ih

/-- A moderation of batches is calls only. -/
theorem Transacts.moderateBatches {imageUrls : List StorageKey} {batches : List Nat}
    {providerRequestId : Option String} :
    (moderateBatches imageUrls batches providerRequestId).Transacts P := by
  induction batches generalizing providerRequestId with
  | nil => exact Prog.Transacts.pure
  | cons batchIndex rest ih =>
      refine Prog.Transacts.bind Transacts.awaitOk fun result => ?_
      split
      next => exact Prog.Transacts.pure
      next => exact ih

/-- So is the upload of the documents. -/
theorem Transacts.uploadDocuments {deadline : Time} {documents : List GenerationSnapshotAsset} :
    (uploadDocuments deadline documents).Transacts P := by
  induction documents with
  | nil => exact Prog.Transacts.pure
  | cons asset rest ih =>
      refine Prog.Transacts.bind (Prog.Transacts.attempt ?_) fun uploaded => ?_
      · exact Prog.Transacts.bind Transacts.assertBeforeDeadline fun _ =>
          Prog.Transacts.bind Transacts.awaitOk fun _ => Transacts.awaitOk
      · split
        next => exact Prog.Transacts.pure
        next => exact Prog.Transacts.bind ih fun _ => Prog.Transacts.pure

/-- So is the presigning of the images. -/
theorem Transacts.presignAll {images : List GenerationSnapshotAsset} :
    (presignAll cfg images).Transacts P := by
  induction images with
  | nil => exact Prog.Transacts.pure
  | cons asset rest ih =>
      exact Prog.Transacts.bind Transacts.awaitOk fun _ =>
        Prog.Transacts.bind ih fun _ => Prog.Transacts.pure

/-- So is reading an object. -/
theorem Transacts.readObjectBytes {k : StorageKey} {maximumBytes : Nat} :
    (readObjectBytes k maximumBytes).Transacts P := by
  refine Prog.Transacts.bind Transacts.awaitOk fun metadata => ?_
  split
  next => exact Prog.Transacts.throw
  next =>
      split
      next => exact Prog.Transacts.throw
      next =>
          refine Prog.Transacts.bind Transacts.awaitOk fun bytes => ?_
          split
          next => exact Prog.Transacts.throw
          next => exact Prog.Transacts.pure

/-- So is reading the images. -/
theorem Transacts.loadImages {images : List GenerationSnapshotAsset} :
    (loadImages images).Transacts P := by
  induction images with
  | nil => exact Prog.Transacts.pure
  | cons image rest ih =>
      exact Prog.Transacts.bind Transacts.readObjectBytes fun _ =>
        Prog.Transacts.bind ih fun _ => Prog.Transacts.pure

/-- So is copying an object. -/
theorem Transacts.copyObject {source destination : StorageKey} :
    (copyObject source destination).Transacts P := by
  refine Prog.Transacts.bind Transacts.awaitOk fun _ => ?_
  refine Prog.Transacts.bind Transacts.awaitOk fun metadata => ?_
  split
  next => exact Prog.Transacts.throw
  next => exact Prog.Transacts.pure

/-- So are the copies of a duplication. -/
theorem Transacts.copyAssets {copies : List AssetCopy} : (copyAssets copies).Transacts P := by
  induction copies with
  | nil => exact Prog.Transacts.pure
  | cons asset rest ih =>
      refine Prog.Transacts.bind (Prog.Transacts.attempt Transacts.copyObject) fun metadata => ?_
      split
      next => exact Prog.Transacts.pure
      next =>
          split
          next => exact Prog.Transacts.pure
          next => exact Prog.Transacts.bind ih fun _ => Prog.Transacts.pure

/-- Their ids and keys are drawn. -/
theorem Transacts.assetCopies {userId duplicateId : Id} {sources : List ReportAsset} :
    (assetCopies userId duplicateId sources).Transacts P := by
  induction sources with
  | nil => exact Prog.Transacts.pure
  | cons asset rest ih =>
      exact Prog.Transacts.bind Prog.Transacts.randomUUID fun _ =>
        Prog.Transacts.bind Prog.Transacts.randomUUID fun _ =>
          Prog.Transacts.bind ih fun _ => Prog.Transacts.pure

/-- So is storing the output. -/
theorem Transacts.uploadObject {k : StorageKey} {bytes : Bytes} :
    (uploadObject k bytes).Transacts P := by
  refine Prog.Transacts.enter (Prog.Transacts.bind Transacts.awaitOk fun _ => ?_)
  refine Prog.Transacts.bind Transacts.awaitOk fun metadata => ?_
  split
  next => exact Prog.Transacts.pure
  next => exact Prog.Transacts.throw

section Free

variable (hfree : ∀ {β : Type} {i : Isolation} {s : Site} {body : Tx Row Error β},
  s.movesCredits = false → P β i s body)

include hfree

/-- A query moves no credits. -/
theorem Transacts.query {α : Type} {s : Site} {f : Db Row → α} (hs : s.movesCredits = false) :
    (query s f).Transacts P :=
  Prog.Transacts.transaction (hfree hs)

-- ================================================================= storage

/-- An attempt at a cleanup drops its task, or puts it off. -/
theorem Transacts.attempt {k : StorageKey} : (attempt k).Transacts P := by
  refine Prog.Transacts.catch ?_ fun _ => ?_
  · exact Prog.Transacts.bind Transacts.awaitOk fun _ =>
      Prog.Transacts.bind (Prog.Transacts.transaction (hfree rfl)) fun _ => Prog.Transacts.pure
  · exact Prog.Transacts.bind Prog.Transacts.clock fun _ =>
      Prog.Transacts.bind (Prog.Transacts.transaction (hfree rfl)) fun _ => Prog.Transacts.pure

/-- The attempts at several, one after the other. -/
theorem Transacts.attemptAll {ks : List StorageKey} : (attemptAll ks).Transacts P := by
  induction ks with
  | nil => exact Prog.Transacts.pure
  | cons k rest ih =>
      exact Prog.Transacts.bind (Prog.Transacts.attempt (Transacts.attempt hfree)) fun _ =>
        Prog.Transacts.bind ih fun _ => Prog.Transacts.pure

/-- The same, with their errors thrown. -/
theorem Transacts.attemptMany {ks : List StorageKey} : (attemptMany ks).Transacts P :=
  Prog.Transacts.bind (Transacts.attemptAll hfree) fun _ =>
    Prog.Transacts.bind Prog.Transacts.settle fun _ => Prog.Transacts.pure

/-- A cleanup is scheduled in a transaction of its own, and attempted. -/
theorem Transacts.enqueueAndAttempt {k : StorageKey} {reason : StorageCleanupReason} :
    (enqueueAndAttempt k reason).Transacts P :=
  Prog.Transacts.bind (Prog.Transacts.transaction (hfree rfl)) fun _ => Transacts.attempt hfree

/-- The pending tasks are read, and attempted. -/
theorem Transacts.retryPending : retryPending.Transacts P :=
  Prog.Transacts.bind (Transacts.query hfree rfl) fun _ =>
    Prog.Transacts.bind (Transacts.attemptAll hfree) fun _ =>
      Prog.Transacts.bind Prog.Transacts.settle fun _ => Prog.Transacts.pure

/-- The cleanup of an output nobody refers to. -/
theorem Transacts.scheduleOrphanCleanup {k : StorageKey} :
    (scheduleOrphanCleanup k).Transacts P :=
  Prog.Transacts.bind (Prog.Transacts.transaction (hfree rfl)) fun _ =>
    Prog.Transacts.bind (Prog.Transacts.attempt (Transacts.attemptMany hfree)) fun _ =>
      Prog.Transacts.pure

-- ================================================================= reports

/-- A transaction that is retried is that transaction, as often as it is
retried. -/
theorem Transacts.retryOnConflict {α : Type} {s : Site} {body : InTransaction α} {e : Error}
    (hs : s.movesCredits = false) (left : Nat) :
    (retryOnConflict s body e left).Transacts P := by
  induction left with
  | zero => exact Prog.Transacts.throw
  | succ left ih =>
      refine Prog.Transacts.catch (Prog.Transacts.serializable (hfree hs)) fun e => ?_
      split
      next =>
          split
          next => exact ih
          next => exact Prog.Transacts.throw
      next => exact Prog.Transacts.throw

/-- One transaction, which inserts the report. -/
theorem Transacts.createReport {userId : Id} {title : String} {notes : Option String} :
    (createReport userId title notes).Transacts P :=
  Prog.Transacts.bind Prog.Transacts.randomUUID fun _ =>
    Prog.Transacts.bind Prog.Transacts.clock fun _ => Prog.Transacts.transaction (hfree rfl)

/-- One that updates it, and one that reads it. -/
theorem Transacts.updateReport {userId i : Id} {title : Option String}
    {notes : Option (Option String)} : (updateReport userId i title notes).Transacts P := by
  refine Prog.Transacts.bind (Prog.Transacts.transaction (hfree rfl)) fun count => ?_
  split
  next =>
      refine Prog.Transacts.bind (Transacts.query hfree rfl) fun owned => ?_
      split
      next => exact Prog.Transacts.throw
      next =>
          split
          next => exact Prog.Transacts.throw
          next => exact Prog.Transacts.throw
  next =>
      refine Prog.Transacts.bind (Transacts.query hfree rfl) fun report => ?_
      split
      next => exact Prog.Transacts.throw
      next => exact Prog.Transacts.pure

/-- One that schedules the cleanup of the copies, and the cleanups. -/
theorem Transacts.rollbackDuplicateCopies {duplicateId : Id} {ks : List StorageKey} :
    (rollbackDuplicateCopies duplicateId ks).Transacts P := by
  unfold Reports.rollbackDuplicateCopies
  split
  next => exact Prog.Transacts.pure
  next =>
      exact Prog.Transacts.catch (Prog.Transacts.bind (Prog.Transacts.transaction (hfree rfl))
        fun _ => Transacts.attemptMany hfree) fun _ => Prog.Transacts.pure

/-- One that reads the source, one that creates the duplicate, and the
rollback. -/
theorem Transacts.duplicate {userId i : Id} : (duplicate userId i).Transacts P := by
  refine Prog.Transacts.bind (Transacts.query hfree rfl) fun source => ?_
  split
  next => exact Prog.Transacts.throw
  next =>
      split
      next => exact Prog.Transacts.throw
      next =>
          refine Prog.Transacts.bind Prog.Transacts.randomUUID fun duplicateId => ?_
          refine Prog.Transacts.bind Transacts.assetCopies fun assets => ?_
          refine Prog.Transacts.bind Transacts.copyAssets fun copied => ?_
          refine Prog.Transacts.bind (Prog.Transacts.attempt (Prog.Transacts.bind
            Prog.Transacts.settle fun _ => Prog.Transacts.transaction (hfree rfl)))
            fun created => ?_
          split
          next => exact Prog.Transacts.pure
          next =>
              exact Prog.Transacts.bind (Transacts.rollbackDuplicateCopies hfree) fun _ =>
                Prog.Transacts.throw

/-- One that deletes it with everything of it, and the cleanups. -/
theorem Transacts.deleteReport {userId i : Id} : (deleteReport userId i).Transacts P :=
  Prog.Transacts.bind (Transacts.retryOnConflict hfree rfl 3) fun _ =>
    Prog.Transacts.bind (Prog.Transacts.attempt (Transacts.attemptMany hfree)) fun _ =>
      Prog.Transacts.pure

-- ================================================================== assets

/-- One that reads the asset. -/
theorem Transacts.findOwnedAsset {userId reportId a : Id} :
    (findOwnedAsset userId reportId a).Transacts P := by
  refine Prog.Transacts.bind (Transacts.query hfree rfl) fun asset => ?_
  split
  next => exact Prog.Transacts.throw
  next => exact Prog.Transacts.pure

/-- One that reads the report. -/
theorem Transacts.assertEditableReport {userId reportId : Id} :
    (assertEditableReport userId reportId).Transacts P := by
  refine Prog.Transacts.bind (Transacts.query hfree rfl) fun report => ?_
  split
  next => exact Prog.Transacts.throw
  next =>
      split
      next => exact Prog.Transacts.throw
      next => exact Prog.Transacts.pure

/-- One that rejects the asset, and the cleanup of its object. -/
theorem Transacts.rejectUpload {α : Type} {asset : ReportAsset} {code message : String} :
    (rejectUpload asset code message : Async α).Transacts P :=
  Prog.Transacts.enter (Prog.Transacts.bind (Transacts.enqueueAndAttempt hfree) fun _ =>
    Prog.Transacts.bind (Prog.Transacts.transaction (hfree rfl)) fun _ => Prog.Transacts.throw)

/-- One that makes the asset READY. -/
theorem Transacts.publishAsset {userId reportId : Id} {asset : ReportAsset}
    {inspection : AssetInspection} {size : Nat} :
    (publishAsset userId reportId asset inspection size).Transacts P := by
  refine Prog.Transacts.bind (Prog.Transacts.transaction (hfree rfl)) fun count => ?_
  split
  next =>
      refine Prog.Transacts.bind (Transacts.findOwnedAsset hfree) fun concurrentResult => ?_
      split
      next => exact Prog.Transacts.pure
      next => exact Prog.Transacts.throw
  next => exact Prog.Transacts.transaction (hfree rfl)

/-- The inspection ends in one of the two. -/
theorem Transacts.verifyUpload {userId reportId : Id} {asset : ReportAsset} :
    (verifyUpload cfg userId reportId asset).Transacts P := by
  refine Prog.Transacts.bind (Prog.Transacts.attempt Transacts.awaitOk) fun metadata => ?_
  split
  next => exact Prog.Transacts.throw
  next => exact Transacts.rejectUpload hfree
  next =>
      split
      next => exact Transacts.rejectUpload hfree
      next =>
          refine Prog.Transacts.bind (Prog.Transacts.attempt Transacts.awaitOk) fun bytes => ?_
          split
          next => exact Prog.Transacts.throw
          next =>
              split
              next => exact Transacts.rejectUpload hfree
              next => exact Transacts.publishAsset hfree

/-- A confirmation reads the asset first. -/
theorem Transacts.confirmUpload {userId reportId a : Id} :
    (confirmUpload cfg userId reportId a).Transacts P := by
  refine Prog.Transacts.bind (Transacts.findOwnedAsset hfree) fun asset => ?_
  split
  next => exact Prog.Transacts.pure
  next =>
      split
      next => exact Prog.Transacts.throw
      next =>
          refine Prog.Transacts.bind (Transacts.assertEditableReport hfree) fun _ =>
            Prog.Transacts.bind Prog.Transacts.clock fun now => ?_
          split
          next => exact Transacts.rejectUpload hfree
          next => exact Transacts.verifyUpload hfree

/-- One that rejects each expired asset, and its cleanup. -/
theorem Transacts.expireAll {l : List ReportAsset} : (expireAll l).Transacts P := by
  induction l with
  | nil => exact Prog.Transacts.pure
  | cons asset rest ih =>
      refine Prog.Transacts.bind (Prog.Transacts.catch (Prog.Transacts.enter ?_)
        fun _ => Prog.Transacts.pure) fun _ => Prog.Transacts.bind ih fun _ => Prog.Transacts.pure
      exact Prog.Transacts.bind (Transacts.enqueueAndAttempt hfree) fun _ =>
        Prog.Transacts.transaction (hfree rfl)

/-- The expired uploads, and one that reserves the place of the new one. -/
theorem Transacts.requestUpload {userId reportId : Id} {dto : RequestAssetUploadDto} :
    (requestUpload cfg userId reportId dto).Transacts P := by
  refine Prog.Transacts.bind (Transacts.assertEditableReport hfree) fun _ =>
    Prog.Transacts.bind ?_ fun _ => ?_
  · unfold validateDeclaredUpload
    split
    next => exact Prog.Transacts.throw
    next =>
        split
        next => exact Prog.Transacts.throw
        next => exact Prog.Transacts.pure
  · refine Prog.Transacts.bind (Prog.Transacts.attempt (Transacts.retryPending hfree)) fun _ =>
      Prog.Transacts.bind ?_ fun _ => Prog.Transacts.bind Prog.Transacts.randomUUID fun assetId =>
        Prog.Transacts.bind Prog.Transacts.randomUUID fun nonce =>
          Prog.Transacts.bind (Transacts.retryOnConflict hfree rfl 3) fun _ =>
            Prog.Transacts.bind (Prog.Transacts.attempt Transacts.awaitOk) fun contract => ?_
    · exact Prog.Transacts.bind Prog.Transacts.clock fun _ =>
        Prog.Transacts.bind (Transacts.query hfree rfl) fun _ => Transacts.expireAll hfree
    · split
      next => exact Prog.Transacts.pure
      next => exact Prog.Transacts.bind (Prog.Transacts.transaction (hfree rfl)) fun _ =>
        Prog.Transacts.throw

/-- One that deletes the asset with its task, and the cleanup. -/
theorem Transacts.deleteAsset {userId reportId a : Id} :
    (deleteAsset userId reportId a).Transacts P := by
  refine Prog.Transacts.bind (Transacts.assertEditableReport hfree) fun _ =>
    Prog.Transacts.bind (Transacts.query hfree rfl) fun asset => ?_
  split
  next =>
      refine Prog.Transacts.bind (Transacts.query hfree rfl) fun foreignAsset => ?_
      split
      next => exact Prog.Transacts.throw
      next => exact Prog.Transacts.pure
  next => exact Prog.Transacts.bind (Prog.Transacts.transaction (hfree rfl)) fun _ =>
    Prog.Transacts.bind (Prog.Transacts.attempt (Transacts.attemptMany hfree)) fun _ =>
      Prog.Transacts.pure

-- ============================================================== the worker

/-- One that claims the generation. -/
theorem Transacts.claim : (claim cfg g tok).Transacts P :=
  Prog.Transacts.bind Prog.Transacts.clock fun _ => Prog.Transacts.transaction (hfree rfl)

/-- One that reads it. -/
theorem Transacts.resultAfterClaimLoss : (resultAfterClaimLoss g).Transacts P := by
  refine Prog.Transacts.bind (Transacts.query hfree rfl) fun generation => ?_
  split
  next => exact Prog.Transacts.pure
  next =>
      split
      next => exact Prog.Transacts.pure
      next => exact Prog.Transacts.bind Prog.Transacts.clock fun _ => Prog.Transacts.pure

/-- One that notes the progress. -/
theorem Transacts.updateProgress {stage : ReportGenerationStage} {progress : Nat} :
    (updateProgress cfg g stage progress tok).Transacts P := by
  refine Prog.Transacts.bind Prog.Transacts.clock fun _ =>
    Prog.Transacts.bind Prog.Transacts.clock fun _ =>
      Prog.Transacts.bind (Prog.Transacts.transaction (hfree rfl)) fun count => ?_
  split
  next => exact Prog.Transacts.throw
  next => exact Prog.Transacts.pure

/-- One that renews the lease. -/
theorem Transacts.renewLease : (renewLease cfg g tok).Transacts P :=
  Prog.Transacts.bind Prog.Transacts.clock fun _ =>
    Prog.Transacts.bind Prog.Transacts.clock fun _ =>
      Prog.Transacts.bind (Prog.Transacts.transaction (hfree rfl)) fun _ => Prog.Transacts.pure

/-- The check of the ownership is a renewal. -/
theorem Transacts.assertOwnership : (assertOwnership cfg g tok).Transacts P := by
  refine Prog.Transacts.bind (Transacts.renewLease hfree) fun renewed => ?_
  split
  next => exact Prog.Transacts.pure
  next => exact Prog.Transacts.throw

/-- One that closes the attempt. -/
theorem Transacts.failAttempt {i : AttemptKey} {errorCode : String}
    {providerRequestId : Option String} :
    (failAttempt i errorCode tok providerRequestId).Transacts P :=
  Prog.Transacts.bind Prog.Transacts.clock fun _ =>
    Prog.Transacts.bind (Prog.Transacts.transaction (hfree rfl)) fun _ => Prog.Transacts.pure

/-- One that closes the stale attempts and opens a new one. -/
theorem Transacts.startAttempt {operation : GenerationProviderOperation}
    {provider model : String} {leaseExpiresAt : Time} {assetId : Option Id} :
    (startAttempt cfg g operation provider model tok leaseExpiresAt assetId).Transacts P :=
  Prog.Transacts.serializable (hfree rfl)

/-- The failure of the attempt and that of the transcription. -/
theorem Transacts.failTranscription {assetId : Id} {attempt : AttemptKey} {error : Error} :
    (failTranscription g assetId tok attempt error).Transacts P := by
  unfold Reports.failTranscription
  extract_lets providerError
  split
  next => exact Prog.Transacts.throw
  next =>
      refine Prog.Transacts.bind (Transacts.query hfree rfl) fun owned => ?_
      split
      next => exact Prog.Transacts.throw
      next => exact Prog.Transacts.bind (Transacts.failAttempt hfree) fun _ =>
        Prog.Transacts.bind (Prog.Transacts.transaction (hfree rfl)) fun _ =>
          Prog.Transacts.throw

/-- A transcription is read, begun, and completed or failed, each in a
transaction of its own. -/
theorem Transacts.getOrCreate {asset : GenerationSnapshotAsset} {language : String}
    {leaseExpiresAt : Time} :
    (getOrCreate cfg g asset language tok leaseExpiresAt).Transacts P := by
  unfold Reports.getOrCreate
  split
  next => exact Prog.Transacts.throw
  next =>
      refine Prog.Transacts.bind (Transacts.query hfree rfl) fun existing => ?_
      split
      next => exact Prog.Transacts.pure
      next =>
          refine Prog.Transacts.bind (Prog.Transacts.transaction (hfree rfl)) fun _ =>
            Prog.Transacts.bind (Transacts.startAttempt hfree) fun attempt =>
              Prog.Transacts.catch ?_ fun _ => Transacts.failTranscription hfree
          refine Prog.Transacts.bind Transacts.awaitOk fun _ =>
            Prog.Transacts.bind (Prog.Transacts.enter Transacts.awaitOk) fun _ => ?_
          exact Prog.Transacts.bind (Prog.Transacts.transaction (hfree rfl)) fun _ =>
            Prog.Transacts.pure

/-- All of them, one after the other. -/
theorem Transacts.transcribeAll {run : Run} {count index : Nat}
    {audioAssets : List GenerationSnapshotAsset} :
    (transcribeAll cfg run count index audioAssets).Transacts P := by
  induction audioAssets generalizing index with
  | nil => exact Prog.Transacts.pure
  | cons asset rest ih =>
      exact Prog.Transacts.bind Transacts.assertBeforeDeadline fun _ =>
        Prog.Transacts.bind (Transacts.getOrCreate hfree) fun _ =>
          Prog.Transacts.bind (Transacts.updateProgress hfree) fun _ =>
            Prog.Transacts.bind ih fun _ => Prog.Transacts.pure

/-- The moderation has an attempt, which is completed or failed. -/
theorem Transacts.moderate {run : Run} {sourceText : SourceText} {imageUrls : List StorageKey} :
    (moderate cfg run sourceText imageUrls).Transacts P := by
  refine Prog.Transacts.bind (Transacts.query hfree rfl) fun completed => ?_
  split
  next => exact Prog.Transacts.pure
  next =>
      refine Prog.Transacts.bind Transacts.assertBeforeDeadline fun _ =>
        Prog.Transacts.bind (Transacts.startAttempt hfree) fun moderationAttempt =>
          Prog.Transacts.catch ?_ fun error => ?_
      · refine Prog.Transacts.bind (Prog.Transacts.enter ?_) fun moderation => ?_
        · refine Prog.Transacts.bind Transacts.awaitOk fun result => ?_
          split
          next => exact Prog.Transacts.pure
          next => exact Transacts.moderateBatches
        · split
          next => exact Prog.Transacts.throw
          next => exact Prog.Transacts.transaction (hfree rfl)
      · split
        next => exact Prog.Transacts.bind (Transacts.failAttempt hfree) fun _ =>
          Prog.Transacts.throw
        next => exact Prog.Transacts.bind (Transacts.failAttempt hfree) fun _ =>
          Prog.Transacts.throw

/-- The analysis reads the generation, transcribes and moderates. -/
theorem Transacts.analyze {deadline : Time} : (analyze cfg g tok deadline).Transacts P := by
  refine Prog.Transacts.bind (Prog.Transacts.transaction (hfree rfl)) fun generation =>
    Prog.Transacts.bind ?_ fun snapshot => ?_
  · unfold Reports.parseSnapshot
    split
    next => exact Prog.Transacts.pure
    next => exact Prog.Transacts.throw
  · refine Prog.Transacts.bind (Transacts.updateProgress hfree) fun _ =>
      Prog.Transacts.bind (Transacts.transcribeAll hfree) fun transcripts =>
        Prog.Transacts.bind (Transacts.updateProgress hfree) fun _ =>
          Prog.Transacts.bind ?_ fun _ => ?_
    · unfold assertSupportedImageMimeTypes
      split
      next => exact Prog.Transacts.throw
      next => exact Prog.Transacts.pure
    · refine Prog.Transacts.bind Transacts.assertBeforeDeadline fun _ =>
        Prog.Transacts.bind Transacts.presignAll fun _ =>
          Prog.Transacts.bind (Transacts.moderate hfree) fun _ =>
            Prog.Transacts.bind (Transacts.updateProgress hfree) fun _ => ?_
      split
      next => exact Prog.Transacts.pure
      next => exact Prog.Transacts.bind Transacts.parseOrThrow fun _ => Prog.Transacts.pure

/-- The request for a report has an attempt, which is completed with the
stored result or failed. -/
theorem Transacts.requestReport {run : Run} {sourceText : SourceText}
    {documents : List ProviderDocumentInput} :
    (requestReport cfg run sourceText documents).Transacts P := by
  refine Prog.Transacts.bind (Transacts.startAttempt hfree) fun reportAttempt =>
    Prog.Transacts.catch ?_ fun error => ?_
  · exact Prog.Transacts.bind Transacts.assertBeforeDeadline fun _ =>
      Prog.Transacts.bind Transacts.presignAll fun _ =>
        Prog.Transacts.bind (Prog.Transacts.enter Transacts.awaitOk) fun _ =>
          Prog.Transacts.bind Transacts.parseOrThrow fun _ =>
            Prog.Transacts.bind Transacts.validateImageReferences fun _ =>
              Prog.Transacts.bind (Prog.Transacts.transaction (hfree rfl)) fun _ =>
                Prog.Transacts.pure
  · split
    next => exact Prog.Transacts.bind (Transacts.failAttempt hfree) fun _ =>
      Prog.Transacts.throw
    next => exact Prog.Transacts.bind (Transacts.failAttempt hfree) fun _ =>
      Prog.Transacts.throw

/-- With a stored result there is none. -/
theorem Transacts.generateContent {run : Run} {sourceText : SourceText}
    {stored : Option ReportResult} :
    (generateContent cfg run sourceText stored).Transacts P := by
  unfold Reports.generateContent
  split
  next => exact Prog.Transacts.pure
  next =>
      refine Prog.Transacts.bind Transacts.uploadDocuments fun documents => ?_
      split
      next => exact Prog.Transacts.pure
      next =>
          exact Prog.Transacts.bind (Prog.Transacts.attempt (Transacts.requestReport hfree))
            fun _ => Prog.Transacts.pure

/-- The rendering checks the ownership and notes the progress. -/
theorem Transacts.renderOutput {run : Run} {structuredResult : ReportResult} :
    (renderOutput cfg run structuredResult).Transacts P :=
  Prog.Transacts.bind Transacts.validateImageReferences fun _ =>
    Prog.Transacts.bind (Transacts.updateProgress hfree) fun _ =>
      Prog.Transacts.bind Transacts.assertBeforeDeadline fun _ =>
        Prog.Transacts.bind Transacts.loadImages fun _ =>
          Prog.Transacts.bind Prog.Transacts.clock fun _ =>
            Prog.Transacts.bind Transacts.awaitOk fun _ =>
              Prog.Transacts.bind (Transacts.assertOwnership hfree) fun _ =>
                Prog.Transacts.bind (Transacts.updateProgress hfree) fun _ =>
                  Prog.Transacts.bind Transacts.assertBeforeDeadline fun _ =>
                    Prog.Transacts.pure

variable (hfinalize : ∀ g reportId userId tok k size,
    (finalizeSuccess g reportId userId tok k size).Transacts P)
  (hfail : ∀ g tok errorCode message,
    (failGeneration cfg g tok errorCode message).Transacts P)

include hfinalize in
/-- The try block ends in the publication, which is the one that moves
credits. -/
theorem Transacts.tryBlock {deadline : Time} : (tryBlock cfg g tok deadline).Transacts P := by
  refine Prog.Transacts.bind (Prog.Transacts.attempt (Transacts.analyze hfree)) fun analyzed => ?_
  split
  next => exact Prog.Transacts.pure
  next =>
      refine Prog.Transacts.bind (Transacts.generateContent hfree) fun content => ?_
      split
      next => exact Prog.Transacts.pure
      next =>
          refine Prog.Transacts.bind
            (Prog.Transacts.attempt (Transacts.renderOutput hfree)) fun rendered => ?_
          split
          next => exact Prog.Transacts.pure
          next =>
              refine Prog.Transacts.bind (Prog.Transacts.attempt
                (Prog.Transacts.bind Transacts.uploadObject fun _ => hfinalize ..))
                fun published => ?_
              split
              next => exact Prog.Transacts.pure
              next => exact Prog.Transacts.pure

include hfail in
/-- The catch block puts the generation back into the queue or fails it, and
schedules the cleanup. -/
theorem Transacts.settleError {queueAttempt maximumQueueAttempts : Nat}
    {uploadedOutputKey : Option StorageKey} {error : Error} :
    (settleError cfg g tok queueAttempt maximumQueueAttempts uploadedOutputKey
      error).Transacts P := by
  refine Prog.Transacts.bind ?_ fun _ => ?_
  · cases uploadedOutputKey with
    | none => exact Prog.Transacts.pure
    | some k => exact Transacts.scheduleOrphanCleanup hfree
  · split
    next => exact Transacts.resultAfterClaimLoss hfree
    next =>
        split
        next =>
            refine Prog.Transacts.bind (Prog.Transacts.transaction (hfree rfl)) fun prepared => ?_
            split
            next => exact Prog.Transacts.throw
            next => exact Transacts.resultAfterClaimLoss hfree
        next =>
            refine Prog.Transacts.bind (hfail ..) fun failed => ?_
            split
            next => exact Prog.Transacts.pure
            next => exact Transacts.resultAfterClaimLoss hfree

include hfinalize hfail in
/-- A delivery: the claim, and what follows it. -/
theorem Transacts.process {queueAttempt maximumQueueAttempts : Nat} :
    (process cfg g queueAttempt maximumQueueAttempts).Transacts P := by
  refine Prog.Transacts.bind Prog.Transacts.randomUUID fun processingToken =>
    Prog.Transacts.bind (Transacts.claim hfree) fun claimed => ?_
  split
  next => exact Transacts.resultAfterClaimLoss hfree
  next =>
      refine Prog.Transacts.bind Prog.Transacts.clock fun startedAt =>
        Prog.Transacts.bind (Transacts.tryBlock hfree hfinalize) fun outcome =>
          Prog.Transacts.bind (Prog.Transacts.attempt ?_) fun result =>
            Prog.Transacts.bind Transacts.deleteTemporaryFiles fun _ => Prog.Transacts.settle
      split
      next => exact Prog.Transacts.pure
      next => exact Transacts.settleError hfree hfail

/-- A tick renews the lease. -/
theorem Transacts.heartbeat {deadline : Time} : (heartbeat cfg g tok deadline).Transacts P := by
  refine Prog.Transacts.bind Prog.Transacts.clock fun now => ?_
  split
  next => exact Prog.Transacts.pure
  next =>
      exact Prog.Transacts.bind (Prog.Transacts.attempt (Transacts.renewLease hfree))
        fun _ => Prog.Transacts.pure

-- ============================================================= generations

/-- One that reads the generation. -/
theorem Transacts.findOne {userId reportId : Id} :
    (findOne userId reportId g).Transacts P := by
  refine Prog.Transacts.bind (Transacts.query hfree rfl) fun generation => ?_
  split
  next => exact Prog.Transacts.throw
  next => exact Prog.Transacts.pure

variable (hcompensate : ∀ g, (compensateQueueFailure g).Transacts P)
  (hstart : ∀ userId reportId idempotencyKey g,
    P _ .serializable (.start userId reportId idempotencyKey g)
      (startTransaction cfg userId reportId idempotencyKey g))
  (hcancel : ∀ userId reportId g,
    P _ .readCommitted (.cancel g) (cancelTransaction userId reportId g))

include hcompensate in
/-- One that notes that the job was enqueued, or the compensation. -/
theorem Transacts.ensureEnqueued {x : ReportGeneration} : (ensureEnqueued x).Transacts P := by
  unfold Reports.ensureEnqueued
  split
  next => exact Prog.Transacts.pure
  next =>
      refine Prog.Transacts.bind (Prog.Transacts.attempt Transacts.awaitOk) fun enqueued => ?_
      split
      next => exact Prog.Transacts.bind (Prog.Transacts.attempt (hcompensate _)) fun _ =>
        Prog.Transacts.throw
      next =>
          refine Prog.Transacts.bind (Prog.Transacts.attempt ?_) fun _ => Prog.Transacts.pure
          exact Prog.Transacts.bind Prog.Transacts.clock fun _ =>
            Prog.Transacts.bind (Prog.Transacts.transaction (hfree rfl)) fun _ =>
              Prog.Transacts.pure

include hstart in
/-- The start, as often as it is retried. -/
theorem Transacts.reserveGeneration {userId reportId : Id} {idempotencyKey : String}
    (left : Nat) :
    (reserveGeneration cfg userId reportId idempotencyKey g left).Transacts P := by
  induction left with
  | zero => exact Prog.Transacts.pure
  | succ left ih =>
      refine Prog.Transacts.catch (Prog.Transacts.bind
        (Prog.Transacts.serializable (hstart ..)) fun _ => Prog.Transacts.pure) fun e => ?_
      split
      next =>
          split
          next => exact ih
          next => exact Prog.Transacts.throw
      next =>
          refine Prog.Transacts.bind (Transacts.query hfree rfl) fun duplicate => ?_
          split
          next => exact Prog.Transacts.pure
          next => exact Prog.Transacts.throw
      next => exact Prog.Transacts.throw

include hcompensate hstart in
/-- A start reads the generation of its key, starts one, and enqueues it. -/
theorem Transacts.start {userId reportId : Id} {idempotencyKey : String} :
    (Reports.start cfg userId reportId idempotencyKey).Transacts P := by
  unfold Reports.start
  split
  next => exact Prog.Transacts.throw
  next =>
      split
      next => exact Prog.Transacts.throw
      next =>
          refine Prog.Transacts.bind (Transacts.query hfree rfl) fun existing => ?_
          split
          next => exact Transacts.ensureEnqueued hfree hcompensate
          next =>
              refine Prog.Transacts.bind Prog.Transacts.randomUUID fun generationId =>
                Prog.Transacts.bind (Transacts.reserveGeneration hfree hstart _) fun x => ?_
              split
              next => exact Prog.Transacts.throw
              next => exact Transacts.ensureEnqueued hfree hcompensate

include hcancel in
/-- A cancellation reads the generation, and cancels it. -/
theorem Transacts.cancel {userId reportId : Id} : (cancel userId reportId g).Transacts P := by
  refine Prog.Transacts.bind (Transacts.findOne hfree) fun generation => ?_
  split
  next => exact Prog.Transacts.throw
  next =>
      refine Prog.Transacts.bind (Prog.Transacts.attempt Transacts.awaitOk) fun removed => ?_
      split
      next => exact Prog.Transacts.throw
      next => exact Prog.Transacts.transaction (hcancel ..)

variable (hmonthly : ∀ userId subscriptionPeriodKey totalCredits validFrom expiresAt,
    (allocateMonthly userId subscriptionPeriodKey totalCredits validFrom expiresAt).Transacts P)
  (hgrant : ∀ email amount requestKey,
    (grantGenerationCredits cfg email amount requestKey).Transacts P)

include hfinalize hfail hcompensate hstart hcancel hmonthly hgrant in
/-- Every transaction of a request has the property, once those that move
credits have it. -/
theorem main_transacts (q : Req) : (main cfg q).Transacts P := by
  cases q with
  | createReport userId title notes =>
      exact Prog.Transacts.bind (Transacts.createReport hfree) fun _ => Prog.Transacts.pure
  | updateReport userId i title notes =>
      exact Prog.Transacts.bind (Transacts.updateReport hfree) fun _ => Prog.Transacts.pure
  | duplicateReport userId i =>
      exact Prog.Transacts.bind (Transacts.duplicate hfree) fun _ => Prog.Transacts.pure
  | deleteReport userId i =>
      exact Prog.Transacts.bind (Transacts.deleteReport hfree) fun _ => Prog.Transacts.pure
  | createGeneration userId reportId idempotencyKey =>
      exact Prog.Transacts.bind (Transacts.start hfree hcompensate hstart) fun _ =>
        Prog.Transacts.pure
  | retryGeneration userId reportId generationId idempotencyKey =>
      exact Prog.Transacts.bind (Prog.Transacts.bind (Transacts.findOne hfree) fun _ =>
        Transacts.start hfree hcompensate hstart) fun _ => Prog.Transacts.pure
  | cancelGeneration userId reportId generationId =>
      exact Prog.Transacts.bind (Transacts.cancel hfree hcancel) fun _ => Prog.Transacts.pure
  | process generationId queueAttempt maximumQueueAttempts =>
      exact Prog.Transacts.bind (Transacts.process hfree hfinalize hfail) fun _ =>
        Prog.Transacts.pure
  | heartbeat generationId processingToken deadline =>
      exact Prog.Transacts.bind (Transacts.heartbeat hfree) fun _ => Prog.Transacts.pure
  | allocateMonthly userId subscriptionPeriodKey totalCredits validFrom expiresAt =>
      exact Prog.Transacts.bind (hmonthly ..) fun _ => Prog.Transacts.pure
  | grantGenerationCredits email amount requestKey =>
      exact Prog.Transacts.bind (hgrant ..) fun _ => Prog.Transacts.pure
  | requestUpload userId reportId type mimeType size fileName =>
      exact Prog.Transacts.bind (Transacts.requestUpload hfree) fun _ => Prog.Transacts.pure
  | confirmUpload userId reportId assetId =>
      exact Prog.Transacts.bind (Transacts.confirmUpload hfree) fun _ => Prog.Transacts.pure
  | deleteAsset userId reportId assetId =>
      exact Prog.Transacts.bind (Transacts.deleteAsset hfree) fun _ => Prog.Transacts.pure

end Free

end FastRep.Reports
