/-
One commit as a single row sees it.

`Effect` lists the writes of a commit; the laws of the report side are
about the history of a row. For every table this module says which sites
write to it (`Site.tables`) and what a commit can do to one row of it
(`GenerationChange`, `ReportChange`, …), with the guard it passed. That
these are all the changes there are is proved beside, once for each
table; the invariants then only look at changes.

# How a change reads

A change relates what a lookup finds under one key before and after the
commit: `none` to `some` is a creation, `some` to `none` a deletion. A
constructor names the site where the reason matters, and carries the part of
the site's effect that speaks of this row: the status it had, the token, the
lease, the report that went along. What a commit does to other rows is not
repeated; an invariant over two tables looks at a change of each.
-/
import FastRep.Reports.Effects

namespace FastRep.Reports

open FastRep.Txn

-- =============================================================== tables

inductive Table where
  | user | report | asset | generation | output | transcription
  | subscription | grant | ledger | attempt | cleanupTask
  deriving DecidableEq, Repr

def Key.table : Key → Table
  | .user _ => .user
  | .report _ => .report
  | .asset _ => .asset
  | .generation _ => .generation
  | .output _ => .output
  | .transcription _ => .transcription
  | .subscription _ => .subscription
  | .grant _ => .grant
  | .ledger _ => .ledger
  | .attempt _ => .attempt
  | .cleanupTask _ => .cleanupTask

/-- The tables a site writes to. -/
def Site.tables : Site → List Table
  | .start _ _ _ _ => [.generation, .report, .grant, .ledger]
  | .markEnqueued _ => [.generation]
  | .compensateQueueFailure _ =>
      [.report, .grant, .ledger, .generation, .output, .attempt]
  | .cancel _ | .failGeneration _ _ => [.generation, .report, .grant, .ledger]
  | .claim _ _ | .prepareRetry _ _ => [.generation, .report]
  | .updateProgress _ _ | .persistReportResult _ _ | .renewLease _ _ =>
      [.generation, .attempt]
  | .finalizeSuccess _ _ => [.output, .generation, .report, .ledger]
  | .startAttempt _ _ _ _ | .completeOwned _ _ | .failAttempt _ => [.attempt]
  | .beginTranscription _ | .failTranscription _ => [.transcription]
  | .completeTranscription _ _ _ => [.attempt, .transcription]
  | .allocateMonthly _ _ | .grantGenerationCredits _ => [.grant, .ledger]
  | .createReport _ | .updateReport _ => [.report]
  | .duplicateReport _ => [.report, .asset]
  | .deleteReport _ =>
      [.cleanupTask, .asset, .transcription, .attempt, .report, .generation, .output,
        .ledger]
  | .enqueueCleanup _ | .scheduleOrphanCleanup _ | .finishCleanup _ | .deferCleanup _
  | .rollbackDuplicateCopies _ => [.cleanupTask]
  | .createPendingAsset _ | .markReady _ | .markRejected _ | .markExpired _ => [.asset]
  | .dropPendingAsset _ => [.asset, .transcription, .attempt]
  | .deleteAsset _ => [.cleanupTask, .asset, .transcription, .attempt]
  | _ => []

-- ========================================================= lifecycle rows

/-- A row of a generation, before and after a commit. -/
inductive GenerationChange (cfg : Config) (S : RState) (g : Id) :
    Site → Option ReportGeneration → Option ReportGeneration → Prop
  | started (userId reportId : Id) (idempotencyKey : String)
      (snapshot : GenerationInputSnapshot) (priorReportStatus : ReportStatus) :
      GenerationChange cfg S g (.start userId reportId idempotencyKey g) none
        (some (newGeneration g reportId userId idempotencyKey snapshot priorReportStatus
          S.clock))
  | enqueued (x : ReportGeneration) (now : Time) : x.status = .queued →
      GenerationChange cfg S g (.markEnqueued g) (some x)
        (some { x with enqueuedAt := some now })
  | cancelled (x : ReportGeneration) (now : Time) : x.status = .queued →
      GenerationChange cfg S g (.cancel g) (some x)
        (some { x with status := .cancelled, cancelledAt := some now })
  | claimed (tok : Id) (x : ReportGeneration) (now leaseExpiresAt : Time) :
      x.claimable now = true →
      GenerationChange cfg S g (.claim g tok) (some x)
        (some (x.claimed now leaseExpiresAt tok))
  | fenced (s : Site) (tok : Id) (x y : ReportGeneration) :
      s = .updateProgress g tok ∨ s = .persistReportResult g tok ∨ s = .renewLease g tok →
      x.ownedBy tok = true → SameCore x y →
      GenerationChange cfg S g s (some x) (some y)
  | requeued (tok : Id) (x : ReportGeneration) (errorCode : String) :
      x.ownedBy tok = true →
      GenerationChange cfg S g (.prepareRetry g tok) (some x) (some (x.requeued errorCode))
  | failed (tok : Id) (x : ReportGeneration) (errorCode message : String) (now : Time) :
      x.ownedBy tok = true →
      GenerationChange cfg S g (.failGeneration g tok) (some x)
        (some (x.ended errorCode message now))
  | completed (tok : Id) (x : ReportGeneration) (now : Time) : x.ownedBy tok = true →
      GenerationChange cfg S g (.finalizeSuccess g tok) (some x) (some (x.completed now))
  | compensated (x : ReportGeneration) :
      GenerationChange cfg S g (.compensateQueueFailure g) (some x) none
  | removed (x : ReportGeneration) (r : Report) : report? S.db x.reportId = some r →
      r.status ≠ .queued → r.status ≠ .processing →
      GenerationChange cfg S g (.deleteReport x.reportId) (some x) none

/-- A row of a report, before and after a commit. -/
inductive ReportChange (cfg : Config) (S : RState) (i : Id) :
    Site → Option Report → Option Report → Prop
  | created (userId : Id) (title : String) (notes : Option String) (createdAt : Time) :
      ReportChange cfg S i (.createReport i) none
        (some (newReport i userId title notes createdAt))
  | duplicated (userId : Id) (title : String) (notes : Option String) (createdAt : Time) :
      ReportChange cfg S i (.duplicateReport i) none
        (some (newReport i userId title notes createdAt))
  | patched (r : Report) (title : Option String) (notes : Option (Option String)) :
      r.status = .draft ∨ r.status = .failed →
      ReportChange cfg S i (.updateReport i) (some r) (some (r.patched title notes))
  | queued (userId : Id) (idempotencyKey : String) (g : Id) (r : Report) :
      r.status = .draft ∨ r.status = .failed →
      (∀ lockedUntil, r.reportGenerationLockedUntil = some lockedUntil →
        lockedUntil ≤ S.clock) →
      generation? S.db g = none →
      ReportChange cfg S i (.start userId i idempotencyKey g) (some r)
        (some { r with status := .queued })
  | restored (g : Id) (r : Report) (prior : ReportStatus) : r.status = .queued →
      ReportChange cfg S i (.compensateQueueFailure g) (some r)
        (some { r with status := prior })
  | released (g : Id) (x : ReportGeneration) (r : Report) (prior : ReportStatus) :
      generation? S.db g = some x → x.status = .queued → x.reportId = i →
      ReportChange cfg S i (.cancel g) (some r) (some { r with status := prior })
  | processing (g tok : Id) (x : ReportGeneration) (r : Report) :
      generation? S.db g = some x → x.reportId = i →
      r.status = .queued ∨ r.status = .processing →
      ReportChange cfg S i (.claim g tok) (some r) (some { r with status := .processing })
  | requeued (g tok : Id) (x : ReportGeneration) (r : Report) :
      generation? S.db g = some x → x.ownedBy tok = true → x.reportId = i →
      r.status = .processing →
      ReportChange cfg S i (.prepareRetry g tok) (some r) (some { r with status := .queued })
  | failed (g tok : Id) (x : ReportGeneration) (r : Report) (now : Time) (hasOutput : Bool)
      (read : Report) :
      generation? S.db g = some x → x.ownedBy tok = true → x.reportId = i →
      ReportChange cfg S i (.failGeneration g tok) (some r)
        (some (r.failedAt cfg now hasOutput read))
  | published (g tok : Id) (x : ReportGeneration) (r : Report) :
      generation? S.db g = some x → x.ownedBy tok = true →
      ReportChange cfg S i (.finalizeSuccess g tok) (some r) (some r.published)
  | removed (r : Report) : r.status ≠ .queued → r.status ≠ .processing →
      ReportChange cfg S i (.deleteReport i) (some r) none

/-- A row of an output, by its generation, before and after a commit. -/
inductive OutputChange (S : RState) (g : Id) :
    Site → Option ReportOutput → Option ReportOutput → Prop
  | published (tok : Id) (x : ReportGeneration) (o : ReportOutput) (u : Id) :
      generation? S.db g = some x → x.ownedBy tok = true →
      o.generationId = g → o.storageKey = .output u o.reportId g tok →
      Once S (fun d => ∃ y, generation? d g = some y ∧ y.reportId = o.reportId) →
      OutputChange S g (.finalizeSuccess g tok) none (some o)
  | compensated (o : ReportOutput) :
      OutputChange S g (.compensateQueueFailure g) (some o) none
  | removed (i : Id) (o : ReportOutput) :
      o.reportId = i ∨ (∃ x, generation? S.db g = some x ∧ x.reportId = i) →
      OutputChange S g (.deleteReport i) (some o) none

-- ============================================================ worker rows

/-- A row of a provider attempt, before and after a commit. -/
inductive AttemptChange (cfg : Config) (S : RState) (id : AttemptKey) :
    Site → Option GenerationProviderAttempt → Option GenerationProviderAttempt → Prop
  | started (tok : Id) (y : GenerationProviderAttempt) :
      y.id = id → y.status = .started → y.processingToken = tok →
      (∀ x ∈ scopeAttempts id.generationId id.operation id.assetId S.db,
        x.status = .started → x.leaseExpiresAt ≤ S.clock) →
      (scopeAttempts id.generationId id.operation id.assetId S.db).length
        < maximumAttempts cfg id.operation →
      id.attemptNumber
        = (scopeAttempts id.generationId id.operation id.assetId S.db).length + 1 →
      (generation? S.db id.generationId).isSome = true →
      (∀ i, id.assetId = some i → (asset? S.db i).isSome = true) →
      Scoped S id.generationId id.operation id.assetId →
      AttemptChange cfg S id (.startAttempt id.generationId tok id.operation id.assetId) none
        (some y)
  | stale (g tok : Id) (operation : GenerationProviderOperation) (assetId : Option Id)
      (x : GenerationProviderAttempt) :
      x ∈ scopeAttempts g operation assetId S.db → x.status = .started →
      x.leaseExpiresAt ≤ S.clock →
      AttemptChange cfg S id (.startAttempt g tok operation assetId) (some x)
        (some (x.stale S.clock))
  | closed (s : Site) (x y : GenerationProviderAttempt)
      (status : GenerationProviderAttemptStatus) :
      x.status = .started → y.id = id → y.status = status → status ≠ .started →
      (status = .completed → id.operation = .moderation →
        ∃ tok, s = .completeOwned id.generationId tok) →
      AttemptChange cfg S id s (some x) (some y)
  | compensated (x : GenerationProviderAttempt) :
      AttemptChange cfg S id (.compensateQueueFailure id.generationId) (some x) none
  | removed (i : Id) (x : GenerationProviderAttempt) :
      (∃ y, generation? S.db id.generationId = some y ∧ y.reportId = i) ∨
        (∃ a, asset? S.db a.id = some a ∧ a.reportId = i ∧ id.assetId = some a.id) →
      AttemptChange cfg S id (.deleteReport i) (some x) none
  | discarded (s : Site) (a : Id) (x : GenerationProviderAttempt) : id.assetId = some a →
      s = .dropPendingAsset a ∨ s = .deleteAsset a →
      AttemptChange cfg S id s (some x) none

/-- A row of a transcription, before and after a commit. -/
inductive TranscriptionChange (S : RState) (a : Id) :
    Site → Option ReportAssetTranscription → Option ReportAssetTranscription → Prop
  | begun (x : Option ReportAssetTranscription) (y : ReportAssetTranscription) :
      y.status = .processing → TranscriptionChange S a (.beginTranscription a) x (some y)
  | completed (g tok : Id) (x y : ReportAssetTranscription) (k : StorageKey)
      (fileName mimeType : String) (language : Option String)
      (r : ProviderResult ProviderTranscription) : y.status = .completed →
      (∃ e ∈ S.trace, e.event = .call (.transcribe k fileName mimeType language)
        (.transcribed r)) → y.text = some r.value.text →
      TranscriptionChange S a (.completeTranscription g tok a) (some x) (some y)
  | failed (x y : ReportAssetTranscription) : y.status = .failed →
      TranscriptionChange S a (.failTranscription a) (some x) (some y)
  | removed (s : Site) (x : ReportAssetTranscription) :
      (∃ i, s = .deleteReport i) ∨ s = .dropPendingAsset a ∨ s = .deleteAsset a →
      TranscriptionChange S a s (some x) none

-- ============================================================= asset rows

/-- A row of an asset, before and after a commit. -/
inductive AssetChange (cfg : Config) (t : Tid) (S : RState) (a : Id) :
    Site → Option ReportAsset → Option ReportAsset → Prop
  | created (x : ReportAsset) : Reserving cfg t a [.insert (.asset x)] S →
      AssetChange cfg t S a (.createPendingAsset a) none (some x)
  | copied (i userId source : Id) (createdAt : Time) (c : AssetCopy) : c.id = a →
      report? S.db i = none → (∃ n, c.storageKey = .asset userId i c.id n) →
      (Once S fun d => c.source ∈ sourceAssets source d) →
      AssetChange cfg t S a (.duplicateReport i) none (some (c.row i createdAt))
  | verified (x y : ReportAsset) (inspection : AssetInspection) (size : Nat) :
      x.status = .pendingUpload → y.id = a → Inspected cfg S t y inspection size →
      (∃ u r, (t, Req.confirmUpload u r a) ∈ S.live) →
      AssetChange cfg t S a (.markReady a) (some x) (some (x.verified inspection size))
  | rejected (s : Site) (x : ReportAsset) (reason : String) : x.status = .pendingUpload →
      s = .markRejected a ∨ s = .markExpired a →
      AssetChange cfg t S a s (some x) (some (x.rejected reason))
  | dropped (x : ReportAsset) : x.status = .pendingUpload →
      AssetChange cfg t S a (.dropPendingAsset a) (some x) none
  | deleted (x : ReportAsset) : Checked S t x.reportId →
      (∃ u, (t, Req.deleteAsset u x.reportId a) ∈ S.live) →
      AssetChange cfg t S a (.deleteAsset a) (some x) none
  | removed (x : ReportAsset) (r : Report) : report? S.db x.reportId = some r →
      r.status ≠ .queued → r.status ≠ .processing →
      AssetChange cfg t S a (.deleteReport x.reportId) (some x) none

end FastRep.Reports
