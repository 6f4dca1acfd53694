/-
What the transactions of the report side do when they commit.

`Effect` is the commit clause of the contract: for each site, the writes
the transaction commits with and what is true of the committed database at
that moment. It is what the lifecycle and ledger results are derived from;
none of them looks at a program again.

# What an effect may say

A fact in an effect is about the committed rows at the commit where the
transaction holds a lock on them. What it read without one is stated of
the scene it was read in, as an entry of the trace: it was true `Once`, or
has been true `Since`. Where the source reads and then acts on what it read,
the difference between the two is the race.

# What is counted

Some commits count (`Site.marked`): those that use up an id the thread drew,
take back what the thread did, complete a transcription, or give an upload
up. A thread makes such a commit once, so a row that only such a commit
creates is created once. Paid calls and uploads are counted as entries
(`Site.metered`), each with the attempt or the key that was made for it.

# The other clauses

A run of the worker works only on what it has claimed (`RunSite`, `Working`).
A paid call has an attempt of its own (`Enters`). A call may be made, and an
object deleted, only where there is a reason for it (`CallOk`). A request
that ends says what it did on the way (`Finishes`): why a run ended well, why
it threw on its last attempt, what an answered start or retry read, and what
became of an uploaded output. `contract` puts these together.
-/
import FastRep.Reports.App
import FastRep.Txn.Triple

namespace FastRep.Reports

open FastRep.Txn

/-- Commits that are counted: they use up an id of the thread, take back
what it did, complete a transcription, give an upload up, or settle the
generation it runs. -/
def Site.marked : Site → Bool
  | .start _ _ _ _ | .createReport _ | .createPendingAsset _
  | .duplicateReport _ | .rollbackDuplicateCopies _
  | .compensateQueueFailure _ | .completeTranscription _ _ _
  | .scheduleOrphanCleanup _ | .finalizeSuccess _ _ | .prepareRetry _ _
  | .failGeneration _ _ => true
  | _ => false

/-- The commits that settle the generation of a run. -/
def Site.settles : Site → Bool
  | .finalizeSuccess _ _ | .prepareRetry _ _ | .failGeneration _ _ => true
  | _ => false

/-- The commits that give the upload of a run up. -/
def Site.schedules : Site → Bool
  | .scheduleOrphanCleanup _ => true
  | _ => false

/-- Function entries that are counted: paid calls and uploads. -/
def Site.metered : Site → Bool
  | .provider _ _ _ | .uploadObject _ => true
  | _ => false

def marking : Marking Site where
  commits := Site.marked
  enters := Site.metered

/-- The marked commits of a thread, last first. -/
abbrev marks (S : RState) (t : Tid) : List Site := S.marks marking t

/-- The paid calls and uploads of a thread, last first. -/
abbrev metered (S : RState) (t : Tid) : List Site := S.entered marking t

/-- The sites of a run of the worker. -/
def Site.ofRun (generationId processingToken : Id) : Site → Bool
  | .claim g tok | .updateProgress g tok | .persistReportResult g tok
  | .renewLease g tok | .finalizeSuccess g tok | .prepareRetry g tok
  | .failGeneration g tok | .startAttempt g tok _ _ | .completeOwned g tok
  | .completeTranscription g tok _ | .ownedTranscription g tok =>
      g = generationId && tok = processingToken
  | .loadGeneration g | .resultAfterClaimLoss g | .hasCompleted g =>
      g = generationId
  | .scheduleOrphanCleanup _ | .finishCleanup _ | .deferCleanup _
  | .findTranscription _ | .beginTranscription _ | .failTranscription _
  | .failAttempt _ => true
  | _ => false

/-- The sites at which a run works on the generation it has claimed. -/
def Site.working : Site → Bool
  | .updateProgress _ _ | .persistReportResult _ _ | .finalizeSuccess _ _
  | .prepareRetry _ _ | .failGeneration _ _ | .startAttempt _ _ _ _
  | .completeOwned _ _ | .failAttempt _ | .beginTranscription _
  | .completeTranscription _ _ _ | .failTranscription _ => true
  | _ => false

/-- At some earlier moment of the run the committed database was like
this. -/
def Once (S : RState) (p : Db Row → Prop) : Prop :=
  ∃ e ∈ S.trace, p e.before.db

/-- Since an earlier moment at which the committed database was like `p`,
it has been like `q` all along. -/
def Since (S : RState) (q p : Db Row → Prop) : Prop :=
  ∃ newer e older, S.trace = newer ++ e :: older ∧ p e.before.db ∧
    ∀ e' ∈ newer ++ [e], q e'.before.db

/-- The generation was seen stored, or its start committed. -/
def Existed (S : RState) (generationId : Id) : Prop :=
  ∃ e ∈ S.trace, (generation? e.before.db generationId).isSome = true ∨
    ∃ u r k ws, e.event = .commit (.start u r k generationId) ws ∧ ws ≠ []

-- =============================================================== ledger

/-- No entry settles the reservation of the generation, as far as the
entries still name it. -/
def NoTerminal (generationId : Id) (d : Db Row) : Prop :=
  ∀ l ∈ ledger d, l.generationId = some generationId → l.type.terminal = false

/-- Nothing is left to release: no reservation with a grant, or an entry
that settles it. -/
def Settled (generationId : Id) (d : Db Row) : Prop :=
  (∀ l, ledger? d (.generation generationId .reserve) = some l → l.grantId = none)
    ∨ ∃ l ∈ ledger d, l.generationId = some generationId ∧ l.type.terminal = true

/-- A ledger entry of one credit of a generation. -/
structure GenerationCreditTransaction.IsEntry (l : GenerationCreditTransaction)
    (generationId : Id) (action : CreditAction)
    (type : GenerationCreditTransactionType) : Prop where
  idempotencyKey : l.idempotencyKey = .generation generationId action
  generationId : l.generationId = some generationId
  type : l.type = type
  amount : l.amount = 1

/-- What `releaseInTransaction` adds to a commit. -/
def Releases (generationId : Id) (ws : List (Write Row Key)) (S : RState) : Prop :=
  (ws = [] ∧ Once S (Settled generationId)) ∨
  ∃ (g : GenerationCreditGrant) (l : GenerationCreditTransaction),
    ws = [.update (.grant { g with remainingCredits := g.remainingCredits + 1 }),
      .insert (.ledger l)] ∧
    grant? S.db g.id = some g ∧ g.remainingCredits + 1 ≤ g.totalCredits ∧
    l.IsEntry generationId .release .release ∧ l.grantId = some g.id ∧
    ledger? S.db (.generation generationId .release) = none ∧
    NoTerminal generationId S.db

/-- What `consumeInTransaction` adds to a commit. -/
def Consumes (generationId : Id) (ws : List (Write Row Key)) (S : RState) : Prop :=
  (ws = [] ∧ Once S fun d => ∃ l ∈ ledger d,
    l.generationId = some generationId ∧ l.type = .consume) ∨
  ∃ l : GenerationCreditTransaction, ws = [.insert (.ledger l)] ∧
    l.IsEntry generationId .consume .consume ∧
    (∀ i, l.grantId = some i → (grant? S.db i).isSome = true) ∧
    ledger? S.db (.generation generationId .consume) = none ∧
    NoTerminal generationId S.db

/-- What `reserve` adds to a start. -/
def Reserves (generationId : Id) (ws : List (Write Row Key)) (d : Db Row) : Prop :=
  (ws = [] ∧ (ledger? d (.generation generationId .reserve)).isSome = true) ∨
  ∃ (g : GenerationCreditGrant) (l : GenerationCreditTransaction),
    ws = [.update (.grant { g with remainingCredits := g.remainingCredits - 1 }),
      .insert (.ledger l)] ∧
    grant? d g.id = some g ∧ 0 < g.remainingCredits ∧
    l.IsEntry generationId .reserve .reserve ∧ l.grantId = some g.id ∧
    ledger? d (.generation generationId .reserve) = none

/-- What a grant of credits commits: a new grant, or the one already
there, and its GRANT entry. -/
def Grants (k : LedgerKey) (p : GenerationCreditGrant → Prop)
    (ws : List (Write Row Key)) (S : RState) : Prop :=
  ws = [] ∨ ∃ (g : GenerationCreditGrant) (l : GenerationCreditTransaction),
    p g ∧ l.idempotencyKey = k ∧ l.generationId = none ∧ l.type = .grant ∧
    l.grantId = some g.id ∧ ledger? S.db k = none ∧
    ((ws = [.insert (.grant g), .insert (.ledger l)] ∧ grant? S.db g.id = none ∧
        0 < g.totalCredits ∧ g.remainingCredits = g.totalCredits ∧
        l.amount = g.totalCredits) ∨
      (ws = [.update (.grant g), .insert (.ledger l)] ∧
        grant? S.db g.id = some g))

-- ============================================================ lifecycle

/-- Two versions of a generation that differ in nothing the lifecycle or
its fencing depends on. -/
structure SameCore (x y : ReportGeneration) : Prop where
  id : y.id = x.id
  reportId : y.reportId = x.reportId
  userId : y.userId = x.userId
  idempotencyKey : y.idempotencyKey = x.idempotencyKey
  status : y.status = x.status
  attemptCount : y.attemptCount = x.attemptCount
  processingToken : y.processingToken = x.processingToken
  priorReportStatus : y.priorReportStatus = x.priorReportStatus
  inputSnapshot : y.inputSnapshot = x.inputSnapshot
  createdAt : y.createdAt = x.createdAt

/-- The guarded change of the report's status that follows a change of the
generation `x`, in the same transaction. -/
def Follows (x : ReportGeneration) (p : Report → Bool) (status : ReportStatus)
    (ws : List (Write Row Key)) (S : RState) : Prop :=
  (∃ r, report? S.db x.reportId = some r ∧ p r = true ∧
    ws = [.update (.report { r with status })]) ∨
  (ws = [] ∧ Since S (fun d => generation? d x.id = some x) fun d =>
    ∀ r, report? d x.reportId = some r → p r = false)

/-- The closing of a provider attempt that is under way. -/
def Closes (id : AttemptKey) (status : GenerationProviderAttemptStatus)
    (ws : List (Write Row Key)) (S : RState) : Prop :=
  ∃ x y, attempt? S.db id = some x ∧ x.status = .started ∧ y.id = id ∧
    y.status = status ∧ y.leaseExpiresAt = x.leaseExpiresAt ∧
    ws = [.update (.attempt y)]

/-- A change of a transcription, to a status. -/
def Transcribes (assetId : Id) (status : AssetTranscriptionStatus)
    (ws : List (Write Row Key)) (S : RState) : Prop :=
  ∃ x y, transcription? S.db assetId = some x ∧ y.assetId = assetId ∧
    y.status = status ∧ ws = [.update (.transcription y)]

/-- An update of a generation a run owns, beside the attempt that wrote the
report. -/
def Fenced (generationId processingToken : Id) (ws : List (Write Row Key))
    (S : RState) : Prop :=
  ws = [] ∨ ∃ x y side, generation? S.db generationId = some x ∧
    x.ownedBy processingToken = true ∧ SameCore x y ∧
    (side = [] ∨ ∃ id : AttemptKey, id.operation = .reportGeneration ∧
      Closes id .completed side S) ∧
    ws = side ++ [.update (.generation y)]

/-- The rows a deletion of generations or reports removes, and what it
clears. -/
structure Removes (gone : Id → Prop) (reports : Id → Prop) (d : Db Row)
    (ws : List (Write Row Key)) : Prop where
  nodup : (ws.map Write.target).Nodup
  writes : ∀ w ∈ ws,
    (∃ x, asset? d x.id = some x ∧ reports x.reportId ∧ w = .erase (.asset x.id)) ∨
    (∃ x, asset? d x.id = some x ∧ reports x.reportId ∧
      w = .erase (.transcription x.id)) ∨
    (∃ a : AttemptKey, (gone a.generationId ∨ ∃ x, asset? d x.id = some x ∧
      reports x.reportId ∧ a.assetId = some x.id) ∧ w = .erase (.attempt a)) ∨
    (∃ r, reports r ∧ w = .erase (.report r)) ∨
    (∃ g, gone g ∧ w = .erase (.generation g)) ∨
    (∃ o, output? d o.generationId = some o ∧
      (gone o.generationId ∨ reports o.reportId) ∧
      w = .erase (.output o.generationId)) ∨
    ∃ (l : GenerationCreditTransaction) (g : Id), gone g ∧
      l.generationId = some g ∧ ledger? d l.idempotencyKey = some l ∧
      w = .update (.ledger { l with generationId := none })
  complete : ∀ g, gone g → .erase (.generation g) ∈ ws

/-- The commit of `start`. -/
def Starts (cfg : Config) (t : Tid) (userId reportId : Id) (idempotencyKey : String)
    (generationId : Id) (ws : List (Write Row Key)) (S : RState) : Prop :=
  (ws = [] ∧ (generationByKey userId reportId idempotencyKey S.db).isSome = true) ∨
  ∃ r user credit,
    ws = .insert (.generation (newGeneration generationId reportId userId
        idempotencyKey (inputSnapshot r user (assetsOf reportId S.db) S.clock)
        r.status S.clock))
      :: credit ++ [.update (.report { r with status := .queued })] ∧
    Reserves generationId credit S.db ∧
    generation? S.db generationId = none ∧
    generationByKey userId reportId idempotencyKey S.db = none ∧
    report? S.db reportId = some r ∧ r.userId = userId ∧
    (r.status = .draft ∨ r.status = .failed) ∧
    (∀ x ∈ generations S.db, x.status.active = true → x.reportId ≠ reportId) ∧
    S.ids t = [generationId] ∧ marks S t = [] ∧
    (∀ lockedUntil, r.reportGenerationLockedUntil = some lockedUntil →
      lockedUntil ≤ S.clock) ∧
    (∀ x ∈ assetsOf reportId S.db, x.status = .ready) ∧
    createdSince (fun x => x.userId = userId)
      (S.clock - cfg.generationStartRateWindowSeconds * 1000) S.db
      < cfg.generationStartRateLimit ∧
    createdSince (fun x => x.userId = userId) (S.clock - 86400000) S.db
      < cfg.generationDailySafetyLimit ∧
    createdSince (fun _ => true) (S.clock - 86400000) S.db
      < cfg.aiGlobalDailyGenerationLimit

/-- The commit of `compensateQueueFailure`: what it read first, and
everything that happened since while it was open. -/
def Compensates (t : Tid) (generationId : Id) (ws : List (Write Row Key))
    (S : RState) : Prop :=
  ws = [] ∨ ∃ (newer older : List REntry) (read : REntry)
      (x y : ReportGeneration) (credit follow removal : List (Write Row Key)),
    S.trace = newer ++ read :: older ∧ read.tid = t ∧
    read.event = .statement (.compensateQueueFailure generationId) ∧
    (∀ e ∈ newer, e.before.OpenAt t (.compensateQueueFailure generationId) 1) ∧
    generation? read.before.db generationId = some x ∧ x.status = .queued ∧
    ws = credit ++ follow ++ removal ∧ Releases generationId credit S ∧
    ((∃ r, report? S.db x.reportId = some r ∧ r.status = .queued ∧
        follow = [.update (.report { r with status := x.priorReportStatus })]) ∨
      (follow = [] ∧ ∃ e ∈ newer, ∀ r,
        report? e.before.db x.reportId = some r → r.status ≠ .queued)) ∧
    generation? S.db generationId = some y ∧
    Removes (fun g => g = generationId) (fun _ => False)
      (applyAll (credit ++ follow) S.db) removal

/-- The commit of `cancel`. -/
def Cancels (generationId : Id) (ws : List (Write Row Key)) (S : RState) : Prop :=
  ∃ x r now prior credit, generation? S.db generationId = some x ∧
    x.status = .queued ∧ report? S.db x.reportId = some r ∧
    Once S (fun d => ∃ y, generation? d generationId = some y ∧
      y.priorReportStatus = prior) ∧
    ws = .update (.generation { x with status := .cancelled, cancelledAt := some now })
      :: .update (.report { r with status := prior }) :: credit ∧
    Releases generationId credit S

/-- The commit of `claim`. -/
def Claims (generationId processingToken : Id) (ws : List (Write Row Key))
    (S : RState) : Prop :=
  ws = [] ∨ ∃ x now leaseExpiresAt follow,
    generation? S.db generationId = some x ∧ x.claimable now = true ∧
    ws = .update (.generation (x.claimed now leaseExpiresAt processingToken))
      :: follow ∧
    Follows x (fun r => r.status = .queued || r.status = .processing) .processing
      follow S

/-- The commit of `prepareRetry`. -/
def Requeues (generationId processingToken : Id) (ws : List (Write Row Key))
    (S : RState) : Prop :=
  ws = [] ∨ ∃ x errorCode follow,
    generation? S.db generationId = some x ∧ x.ownedBy processingToken = true ∧
    ws = .update (.generation (x.requeued errorCode)) :: follow ∧
    Follows x (fun r => r.status = .processing) .queued follow S

/-- The thread claimed the generation at an earlier time. -/
def ClaimedBefore (S : RState) (t : Tid) (generationId processingToken : Id)
    (now : Time) : Prop :=
  ∃ e ∈ S.trace, e.tid = t ∧
    (∃ ws, e.event = .commit (.claim generationId processingToken) ws ∧ ws ≠ []) ∧
    e.before.clock ≤ now

/-- The commit of `failGeneration`. -/
def Fails (cfg : Config) (t : Tid) (generationId processingToken : Id)
    (ws : List (Write Row Key)) (S : RState) : Prop :=
  ws = [] ∨ ∃ x r errorCode message now read hasOutput credit,
    generation? S.db generationId = some x ∧ x.ownedBy processingToken = true ∧
    report? S.db x.reportId = some r ∧
    Since S (fun d => generation? d generationId = some x)
      (fun d => reportWithOutput x.reportId d = some (read, hasOutput)) ∧
    ClaimedBefore S t generationId processingToken now ∧ now ≤ S.clock ∧
    ws = .update (.generation (x.ended errorCode message now))
      :: .update (.report (r.failedAt cfg now hasOutput read)) :: credit ∧
    Releases generationId credit S

/-- The commit of `finalizeSuccess`. The report is the one the run loaded
with the generation. -/
def Finalizes (generationId processingToken : Id) (ws : List (Write Row Key))
    (S : RState) : Prop :=
  ∃ x r o now credit, generation? S.db generationId = some x ∧
    x.ownedBy processingToken = true ∧ report? S.db r.id = some r ∧
    o.generationId = generationId ∧ o.reportId = r.id ∧
    (∃ u, o.storageKey = .output u r.id generationId processingToken) ∧
    output? S.db generationId = none ∧
    (∀ o' ∈ outputs S.db, o'.reportId ≠ r.id) ∧
    Once S (fun d => ∃ y, generation? d generationId = some y ∧ y.reportId = r.id) ∧
    ws = .insert (.output o) :: .update (.generation (x.completed now))
      :: .update (.report r.published) :: credit ∧
    Consumes generationId credit S

-- ===================================================== files and cleanup

/-- A write of the cleanup task of a key. -/
def TaskWrite (k : StorageKey) (w : Write Row Key) : Prop :=
  ∃ r : StorageCleanupTask, r.storageKey = k ∧
    (w = .insert (.cleanupTask r) ∨ w = .update (.cleanupTask r))

/-- Some commit wrote a cleanup task of the key. -/
def Tasked (S : RState) (k : StorageKey) : Prop :=
  ∃ e ∈ S.trace, ∃ s ws, e.event = .commit s ws ∧ ∃ w ∈ ws, TaskWrite k w

/-- The entry gives the upload of the asset up. -/
def GivesUp (e : REntry) (assetId : Id) : Prop :=
  e.event = .enter (.rejectUpload assetId) ∨ e.event = .enter (.expireUpload assetId)

/-- The writes remove the asset, with what is attached to it. -/
def Discards (assetId : Id) (ws : List (Write Row Key)) : Prop :=
  .erase (.asset assetId) ∈ ws ∧
    ∀ w ∈ ws, w = .erase (.asset assetId) ∨ w = .erase (.transcription assetId) ∨
      ∃ a : AttemptKey, a.assetId = some assetId ∧ w = .erase (.attempt a)

/-- The asset was read, and later it was not in its report. -/
def Missed (S : RState) (x : ReportAsset) : Prop :=
  ∃ newer e older, S.trace = newer ++ e :: older ∧
    (∀ y, asset? e.before.db x.id = some y → y.reportId ≠ x.reportId) ∧
    ∃ e' ∈ older, asset? e'.before.db x.id = some x

/-- The thread found the report editable. -/
def Checked (S : RState) (t : Tid) (reportId : Id) : Prop :=
  ∃ e ∈ S.trace, e.tid = t ∧ e.event = .statement (.findReport reportId) ∧
    ∃ r, report? e.before.db reportId = some r ∧ (r.status = .draft ∨ r.status = .failed)

/-- The assets of a report that take up a slot at a moment. -/
def activeAssets (cfg : Config) (reportId : Id) (now : Time) (d : Db Row) :
    List ReportAsset :=
  (assets d).filter fun a => a.reportId = reportId && (a.status = .ready
    || (a.status = .pendingUpload && cfg.pendingCutoff now ≤ a.createdAt))

/-- The bytes a list of assets reserves. -/
def reservedBytes (l : List ReportAsset) : Nat :=
  (l.map fun a => a.verifiedSize.getD a.declaredSize).sum

/-- The commit of `createPendingAsset`, for the time `now` of its cutoff. -/
def Reserving (cfg : Config) (t : Tid) (assetId : Id) (ws : List (Write Row Key))
    (S : RState) : Prop :=
  ∃ x r u n now, ws = [.insert (.asset x)] ∧ x.id = assetId ∧
    x.status = .pendingUpload ∧ x.verifiedSize = none ∧ S.clock ≤ now ∧ now ≤ x.createdAt ∧
    x.storageKey = .asset u x.reportId assetId n ∧
    asset? S.db assetId = none ∧ S.ids t = [n, assetId] ∧ marks S t = [] ∧
    report? S.db x.reportId = some r ∧ (r.status = .draft ∨ r.status = .failed) ∧
    ((activeAssets cfg x.reportId now S.db).filter fun a => a.type = x.type).length
      < cfg.maximumCount x.type ∧
    reservedBytes (activeAssets cfg x.reportId now S.db) + x.declaredSize
      ≤ cfg.reportMaxTotalAssetBytes ∧
    ∀ y ∈ activeAssets cfg x.reportId now S.db, y.position < x.position

/-- The commit of `deleteReport`. -/
def Deletes (reportId : Id) (ws : List (Write Row Key)) (S : RState) : Prop :=
  ∃ r side removal, report? S.db reportId = some r ∧ r.status ≠ .queued ∧
    r.status ≠ .processing ∧
    (∀ w ∈ side, ∃ k ∈ storageKeysOf reportId S.db, TaskWrite k w) ∧
    (∀ k ∈ storageKeysOf reportId S.db, ∃ w ∈ side, TaskWrite k w) ∧
    ws = side ++ removal ∧ Write.erase (.report reportId) ∈ removal ∧
    (∀ o ∈ outputs S.db, o.reportId = reportId →
      .erase (.output o.generationId) ∈ removal) ∧
    (∀ x ∈ assets S.db, x.reportId = reportId → .erase (.asset x.id) ∈ removal) ∧
    Removes (fun g => ∃ x, generation? S.db g = some x ∧ x.reportId = reportId)
      (fun i => i = reportId) S.db removal

/-- The commit of `createDuplicate`: the report, and a row for each copy of a
READY asset that the thread found with its source. -/
def Duplicates (t : Tid) (reportId : Id) (ws : List (Write Row Key)) (S : RState) : Prop :=
  ∃ userId source title notes createdAt, ∃ copies : List AssetCopy,
    ws = .insert (.report (newReport reportId userId title notes createdAt)) ::
      copies.map (fun c => .insert (.asset (c.row reportId createdAt))) ∧
    report? S.db reportId = none ∧ reportId ∈ S.ids t ∧ marks S t = [] ∧
    (copies.map (·.id)).Nodup ∧
    (∀ c ∈ copies, asset? S.db c.id = none ∧ c.id ∈ S.ids t ∧
      ∃ n, c.storageKey = .asset userId reportId c.id n) ∧
    (t, Req.duplicateReport userId source) ∈ S.live ∧
    Once S fun d => copies.map (·.source) = sourceAssets source d

/-- The entry is a step of a confirmation of the asset. -/
def Confirming (e : REntry) (t : Tid) (assetId : Id) : Prop :=
  e.tid = t ∧ ∃ u r, (t, Req.confirmUpload u r assetId) ∈ e.before.live

/-- What a confirmation found out about the upload of the asset row `y`
before it changes the status: the size and the leading bytes of the
object, each when it called for them. -/
structure Inspected (cfg : Config) (S : RState) (t : Tid) (y : ReportAsset)
    (inspection : AssetInspection) (size : Nat) : Prop where
  read : Once S fun d => asset? d y.id = some y
  head : ∃ e ∈ S.trace, Confirming e t y.id ∧
    (∃ c, e.event = .call (.headObject y.storageKey) c) ∧
    (e.before.env.object? y.storageKey).map List.length = some size
  bytes : ∃ e ∈ S.trace, Confirming e t y.id ∧
    (∃ c, e.event = .call (.getObject y.storageKey (some inspectionRangeBytes)) c) ∧ ∃ bytes,
    e.before.env.object? y.storageKey = some bytes ∧
    inspectAssetBytes (bytes.take inspectionRangeBytes) size = some inspection
  size_ok : sizeRejection cfg y size = none
  accepted : inspectionRejection cfg y (some inspection) = .ok inspection

-- ====================================================== provider attempts

/-- A stale attempt, closed. -/
def GenerationProviderAttempt.stale (now : Time) (x : GenerationProviderAttempt) :
    GenerationProviderAttempt :=
  { x with
    status := .failed
    errorCode := some "AI_PROVIDER_ATTEMPT_STALE"
    completedAt := some now }

/-- The scope of an attempt: an asset of the generation's snapshot for a
transcription, the generation itself for anything else. -/
def Scoped (S : RState) (generationId : Id) (operation : GenerationProviderOperation)
    (assetId : Option Id) : Prop :=
  match assetId with
  | none => operation ≠ .transcription
  | some i => operation = .transcription ∧ Once S fun d => ∃ x snapshot,
      generation? d generationId = some x ∧ x.inputSnapshot = some snapshot ∧
      ∃ a ∈ snapshot.assets, a.id = i

/-- The commit of `ProviderAttemptsService.start`. -/
def Attempts (cfg : Config) (generationId processingToken : Id)
    (operation : GenerationProviderOperation) (assetId : Option Id)
    (ws : List (Write Row Key)) (S : RState) : Prop :=
  ∃ y : GenerationProviderAttempt,
    let scope := scopeAttempts generationId operation assetId S.db
    let open_ := scope.filter fun x => x.status = .started
    ws = open_.map (fun x => .update (.attempt (x.stale S.clock)))
      ++ [.insert (.attempt y)] ∧
    (∀ x ∈ open_, x.leaseExpiresAt ≤ S.clock) ∧
    scope.length < maximumAttempts cfg operation ∧
    y.id = { generationId, operation, assetId, attemptNumber := scope.length + 1 } ∧
    y.status = .started ∧ y.processingToken = processingToken ∧
    attempt? S.db y.id = none ∧ (generation? S.db generationId).isSome = true ∧
    (∀ i, assetId = some i → (asset? S.db i).isSome = true) ∧
    Scoped S generationId operation assetId

-- ======================================================= transcriptions

/-- The thread committed nothing counted in a stretch of the trace. -/
def Uncounted (t : Tid) (entries : List REntry) : Prop :=
  ∀ e ∈ entries, e.tid = t → ∀ s ws, e.event = .commit s ws → s.marked = false

/-- Since its claim the run found the transcription unfinished, and has
completed none from there on. -/
def FoundUnfinished (S : RState) (t : Tid) (generationId processingToken assetId : Id) :
    Prop :=
  ∃ newer e older, S.trace = newer ++ e :: older ∧ e.tid = t ∧
    e.event = .statement (.findTranscription assetId) ∧
    finishedText (transcription? e.before.db assetId) = none ∧ Uncounted t newer ∧
    ∃ e' ∈ older, e'.tid = t ∧
      ∃ ws, e'.event = .commit (.claim generationId processingToken) ws ∧ ws ≠ []

/-- The thread began the transcription, and has completed none since. -/
def Begun (S : RState) (t : Tid) (assetId : Id) : Prop :=
  ∃ newer e older, S.trace = newer ++ e :: older ∧ e.tid = t ∧
    (∃ ws, e.event = .commit (.beginTranscription assetId) ws) ∧ Uncounted t newer

-- ========================================================= source texts

/-- The thread read the text of a finished transcription, or stored it. -/
def Heard (S : RState) (t : Tid) (assetId : Id) (text : String) : Prop :=
  ∃ e ∈ S.trace, e.tid = t ∧
    ((e.event = .statement (.findTranscription assetId) ∧
        finishedText (transcription? e.before.db assetId) = some text) ∨
      ∃ g tok ws y, e.event = .commit (.completeTranscription g tok assetId) ws ∧
        .update (.transcription y) ∈ ws ∧ y.assetId = assetId ∧
        y.status = .completed ∧ y.text = some text)

/-- The thread loaded the snapshot of the generation and has a transcript
of every audio asset in it. -/
def Sourced (S : RState) (t : Tid) (generationId : Id)
    (snapshot : GenerationInputSnapshot) (transcripts : List (Id × String)) : Prop :=
  Once S (fun d => ∃ x, generation? d generationId = some x ∧
    x.inputSnapshot = some snapshot) ∧
  transcripts.map (·.1)
    = (snapshot.assets.filter fun a => a.type = .audio).map (·.id) ∧
  ∀ p ∈ transcripts, Heard S t p.1 p.2

/-- The objects of the images of a snapshot, with their assets. -/
def imageKeys (snapshot : GenerationInputSnapshot) : List (Id × StorageKey) :=
  (snapshot.assets.filter fun a => a.type = .image).map fun a => (a.id, a.storageKey)

/-- A moderation request of the thread contained the item and was not
flagged. -/
def Passed (entries : List REntry) (t : Tid) (m : ModerationInput) : Prop :=
  ∃ e ∈ entries, e.tid = t ∧ ∃ input providerRequestId,
    e.event = .call (.moderateInput input) (.moderated false providerRequestId) ∧
    m ∈ input

/-- Since the thread started the moderation attempt, the items passed. -/
def Screened (S : RState) (t : Tid) (id : AttemptKey) (items : List ModerationInput) :
    Prop :=
  ∃ newer e older tok ws y, S.trace = newer ++ e :: older ∧ e.tid = t ∧
    e.event = .commit (.startAttempt id.generationId tok .moderation none) ws ∧
    .insert (.attempt y) ∈ ws ∧ y.id = id ∧ id.operation = .moderation ∧
    id.assetId = none ∧ ∀ m ∈ items, Passed newer t m

/-- The items of a moderation: the source text and every image. -/
def moderationItems (snapshot : GenerationInputSnapshot)
    (transcripts : List (Id × String)) : List ModerationInput :=
  .text (buildSourceText snapshot transcripts)
    :: (imageKeys snapshot).map fun image => .imageUrl image.2

/-- The thread found a completed moderation attempt of the generation, or
completed one. -/
def Moderated (S : RState) (t : Tid) (generationId : Id) : Prop :=
  ∃ e ∈ S.trace, e.tid = t ∧
    ((e.event = .statement (.hasCompleted generationId) ∧
        ∃ a ∈ attempts e.before.db, a.id.generationId = generationId ∧
          a.id.operation = .moderation ∧ a.status = .completed) ∨
      ∃ tok ws, e.event = .commit (.completeOwned generationId tok) ws)

/-- The queue took the job of the generation for the thread, and said so. -/
def Acknowledged (S : RState) (t : Tid) (generationId : Id) : Prop :=
  ∃ e ∈ S.trace, e.tid = t ∧ e.event = .call (.enqueue generationId) .done

-- ============================================================= the sites

/-- What a commit at a site does. -/
def Effect (cfg : Config) (t : Tid) (s : Site) (ws : List (Write Row Key))
    (S : RState) : Prop :=
  match s with
  | .start userId reportId idempotencyKey generationId =>
      Starts cfg t userId reportId idempotencyKey generationId ws S
  | .markEnqueued generationId =>
      ws = [] ∨ ∃ x now, generation? S.db generationId = some x ∧
        x.status = .queued ∧
        ws = [.update (.generation { x with enqueuedAt := some now })] ∧
        Acknowledged S t generationId
  | .compensateQueueFailure generationId => Compensates t generationId ws S
  | .cancel generationId => Cancels generationId ws S
  | .claim generationId processingToken =>
      Claims generationId processingToken ws S ∧
        ∃ a m, S.asked t = [.process generationId a m]
  | .updateProgress generationId processingToken
  | .persistReportResult generationId processingToken
  | .renewLease generationId processingToken =>
      Fenced generationId processingToken ws S
  | .prepareRetry generationId processingToken =>
      Requeues generationId processingToken ws S
  | .failGeneration generationId processingToken =>
      Fails cfg t generationId processingToken ws S
  | .finalizeSuccess generationId processingToken =>
      Finalizes generationId processingToken ws S
  | .startAttempt generationId processingToken operation assetId =>
      Attempts cfg generationId processingToken operation assetId ws S
  | .completeOwned generationId _ =>
      ∃ id snapshot transcripts, id.generationId = generationId ∧
        Closes id .completed ws S ∧ Sourced S t generationId snapshot transcripts ∧
        Screened S t id (moderationItems snapshot transcripts)
  | .failAttempt id => ws = [] ∨ Closes id .failed ws S
  | .beginTranscription assetId =>
      (Transcribes assetId .processing ws S ∨ ∃ y, transcription? S.db assetId = none ∧
        y.assetId = assetId ∧ y.status = .processing ∧
        ws = [.insert (.transcription y)]) ∧
      ∃ g tok a m, S.asked t = [.process g a m] ∧ FoundUnfinished S t g tok assetId ∧
        Scoped S g .transcription (some assetId)
  | .completeTranscription generationId _ assetId =>
      Scoped S generationId .transcription (some assetId) ∧ ∃ id x y side,
        id.operation = .transcription ∧ Closes id .completed side S ∧
        transcription? S.db assetId = some x ∧ y.assetId = assetId ∧
        y.status = .completed ∧ ws = side ++ [.update (.transcription y)] ∧
        ∃ e ∈ S.trace, e.tid = t ∧ ∃ k fileName mimeType language r,
          e.event = .call (.transcribe k fileName mimeType language) (.transcribed r) ∧
          y.text = some r.value.text
  | .failTranscription assetId =>
      Transcribes assetId .failed ws S ∧ Begun S t assetId
  | .allocateMonthly userId subscriptionPeriodKey =>
      Grants (.subscriptionPeriod userId subscriptionPeriodKey)
        (fun g => g.userId = userId ∧
          g.subscriptionPeriodKey = some subscriptionPeriodKey) ws S
  | .grantGenerationCredits requestKey =>
      Grants (.adminCreditGrant requestKey)
        (fun g => g.subscriptionPeriodKey = none ∧ grant? S.db g.id = none) ws S
  | .createReport reportId =>
      ∃ userId title notes createdAt,
        ws = [.insert (.report (newReport reportId userId title notes createdAt))] ∧
        report? S.db reportId = none ∧ S.ids t = [reportId] ∧ marks S t = []
  | .updateReport reportId =>
      ws = [] ∨ ∃ r title notes, report? S.db reportId = some r ∧
        (r.status = .draft ∨ r.status = .failed) ∧
        ws = [.update (.report (r.patched title notes))]
  | .duplicateReport reportId => Duplicates t reportId ws S
  | .rollbackDuplicateCopies reportId => marks S t = [] ∧
      ∀ w ∈ ws, ∃ u a n, a ∈ S.ids t ∧ TaskWrite (.asset u reportId a n) w
  | .deleteReport reportId => Deletes reportId ws S
  | .enqueueCleanup k =>
      ∃ w x, ws = [w] ∧ TaskWrite k w ∧ Once S (fun d => asset? d x.id = some x) ∧
        x.storageKey = k ∧ ∃ e ∈ S.trace, GivesUp e x.id
  | .scheduleOrphanCleanup k =>
      ∃ w u r g tok, ws = [w] ∧ TaskWrite k w ∧ k = .output u r g tok ∧
        S.ids t = [tok] ∧ ∀ s ∈ marks S t, s.settles = false
  | .finishCleanup k =>
      (∀ w ∈ ws, w = .erase (.cleanupTask k)) ∧
        ∃ e ∈ S.trace, e.tid = t ∧ e.event = .call (.deleteObject k) .done
  | .deferCleanup k => Tasked S k ∧ ∀ w ∈ ws, TaskWrite k w
  | .createPendingAsset assetId => Reserving cfg t assetId ws S
  | .dropPendingAsset assetId => ws = [] ∨ (Discards assetId ws ∧
      ∃ x, asset? S.db assetId = some x ∧ x.status = .pendingUpload)
  | .markReady assetId =>
      ws = [] ∨ ∃ x y inspection size, asset? S.db assetId = some x ∧
        x.status = .pendingUpload ∧ y.id = assetId ∧
        (∃ u r, (t, Req.confirmUpload u r assetId) ∈ S.live) ∧
        Inspected cfg S t y inspection size ∧
        ws = [.update (.asset (x.verified inspection size))]
  | .markRejected assetId | .markExpired assetId =>
      ws = [] ∨ ∃ x reason, asset? S.db assetId = some x ∧
        x.status = .pendingUpload ∧ ws = [.update (.asset (x.rejected reason))]
  | .deleteAsset assetId =>
      ∃ x w removal, Once S (fun d => asset? d assetId = some x) ∧
        TaskWrite x.storageKey w ∧ ws = w :: removal ∧ Checked S t x.reportId ∧
        (∃ u, (t, Req.deleteAsset u x.reportId assetId) ∈ S.live) ∧
        ((removal = [] ∧ Missed S x) ∨
          ∃ y, asset? S.db assetId = some y ∧ y.reportId = x.reportId ∧
            Discards assetId removal)
  | _ => ws = []

-- ================================================================== runs

/-- The thread runs the generation under the token. -/
structure Serves (S : RState) (t : Tid) (generationId processingToken : Id) :
    Prop where
  asked : ∃ a m, S.asked t = [.process generationId a m] ∧
    (t, Req.process generationId a m) ∈ S.live
  ids : S.ids t = [processingToken]

/-- The run claimed the generation and has not settled it. -/
structure Working (S : RState) (t : Tid) (generationId processingToken : Id) :
    Prop extends Serves S t generationId processingToken where
  unsettled : ∀ s ∈ marks S t, s.settles = false
  claimed : ∃ now, ClaimedBefore S t generationId processingToken now

/-- A thread commits for a request in progress. A run commits at its own
sites, works only on what it has claimed, and publishes only what it has
not given up; its timer renews the lease. -/
structure RunSite (S : RState) (t : Tid) (s : Site) : Prop where
  live : ∃ q, (t, q) ∈ S.live
  own : ∀ g a m, S.asked t = [.process g a m] →
    ∃ tok, S.ids t = [tok] ∧ s.ofRun g tok = true
  beats : ∀ g tok deadline, S.asked t = [.heartbeat g tok deadline] → s = .renewLease g tok
  working : s.working = true → ∃ g tok, s.ofRun g tok = true ∧ Working S t g tok
  publishes : ∀ g tok, s = .finalizeSuccess g tok → ∀ s ∈ marks S t, s.schedules = false

/-- A paid call has an attempt of its own, and a run uploads one object
under a key of its own. What is given up was read before. -/
def Enters (t : Tid) (s : Site) (S : RState) : Prop :=
  match s with
  | .provider g operation assetId => ∃ tok, Working S t g tok ∧
      (metered S t).count (.provider g operation assetId)
        < (S.committedBy t).count (.startAttempt g tok operation assetId)
  | .uploadObject k => ∃ u r g tok, k = .output u r g tok ∧ Working S t g tok ∧
      ∀ k', .uploadObject k' ∉ metered S t
  | .rejectUpload a | .expireUpload a => Once S fun d => (asset? d a).isSome = true
  | _ => True

-- =================================================== calls and endings

/-- The schema made the result of something. -/
def Parsed (result : ReportResult) : Prop := ∃ raw, parseReportResult raw = some result

/-- The images are those of the snapshot's assets that the result refers to,
and it refers to no other. -/
def References (result : ReportResult) (images : List (Id × Bytes)) : Prop :=
  ∃ assets : List GenerationSnapshotAsset, validateImageReferences result assets = pure () ∧
    images.map (·.1) = (assets.filter fun image =>
      image.id ∈ result.sections.flatMap (·.imageAssetIds)).map (·.id)

/-- An object is deleted only on behalf of a cleanup task and stored only
under an output key, a job is enqueued only for a generation, a report is
requested only after moderation, and what is rendered was parsed, with the
images it refers to. -/
def CallOk (t : Tid) (x : Call) (S : RState) : Prop :=
  match x with
  | .deleteObject k => Tasked S k
  | .putObject k _ => ∃ u r g tok, k = .output u r g tok
  | .enqueue g => Existed S g
  | .generateReport r => ∃ g tok snapshot transcripts, Working S t g tok ∧
      Sourced S t g snapshot transcripts ∧ Moderated S t g ∧
      r.sourceText = buildSourceText snapshot transcripts ∧
      r.images.map (fun i => (i.assetId, i.url)) = imageKeys snapshot
  | .renderPdf result images _ _ _ _ => Parsed result ∧ References result images
  | _ => True

/-- Why a run returned `completed`: it ended the generation itself, or
found it not PROCESSING. -/
def Completed (t : Tid) (generationId a m : Id) (S : RState) : Prop :=
  ∃ e ∈ S.trace, e.tid = t ∧ (t, Req.process generationId a m) ∈ e.before.live ∧
    ((∃ tok ws, e.event = .commit (.finalizeSuccess generationId tok) ws) ∨
      (∃ tok ws, e.event = .commit (.failGeneration generationId tok) ws ∧ ws ≠ []) ∨
      (e.event = .statement (.resultAfterClaimLoss generationId) ∧
        ∀ x, generation? e.before.db generationId = some x →
          x.status ≠ .processing))

/-- The transactions of a run that its caller sees failing: the claim and
those of the catch block. -/
def Site.surfaces (generationId : Id) : Site → Bool
  | .claim g _ | .failGeneration g _ | .resultAfterClaimLoss g => g = generationId
  | .scheduleOrphanCleanup _ => true
  | _ => false

/-- Why a run threw on its last attempt: one of these transactions rolled
back. -/
def Surfaced (t : Tid) (generationId : Id) (S : RState) : Prop :=
  ∃ e ∈ S.trace, e.tid = t ∧ ∃ s err, e.event = .rollback s err ∧
    s.surfaces generationId = true

/-- What a start or retry has of a generation: it read the row under its key,
or created it, and created no other. -/
def Holds (t : Tid) (userId reportId : Id) (idempotencyKey : String)
    (generationId : Id) (S : RState) : Prop :=
  (∃ e ∈ S.trace, e.tid = t ∧
    ((∃ x, generation? e.before.db generationId = some x ∧ x.userId = userId ∧
        x.reportId = reportId ∧ x.idempotencyKey = idempotencyKey ∧
        (e.event = .statement (.findExisting userId reportId idempotencyKey) ∨
          ∃ g ws, e.event = .commit (.start userId reportId idempotencyKey g) ws)) ∨
      ∃ ws, e.event = .commit (.start userId reportId idempotencyKey generationId) ws
        ∧ ws ≠ [])) ∧
  (marks S t = [] ∨ marks S t = [.start userId reportId idempotencyKey generationId] ∨
    ∃ g, marks S t = [.start userId reportId idempotencyKey g] ∧
      ∃ e ∈ S.trace, e.tid = t ∧
        e.event = .commit (.start userId reportId idempotencyKey g) [])

/-- Why it answered with the generation: the queue took the job for it, or the
row it read needed none. -/
def Answers (t : Tid) (userId reportId : Id) (idempotencyKey : String)
    (generationId : Id) (S : RState) : Prop :=
  Holds t userId reportId idempotencyKey generationId S ∧
    (Acknowledged S t generationId ∨ ∃ e ∈ S.trace, e.tid = t ∧
      ∃ x, generation? e.before.db generationId = some x ∧
        (x.status ≠ .queued ∨ x.enqueuedAt.isSome = true))

/-- What a run leaves of an object it uploaded: the run published it, or
scheduled its cleanup. -/
def Uploaded (t : Tid) (k : StorageKey) (S : RState) : Prop :=
  (∃ e ∈ S.trace, e.tid = t ∧ ∃ g tok ws o, e.event = .commit (.finalizeSuccess g tok) ws ∧
    .insert (.output o) ∈ ws ∧ o.storageKey = k) ∨
  Tasked S k

/-- The error with which the scheduling of a cleanup failed. -/
def Unscheduled (t : Tid) (k : StorageKey) (err : Error) (S : RState) : Prop :=
  ∃ e ∈ S.trace, e.tid = t ∧ e.event = .rollback (.scheduleOrphanCleanup k) err

/-- What is true of the history of a thread when it finishes. -/
def Finishes (t : Tid) (r : Except Error Res) (S : RState) : Prop :=
  (match S.asked t, r with
  | [.process generationId a m], .ok (.process .completed) =>
      Completed t generationId a m S
  | [.process generationId a m], .error _ => a < m ∨ Surfaced t generationId S
  | [.createGeneration userId reportId idempotencyKey], .ok (.generation x)
  | [.retryGeneration userId reportId _ idempotencyKey], .ok (.generation x) =>
      Answers t userId reportId idempotencyKey x.id S
  | _, _ => True) ∧
  ((∃ g a m, S.asked t = [.process g a m]) → ∀ k, .uploadObject k ∈ metered S t →
    Uploaded t k S ∨ ∃ err, r = .error err ∧ Unscheduled t k err S)

/-- A state in which the report side has done nothing. -/
structure Begins (S : RState) : Prop where
  unused : Unused S.db
  env : S.env = ⟨[], [], []⟩
  locks : S.locks = []
  opens : S.opens = []
  live : S.live = []
  trace : S.trace = []

/-- The contract of the report side, for a run from a given state. -/
def contract (cfg : Config) (start : RState) : RContract where
  start
  arrives := fun q s => ready q s = true
  commits := fun t s ws S => Effect cfg t s ws S ∧ RunSite S t s
  enters := Enters
  calls := fun t x _ S => CallOk t x S
  finishes := Finishes

end FastRep.Reports
