/-
`ReportsService`: creating, listing, updating, duplicating and deleting a
report.

Deletion schedules the cleanup of every stored object in its
transaction and attempts it afterwards; a duplication that fails schedules
the cleanup of the copies it knows of.

# Duplication

`duplicate` reads the report, its READY assets and the user's language, copies
the objects one by one, each under a new key, and then creates the report
with all its asset rows in one statement. The key of a copy is recorded
after the copy was made, so a copy whose answer is lost is not among those
that a failure cleans up. `rollbackDuplicateCopies` first writes the tasks and
then attempts them.

# Lists

A page of a list comes from a query of its own, ordered by `createdAt` alone
(`Arrangement`).
-/
import FastRep.Reports.Generations
import FastRep.Reports.Storage

namespace FastRep.Reports

open FastRep.Txn

/-- Run a SERIALIZABLE transaction again on a write conflict, with the
attempts that are left; the last conflict throws the given error. -/
def retryOnConflict {α : Type} (s : Site) (body : InTransaction α)
    (conflicted : Error) : Nat → Async α
  | 0 => .throw conflicted
  | left + 1 => (serializable s body).catch fun
      | .db .writeConflict =>
          if 0 < left then retryOnConflict s body conflicted left
          else .throw conflicted
      | e => .throw e

/-- `assertReportEditable`, `none` where it passes. -/
def reportNotEditable (status : ReportStatus) : Option Error :=
  if status = .draft ∨ status = .failed then none
  else if status = .queued ∨ status = .processing then
    some (conflict "REPORT_GENERATION_ACTIVE"
      "The report cannot be changed while generation is active")
  else
    some (conflict "REPORT_NOT_EDITABLE"
      "The report cannot be changed in its current state")

def reportNotFound : Error := notFound "Not Found" "Report not found"

/-- The report of a user. -/
def ownedReport (userId reportId : Id) (d : Db Row) : Option Report :=
  (report? d reportId).filter fun r => r.userId = userId

def newReport (id userId : Id) (title : String) (notes : Option String)
    (createdAt : Time) : Report where
  id
  userId
  title
  notes
  status := .draft
  reportGenerationLockedUntil := none
  reportFailureWindowStartedAt := none
  reportConsecutiveFailureCount := 0
  createdAt

def createReport (userId : Id) (title : String) (notes : Option String) :
    Async Report := do
  let id ← randomUUID
  let createdAt ← Prog.clock
  transaction (.createReport id) do
    insertRow (.report (newReport id userId title notes createdAt))
    pure (newReport id userId title notes createdAt)

/-- How a query arranges rows that it orders by `createdAt`, the newest first.
Rows of equal `createdAt` stand as the database chose this time. -/
structure Arrangement where
  arrange : List Report → List Report
  perm : ∀ l, (arrange l).Perm l
  sorted : ∀ l, (arrange l).Pairwise fun x y => y.createdAt ≤ x.createdAt

/-- The reports of a user. -/
def userReports (userId : Id) (d : Db Row) : List Report :=
  (reports d).filter fun r => r.userId = userId

structure PaginatedReports where
  data : List Report
  page : Nat
  limit : Nat
  total : Nat
  totalPages : Nat
  deriving DecidableEq, Repr

/-- `findMany` with `skip` and `take`, and `count`. -/
def reportsPage (o : Arrangement) (userId : Id) (page limit : Nat) :
    InTransaction (List Report × Nat) := do
  let data ← select fun d =>
    ((o.arrange (userReports userId d)).drop ((page - 1) * limit)).take limit
  let total ← select fun d => (userReports userId d).length
  pure (data, total)

def findAll (o : Arrangement) (userId : Id) (page limit : Nat) : Async PaginatedReports := do
  let (data, total) ← transaction (.findReports userId) (reportsPage o userId page limit)
  -- `Math.ceil(total / limit)`
  pure { data, page, limit, total, totalPages := (total + limit - 1) / limit }

/-- `UpdateReportDto`: the fields that are sent. -/
def Report.patched (title : Option String) (notes : Option (Option String))
    (r : Report) : Report :=
  { r with title := title.getD r.title, notes := notes.getD r.notes }

def updateReport (userId id : Id) (title : Option String)
    (notes : Option (Option String)) : Async Report := do
  let count ← transaction (.updateReport id) (updateRow (.report id)
    (onReport fun r => r.userId = userId && (r.status = .draft || r.status = .failed))
    (setReport (·.patched title notes)))
  if count = 0 then do
    let owned ← query (.findReport id) (ownedReport userId id)
    match owned with
    | none => .throw reportNotFound
    | some owned =>
        match reportNotEditable owned.status with
        | some e => .throw e
        | none => .throw (conflict "REPORT_UPDATE_CONFLICT"
            "The report changed concurrently; retry the request")
  else do
    let report ← query (.findReport id) (ownedReport userId id)
    match report with
    | none => .throw reportNotFound
    | some report => pure report

/-- `createMany` of cleanup tasks with `skipDuplicates`. -/
def createCleanupTasks (reason : StorageCleanupReason) :
    List StorageKey → InTransaction Unit
  | [] => pure ()
  | k :: ks => do
      let createdAt ← Tx.clock
      let _ ← upsertRow (fun r => key r = Key.cleanupTask k)
        (.cleanupTask { storageKey := k, reason, attemptCount := 0
                        lastAttemptAt := none, createdAt })
        (fun r => r)
      createCleanupTasks reason ks

-- ============================================================ duplication

/-- `REPORT_TITLE_MAX_LENGTH`. -/
def reportTitleMaxLength : Nat := 120

/-- `COPY_SUFFIXES`, with the fallback to English. -/
def copySuffix : String → String
  | "de" => " — Kopie"
  | "es" => " — Copia"
  | "fr" => " — Copie"
  | "uk" => " — Копія"
  | _ => " — Copy"

/-- The title is spread into code points before it is cut. -/
def duplicateTitle (title language : String) : String :=
  let suffix := copySuffix language
  let maximumBaseLength := reportTitleMaxLength - suffix.length
  let base := trim (String.ofList ((trim title).toList.take maximumBaseLength))
  base ++ suffix

/-- The READY assets of a report, by position and age. -/
def sourceAssets (reportId : Id) (d : Db Row) : List ReportAsset :=
  ((assets d).filter fun a => a.reportId = reportId && a.status = .ready).insertionSort
    fun l r => l.position < r.position ∨ l.position = r.position ∧ l.createdAt ≤ r.createdAt

/-- What `duplicate` selects: a report of the user, the language of the user,
and its READY assets. -/
def duplicationSource (userId id : Id) (d : Db Row) :
    Option (Report × String × List ReportAsset) := do
  let source ← ownedReport userId id d
  let user ← user? d source.userId
  pure (source, user.language, sourceAssets id d)

/-- A source asset with the id and the key of its copy. -/
structure AssetCopy where
  source : ReportAsset
  id : Id
  storageKey : StorageKey

/-- The copies of a list of assets. -/
def assetCopies (userId duplicateId : Id) : List ReportAsset → Async (List AssetCopy)
  | [] => pure []
  | asset :: rest => do
      let id ← randomUUID
      let nonce ← randomUUID
      let others ← assetCopies userId duplicateId rest
      pure (⟨asset, id, .asset userId duplicateId id nonce⟩ :: others)

/-- The loop over the copies; the keys recorded so far are part of the
outcome, also of a failed one. -/
def copyAssets : List AssetCopy → Async (List StorageKey × Except Error Unit)
  | [] => pure ([], .ok ())
  | asset :: rest => do
      let metadata ← (copyObject asset.source.storageKey asset.storageKey).attempt
      match metadata with
      | .error e => pure ([], .error e)
      | .ok size =>
          if size ≠ asset.source.verifiedSize.getD asset.source.declaredSize then
            pure ([asset.storageKey], .error (.other "Copied asset verification failed"))
          else do
            let others ← copyAssets rest
            pure (asset.storageKey :: others.1, others.2)

/-- The row of a copy. -/
def AssetCopy.row (duplicateId : Id) (createdAt : Time) (c : AssetCopy) : ReportAsset where
  id := c.id
  reportId := duplicateId
  type := c.source.type
  status := .ready
  storageKey := c.storageKey
  originalFileName := c.source.originalFileName
  declaredMimeType := c.source.declaredMimeType
  verifiedMimeType := c.source.verifiedMimeType
  declaredSize := c.source.declaredSize
  verifiedSize := c.source.verifiedSize
  position := c.source.position
  width := c.source.width
  height := c.source.height
  durationSeconds := c.source.durationSeconds
  rejectionReason := none
  createdAt

/-- The nested `create` of the assets. -/
def insertAssets : List ReportAsset → InTransaction Unit
  | [] => pure ()
  | asset :: rest => do
      insertRow (.asset asset)
      insertAssets rest

/-- The `create` of the duplicate. -/
def createDuplicate (duplicateId userId : Id) (title : String) (notes : Option String)
    (copies : List AssetCopy) : InTransaction Report := do
  let createdAt ← Tx.clock
  insertRow (.report (newReport duplicateId userId title notes createdAt))
  insertAssets (copies.map (·.row duplicateId createdAt))
  pure (newReport duplicateId userId title notes createdAt)

def rollbackDuplicateCopies (duplicateId : Id) (storageKeys : List StorageKey) : Async Unit :=
  if storageKeys = [] then
    pure ()
  else
    (do
      transaction (Site.rollbackDuplicateCopies duplicateId)
        (createCleanupTasks .duplicateRollback storageKeys)
      attemptMany storageKeys).catch fun _ => pure ()

def duplicate (userId id : Id) : Async Report := do
  let source ← query (.findReport id) (duplicationSource userId id)
  match source with
  | none => .throw reportNotFound
  | some (source, language, ready) =>
      if source.status ≠ .ready then
        .throw (conflict "REPORT_NOT_DUPLICABLE" "Only a completed report can be duplicated")
      else do
        let duplicateId ← randomUUID
        let assets ← assetCopies userId duplicateId ready
        let copied ← copyAssets assets
        let created ← (do
          Prog.settle copied.2
          transaction (Site.duplicateReport duplicateId) (createDuplicate duplicateId userId
            (duplicateTitle source.title language) source.notes assets)).attempt
        match created with
        | .ok duplicate => pure duplicate
        | .error _ => do
            rollbackDuplicateCopies duplicateId copied.1
            .throw (unavailable "REPORT_DUPLICATION_FAILED"
              "The report could not be duplicated; retry the request")

-- =============================================================== deletion

/-- The objects a report keeps: its assets and its output. -/
def storageKeysOf (reportId : Id) (d : Db Row) : List StorageKey :=
  (((assets d).filter fun a => a.reportId = reportId).map (·.storageKey))
    ++ ((outputs d).filter fun o => o.reportId = reportId).map (·.storageKey)

def deleteReportTransaction (userId id : Id) : InTransaction (List StorageKey) := do
  let report ← select (ownedReport userId id)
  match report with
  | none => .throw reportNotFound
  | some report =>
      if report.status = .queued ∨ report.status = .processing then
        .throw (conflict "REPORT_GENERATION_ACTIVE"
          "A report cannot be deleted while generation is active")
      else do
        let keys ← select (storageKeysOf id)
        createCleanupTasks .reportDelete keys
        deleteOrThrow (.report report.id)
        pure keys

def deleteReport (userId id : Id) : Async Unit := do
  let storageKeys ← retryOnConflict (.deleteReport id)
    (deleteReportTransaction userId id)
    (conflict "REPORT_DELETE_CONFLICT"
      "The report could not be deleted; retry the request") 3
  let _ ← (attemptMany storageKeys).attempt
  pure ()

end FastRep.Reports
