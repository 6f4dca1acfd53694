/-
`ObjectStorageService` over the calls of the store, and
`StorageCleanupService`.

A cleanup task is a row with the key of an object. `attempt` deletes the
object and then the row; where either throws, the attempt is counted on the
row, and the row stays. `retryPending` attempts the oldest tasks.

A `Promise.all` over cleanup attempts waits for all of them and then
rejects with an error one of them threw; here they run in list order and
the first error is thrown at the end.
-/
import FastRep.Reports.Services
import Mathlib.Data.List.Sort

namespace FastRep.Reports

open FastRep.Txn

/-- `INSPECTION_RANGE_BYTES`. -/
def inspectionRangeBytes : Nat := 262144

def headObject (k : StorageKey) : Async (Option Nat) := awaitOk (.headObject k)

def readInspectionBytes (k : StorageKey) : Async Bytes :=
  awaitOk (.getObject k (some inspectionRangeBytes))

def readObjectBytes (k : StorageKey) (maximumBytes : Nat) : Async Bytes := do
  let metadata ← headObject k
  match metadata with
  | none => .throw (.other "Stored object exceeds the allowed read size")
  | some size =>
      if maximumBytes < size then
        .throw (.other "Stored object exceeds the allowed read size")
      else do
        let bytes : Bytes ← awaitOk (.getObject k none)
        if maximumBytes < bytes.length then
          .throw (.other "Stored object exceeds the allowed read size")
        else
          pure bytes

def uploadObject (k : StorageKey) (bytes : Bytes) : Async Unit :=
  .enter (.uploadObject k) do
    let _ ← awaitOk (.putObject k bytes)
    let metadata ← headObject k
    if metadata = some bytes.length then
      pure ()
    else
      .throw (.other "Uploaded object verification failed")

def copyObject (sourceStorageKey destinationStorageKey : StorageKey) : Async Nat := do
  let _ ← awaitOk (.copyObject sourceStorageKey destinationStorageKey)
  let metadata ← headObject destinationStorageKey
  match metadata with
  | none => .throw (.other "Copied object verification failed")
  | some size => pure size

def createPresignedGet (cfg : Config) (k : StorageKey) : Async PresignedGet :=
  awaitOk (.createPresignedGet k cfg.downloadUrlTtlSeconds)

-- =============================================================== cleanup

/-- The upsert of a cleanup task with a reason. -/
def upsertCleanupTask (k : StorageKey) (reason : StorageCleanupReason) :
    InTransaction Unit := do
  let createdAt ← Tx.clock
  let _ ← upsertRow (fun r => key r = Key.cleanupTask k)
    (.cleanupTask { storageKey := k, reason, attemptCount := 0
                    lastAttemptAt := none, createdAt })
    (setCleanupTask fun r => { r with reason })
  pure ()

/-- Delete the object and its task; where either fails, count the attempt
on the task. -/
def attempt (k : StorageKey) : Async Bool :=
  (do
    let _ ← awaitOk (.deleteObject k)
    let _ ← transaction (.finishCleanup k)
      (deleteRow (.cleanupTask k) fun _ => true)
    pure true).catch fun _ => do
      let now ← Prog.clock
      transaction (.deferCleanup k) (updateOrThrow (.cleanupTask k)
        (setCleanupTask fun r =>
          { r with attemptCount := r.attemptCount + 1, lastAttemptAt := some now }))
      pure false

def enqueueAndAttempt (k : StorageKey) (reason : StorageCleanupReason) :
    Async Bool := do
  transaction (.enqueueCleanup k) (upsertCleanupTask k reason)
  attempt k

/-- Attempt every key; the outcome is the first error or all results. -/
def attemptAll : List StorageKey → Async (Except Error (List Bool))
  | [] => pure (.ok [])
  | k :: ks => do
      let first ← (attempt k).attempt
      let rest ← attemptAll ks
      pure (match first, rest with
        | .ok b, .ok bs => .ok (b :: bs)
        | .error e, _ => .error e
        | .ok _, .error e => .error e)

def attemptMany (ks : List StorageKey) : Async Unit := do
  let outcome ← attemptAll ks
  let _ ← Prog.settle outcome
  pure ()

/-- The keys of the oldest tasks. -/
def pendingKeys (limit : Nat) (d : Db Row) : List StorageKey :=
  (((cleanupTasks d).insertionSort fun l r => l.createdAt ≤ r.createdAt).take
    limit).map (·.storageKey)

def retryPending : Async Nat := do
  let tasks ← query .pendingCleanup (pendingKeys 20)
  let outcome ← attemptAll tasks
  let outcomes ← Prog.settle outcome
  pure (outcomes.filter id).length

end FastRep.Reports
