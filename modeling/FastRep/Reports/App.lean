/-
The report side as an application of the transaction machine: the
requests it serves and their programs.

A worker runs a generation when the queue has its job. Deliveries are not
restricted further: a job may be delivered any number of times and to
several workers at once, with any number of attempts made. A heartbeat
tick may come at any time.

# What is no request

The reads (`findOne`, `list`, `latest`, the download URLs) are left out: they
write nothing, so no state of a run depends on them. The one endpoint that
writes a user (`PATCH me`) sets the time zone, which a start copies into its
snapshot and nothing else looks at. Everything else that writes is a request,
a duplication too. What its answers say about the copies is proved on runs of
its own, next to an outside that does anything
(`FastRep.Reports.Proofs.DuplicateReports`).
-/
import FastRep.Reports.Assets
import FastRep.Reports.Processor
import FastRep.Txn.Contract

namespace FastRep.Reports

open FastRep.Txn

/-- The requests of the clients, of the command line, and the deliveries and
heartbeat ticks of the workers. -/
inductive Req where
  | createReport (userId : Id) (title : String) (notes : Option String)
  | updateReport (userId id : Id) (title : Option String)
      (notes : Option (Option String))
  | duplicateReport (userId id : Id)
  | deleteReport (userId id : Id)
  | createGeneration (userId reportId : Id) (idempotencyKey : String)
  | retryGeneration (userId reportId generationId : Id) (idempotencyKey : String)
  | cancelGeneration (userId reportId generationId : Id)
  | process (generationId queueAttempt maximumQueueAttempts : Nat)
  | heartbeat (generationId processingToken : Id) (deadline : Time)
  | allocateMonthly (userId : Id) (subscriptionPeriodKey : String)
      (totalCredits : Int) (validFrom expiresAt : Time)
  | grantGenerationCredits (email : String) (amount : Nat) (requestKey : String)
  | requestUpload (userId reportId : Id) (type : ReportAssetType)
      (mimeType : String) (size : Nat) (fileName : String)
  | confirmUpload (userId reportId assetId : Id)
  | deleteAsset (userId reportId assetId : Id)
  deriving DecidableEq, Repr

/-- The results a caller can tell apart. -/
inductive Res where
  | done
  | generation (r : PublicGeneration)
  | process (r : GenerationProcessResult)
  | report (r : Report)
  | asset (r : ReportAsset)
  | upload (assetId : Id) (storageKey : StorageKey) (expiresAt : Time)
  deriving DecidableEq, Repr

/-- The program of a request. -/
def main (cfg : Config) : Req → Async Res
  | .createReport userId title notes => do
      let r ← createReport userId title notes
      pure (.report r)
  | .updateReport userId id title notes => do
      let r ← updateReport userId id title notes
      pure (.report r)
  | .duplicateReport userId id => do
      let r ← duplicate userId id
      pure (.report r)
  | .deleteReport userId id => do
      deleteReport userId id
      pure .done
  | .createGeneration userId reportId idempotencyKey => do
      let r ← create cfg userId reportId idempotencyKey
      pure (.generation r)
  | .retryGeneration userId reportId generationId idempotencyKey => do
      let r ← retry cfg userId reportId generationId idempotencyKey
      pure (.generation r)
  | .cancelGeneration userId reportId generationId => do
      let r ← cancel userId reportId generationId
      pure (.generation r)
  | .process generationId queueAttempt maximumQueueAttempts => do
      let r ← process cfg generationId queueAttempt maximumQueueAttempts
      pure (.process r)
  | .heartbeat generationId processingToken deadline => do
      heartbeat cfg generationId processingToken deadline
      pure .done
  | .allocateMonthly userId subscriptionPeriodKey totalCredits validFrom expiresAt => do
      allocateMonthly userId subscriptionPeriodKey totalCredits validFrom expiresAt
      pure .done
  | .grantGenerationCredits email amount requestKey => do
      grantGenerationCredits cfg email amount requestKey
      pure .done
  | .requestUpload userId reportId type mimeType size fileName => do
      let r ← requestUpload cfg userId reportId { type, mimeType, size, fileName }
      pure (.upload r.assetId r.storageKey r.expiresAt)
  | .confirmUpload userId reportId assetId => do
      let r ← confirmUpload cfg userId reportId assetId
      pure (.asset r)
  | .deleteAsset userId reportId assetId => do
      deleteAsset userId reportId assetId
      pure .done

/-- When a request may arrive: a delivery needs its job. -/
def ready : Req → Scene Row Site Req Env → Bool
  | .process generationId queueAttempt maximumQueueAttempts, s =>
      generationId ∈ s.env.jobs && 1 ≤ queueAttempt
        && queueAttempt ≤ maximumQueueAttempts
  | _, _ => true

def app (cfg : Config) : App Row Error Site Call Req Res where
  main := main cfg
  ready := ready

/-- The shared state and the events of the report side. -/
abbrev RState := Shared Row Error Site Call Req Res

abbrev REntry := Entry Row Error Site Call Req Res

abbrev RWorld := World Row Error Site Call Req Res

abbrev RContract := Contract Row Error Site Call Req Res

/-- A database in which nobody has used the report side: users and their
subscriptions only. -/
def Unused (d : Db Row) : Prop :=
  ∀ r ∈ d.rows, (∃ u, r = .user u) ∨ ∃ s, r = .subscription s

/-- The states a run of the report side reaches, from a database of users
and subscriptions, with nothing queued and nothing stored. -/
def Reached (cfg : Config) (w : RWorld) : Prop :=
  ∃ db clock nextId, Unused db
    ∧ Reachable (app cfg) (World.init db ⟨[], [], []⟩ clock nextId) w

end FastRep.Reports
