/-
`ReportAssetsService`: upload contracts, confirmation, rejection and
expiry of uploads.

`confirmUpload` looks at the object in two calls, the size first and then
the leading bytes, and only then changes the status. Rejection and expiry
schedule and delete the object first and change the status afterwards;
both status changes are guarded by PENDING_UPLOAD. Entering `rejectUpload`
and `expireUpload` is a step of the run, since from there on the object
is given up.

# Slots

`requestUpload` counts the READY assets of the report and the pending ones
that are younger than a cutoff, in a SERIALIZABLE transaction that then
inserts the new row. The cutoff and the position's time come from readings of
the clock in the midst of it (`Tx.lateClock`), later than the rows it counts.
A confirmation checks the age of its asset against the cutoff of its own
moment. So an asset may be too old for the count of one request and be
confirmed all the same, where time passes between the two.

# What is not guarded

The deletion of an asset checks that the report is editable before its
transaction, and does not look again inside it.
-/
import FastRep.Reports.Inspector
import FastRep.Reports.ReportsService
import Mathlib.Algebra.GroupWithZero.Nat

namespace FastRep.Reports

open FastRep.Txn

-- =============================================================== limits

def allowedMimeTypes : ReportAssetType → List String
  | .image => ["image/jpeg", "image/png", "image/webp"]
  | .audio => ["audio/mpeg", "audio/x-m4a", "audio/wav"]
  | .document =>
      ["application/pdf", "text/plain", "text/csv",
        "application/vnd.openxmlformats-officedocument.wordprocessingml.document",
        "application/vnd.openxmlformats-officedocument.spreadsheetml.sheet"]

def Config.maximumBytes (cfg : Config) : ReportAssetType → Nat
  | .image => cfg.imageMaxBytes
  | .audio => cfg.audioMaxBytes
  | .document => cfg.documentMaxBytes

def Config.maximumCount (cfg : Config) : ReportAssetType → Nat
  | .image => cfg.reportMaxImages
  | .audio => cfg.reportMaxAudioFiles
  | .document => cfg.reportMaxDocuments

/-- `pendingCutoff` at a moment. -/
def Config.pendingCutoff (cfg : Config) (now : Time) : Time :=
  now - cfg.pendingUploadTtlMinutes * 60000

structure RequestAssetUploadDto where
  type : ReportAssetType
  mimeType : String
  size : Nat
  fileName : String

def storageUnavailable : Error :=
  unavailable "OBJECT_STORAGE_UNAVAILABLE" "Object storage is temporarily unavailable"

def assetNotFound : Error := notFound "Not Found" "Report asset not found"

/-- The last component of a path. -/
def lastSegment (cs : List Char) : List Char :=
  (cs.reverse.takeWhile fun c => c ≠ '/' && c ≠ '\\').reverse

def sanitizeFileName (fileName : String) : String :=
  let displayName := trim (String.ofList (lastSegment
    (fileName.toList.filter fun c => 32 ≤ c.toNat && c.toNat ≠ 127)))
  slice (if displayName = "" then "upload" else displayName) 255

def validateDeclaredUpload (cfg : Config) (dto : RequestAssetUploadDto) :
    Async Unit :=
  if dto.mimeType ∉ allowedMimeTypes dto.type then
    .throw (badRequest "UNSUPPORTED_ASSET_TYPE"
      "The requested MIME type is not supported for this asset category")
  else if cfg.maximumBytes dto.type < dto.size then
    .throw (badRequest "ASSET_TOO_LARGE"
      "The declared file size exceeds the allowed maximum")
  else
    pure ()

-- ============================================================== lookups

def findOwnedAsset (userId reportId assetId : Id) : Async ReportAsset := do
  let asset ← query (.findAsset assetId) fun d =>
    (asset? d assetId).filter fun a => a.reportId = reportId
      && (ownedReport userId reportId d).isSome
  match asset with
  | none => .throw assetNotFound
  | some asset => pure asset

def assertEditableReport (userId reportId : Id) : Async Unit := do
  let report ← query (.findReport reportId) (ownedReport userId reportId)
  match report with
  | none => .throw reportNotFound
  | some report =>
      match reportNotEditable report.status with
      | some e => .throw e
      | none => pure ()

-- ===================================================== pending to ready

/-- The guarded change of a pending asset; the number of rows changed. -/
def settlePending (s : Site) (assetId : Id) (f : ReportAsset → ReportAsset) :
    Async Nat :=
  transaction s (updateRow (.asset assetId)
    (onAsset fun a => a.status = .pendingUpload) (setAsset f))

def ReportAsset.rejected (rejectionReason : String) (a : ReportAsset) : ReportAsset :=
  { a with status := .rejected, rejectionReason := some rejectionReason }

def ReportAsset.verified (inspection : AssetInspection) (size : Nat)
    (a : ReportAsset) : ReportAsset :=
  { a with
    status := .ready
    verifiedMimeType := some inspection.mimeType
    verifiedSize := some size
    width := inspection.width
    height := inspection.height
    durationSeconds := inspection.durationSeconds
    rejectionReason := none }

def rejectUpload {α : Type} (asset : ReportAsset) (code message : String) :
    Async α :=
  .enter (.rejectUpload asset.id) do
    let _ ← enqueueAndAttempt asset.storageKey .rejectedUpload
    let _ ← settlePending (.markRejected asset.id) asset.id (·.rejected code)
    .throw (badRequest code message)

/-- Whether an inspection passes the declared type and the limits; the
rejection otherwise. -/
def inspectionRejection (cfg : Config) (asset : ReportAsset)
    (inspection : Option AssetInspection) :
    Except (String × String) AssetInspection :=
  match inspection with
  | none => .error ("UPLOAD_CONTENT_MISMATCH",
      "The uploaded file content does not match the requested type")
  | some inspection =>
      if inspection.type ≠ asset.type
          ∨ asset.declaredMimeType ≠ inspection.mimeType then
        .error ("UPLOAD_CONTENT_MISMATCH",
          "The uploaded file content does not match the requested type")
      else if inspection.type = .image
          ∧ ((∃ w ∈ inspection.width, cfg.imageMaxWidth < w)
            ∨ ∃ h ∈ inspection.height, cfg.imageMaxHeight < h) then
        .error ("INVALID_IMAGE_DIMENSIONS",
          "The uploaded image dimensions exceed the allowed maximum")
      else if inspection.type = .audio
          ∧ ∃ s ∈ inspection.durationSeconds,
            (cfg.audioMaxDurationSeconds : Rat) < s then
        .error ("UPLOAD_CONTENT_MISMATCH",
          "The uploaded audio duration exceeds the allowed maximum")
      else
        .ok inspection

/-- The size check of `confirmUpload`. -/
def sizeRejection (cfg : Config) (asset : ReportAsset) (size : Nat) :
    Option (String × String) :=
  if cfg.maximumBytes asset.type < size then
    some ("ASSET_TOO_LARGE", "The uploaded object exceeds its size limit")
  else if size = 0 ∨ size ≠ asset.declaredSize then
    some ("UPLOAD_CONTENT_MISMATCH",
      "The uploaded object size does not match the request")
  else
    none

/-- The guarded step to READY, and what a lost race answers. -/
def publishAsset (userId reportId : Id) (asset : ReportAsset)
    (inspection : AssetInspection) (size : Nat) : Async ReportAsset := do
  let count ← settlePending (.markReady asset.id) asset.id
    (·.verified inspection size)
  if count = 0 then do
    let concurrentResult ← findOwnedAsset userId reportId asset.id
    if concurrentResult.status = .ready then
      pure concurrentResult
    else
      .throw (badRequest "ASSET_NOT_READY" "The upload is not ready")
  else
    transaction (.findAsset asset.id) (selectOrThrow fun d => asset? d asset.id)

/-- `confirmUpload` of an asset that is still pending. -/
def verifyUpload (cfg : Config) (userId reportId : Id) (asset : ReportAsset) :
    Async ReportAsset := do
  let metadata ← (headObject asset.storageKey).attempt
  match metadata with
  | .error _ => .throw storageUnavailable
  | .ok none =>
      rejectUpload asset "UPLOAD_NOT_FOUND"
        "The uploaded object was not found"
  | .ok (some size) =>
      match sizeRejection cfg asset size with
      | some rejection => rejectUpload asset rejection.1 rejection.2
      | none => do
          let inspectionBytes ← (readInspectionBytes asset.storageKey).attempt
          match inspectionBytes with
          | .error _ => .throw storageUnavailable
          | .ok bytes =>
              match inspectionRejection cfg asset (inspectAssetBytes bytes size) with
              | .error rejection => rejectUpload asset rejection.1 rejection.2
              | .ok inspection =>
                  publishAsset userId reportId asset inspection size

def confirmUpload (cfg : Config) (userId reportId assetId : Id) :
    Async ReportAsset := do
  let asset ← findOwnedAsset userId reportId assetId
  if asset.status = .ready then
    pure asset
  else if asset.status = .rejected then
    .throw (badRequest "ASSET_NOT_READY" "The upload has been rejected")
  else do
    assertEditableReport userId reportId
    let now ← Prog.clock
    if asset.createdAt < cfg.pendingCutoff now then
      rejectUpload asset "UPLOAD_EXPIRED" "The upload request has expired"
    else
      verifyUpload cfg userId reportId asset

-- =============================================================== expiry

/-- Give up one expired upload; whether the row was still pending. An
error is logged, nothing else. -/
def expireUpload (asset : ReportAsset) : Async Nat :=
  ((.enter (.expireUpload asset.id) do
    let _ ← enqueueAndAttempt asset.storageKey .expiredUpload
    settlePending (.markExpired asset.id) asset.id (·.rejected "UPLOAD_EXPIRED") :
      Async Nat)).catch fun _ => pure 0

def expireAll : List ReportAsset → Async Nat
  | [] => pure 0
  | asset :: rest => do
      let cleaned ← expireUpload asset
      let others ← expireAll rest
      pure (cleaned + others)

def cleanupExpiredPendingUploads (cfg : Config) (reportId : Id) : Async Nat := do
  let now ← Prog.clock
  let expired ← query (.findExpired reportId) fun d =>
    (assets d).filter fun a => a.reportId = reportId
      && a.status = .pendingUpload && a.createdAt < cfg.pendingCutoff now
  expireAll expired

-- ============================================================== request

/-- `${dto.type.toLowerCase()}`. -/
def typeName : ReportAssetType → String
  | .image => "image"
  | .audio => "audio"
  | .document => "document"

/-- The transaction that reserves an upload slot. It sees the rows of the
moment of its first query; the cutoff and the creation time are read later. -/
def createPendingAsset (cfg : Config) (userId reportId assetId : Id)
    (storageKey : StorageKey) (dto : RequestAssetUploadDto) : InTransaction Unit := do
  let report ← select (ownedReport userId reportId)
  match report with
  | none => .throw reportNotFound
  | some report =>
      match reportNotEditable report.status with
      | some e => .throw e
      | none => do
          let now ← Tx.lateClock 0
          let activeAssets ← select fun d => (assets d).filter fun a =>
            a.reportId = reportId && (a.status = .ready
              || (a.status = .pendingUpload && cfg.pendingCutoff now ≤ a.createdAt))
          if cfg.maximumCount dto.type
              ≤ (activeAssets.filter fun a => a.type = dto.type).length then
            .throw (badRequest "REPORT_ASSET_LIMIT_EXCEEDED"
              ("The report has reached its " ++ typeName dto.type ++ " asset limit"))
          else if cfg.reportMaxTotalAssetBytes
              < (activeAssets.map fun a => a.verifiedSize.getD a.declaredSize).sum
                + dto.size then
            .throw (badRequest "REPORT_STORAGE_LIMIT_EXCEEDED"
              "The report storage limit would be exceeded")
          else do
            let createdAt ← Tx.lateClock now
            insertRow (.asset {
              id := assetId
              reportId
              type := dto.type
              status := .pendingUpload
              storageKey
              originalFileName := sanitizeFileName dto.fileName
              declaredMimeType := dto.mimeType
              verifiedMimeType := none
              declaredSize := dto.size
              verifiedSize := none
              -- one past the highest position in use, from zero
              position := (activeAssets.map (·.position + 1)).foldl max 0
              width := none
              height := none
              durationSeconds := none
              rejectionReason := none
              createdAt })

structure UploadRequestResult where
  assetId : Id
  storageKey : StorageKey
  expiresAt : Time

def requestUpload (cfg : Config) (userId reportId : Id)
    (dto : RequestAssetUploadDto) : Async UploadRequestResult := do
  assertEditableReport userId reportId
  validateDeclaredUpload cfg dto
  let _ ← retryPending.attempt
  let _ ← cleanupExpiredPendingUploads cfg reportId
  let assetId ← randomUUID
  let nonce ← randomUUID
  let storageKey := StorageKey.asset userId reportId assetId nonce
  retryOnConflict (.createPendingAsset assetId)
    (createPendingAsset cfg userId reportId assetId storageKey dto)
    (conflict "UPLOAD_SLOT_CONFLICT"
      "The upload slot could not be reserved; retry the request") 3
  let contract ← (awaitOk (.createPresignedPost storageKey dto.mimeType dto.size
    cfg.uploadUrlTtlSeconds)).attempt
  match contract with
  | .ok expiresAt => pure ⟨assetId, storageKey, expiresAt⟩
  | .error _ => do
      let _ ← transaction (.dropPendingAsset assetId) (deleteRow (.asset assetId)
        (onAsset fun a => a.status = .pendingUpload))
      .throw storageUnavailable

-- ============================================================= deletion

def deleteAsset (userId reportId assetId : Id) : Async Unit := do
  assertEditableReport userId reportId
  let asset ← query (.findAsset assetId) fun d =>
    (asset? d assetId).filter fun a => a.reportId = reportId
  match asset with
  | none => do
      let foreignAsset ← query (.findAsset assetId) fun d => asset? d assetId
      if foreignAsset.isSome then
        .throw assetNotFound
      else
        pure ()
  | some asset => do
      transaction (.deleteAsset assetId) do
        upsertCleanupTask asset.storageKey .assetDelete
        let _ ← deleteRow (.asset assetId) (onAsset fun a => a.reportId = reportId)
        pure ()
      let _ ← (attemptMany [asset.storageKey]).attempt
      pure ()

end FastRep.Reports
