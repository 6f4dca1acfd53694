/-
`validateEnvironment`, for the settings the modelled code reads: their
defaults, and the values it accepts.

A setting is accepted where it is a positive integer; some have a range
of their own. `DOWNLOAD_URL_TTL_SECONDS` also has to cover a timeout of at
least one second, which its range already does. `Config.accepted` is the
condition under which the application starts, so a statement about every
accepted environment has it as its hypothesis and nothing else about the
numbers.
-/
import FastRep.Reports.App

namespace FastRep.Reports

/-- The defaults of `validateEnvironment`. -/
def defaults : Config where
  nodeEnvironment := some "development"
  enableDevCreditGrants := some "false"
  aiGenerationEnabled := true
  generationStartRateWindowSeconds := 3600
  generationStartRateLimit := 5
  generationDailySafetyLimit := 20
  aiGlobalDailyGenerationLimit := 500
  reportGenerationJobTimeoutMs := 900000
  reportFailedRetryWindowMinutes := 3
  reportFailedRetryLimit := 5
  reportFailedLockMinutes := 60
  openaiReportModel := "gpt-5-mini"
  openaiTranscriptionModel := "gpt-4o-mini-transcribe"
  aiMaxOutputTokens := 6000
  transcriptionMaxAttemptsPerAsset := 2
  aiMaxProviderCallsPerGeneration := 2
  uploadUrlTtlSeconds := 600
  downloadUrlTtlSeconds := 600
  pendingUploadTtlMinutes := 30
  imageMaxBytes := 10485760
  audioMaxBytes := 52428800
  documentMaxBytes := 26214400
  reportMaxImages := 20
  reportMaxAudioFiles := 5
  reportMaxDocuments := 10
  reportMaxTotalAssetBytes := 157286400
  imageMaxWidth := 4096
  imageMaxHeight := 4096
  audioMaxDurationSeconds := 1200

/-- `assertIntegerRange`. -/
def inRange (value minimum maximum : Nat) : Bool := minimum ≤ value && value ≤ maximum

/-- The checks of `validateEnvironment`. -/
def Config.accepted (cfg : Config) : Bool :=
  cfg.nodeEnvironment.any (trim · ≠ "")
    && cfg.enableDevCreditGrants.any (fun b => b = "true" || b = "false")
    && inRange cfg.generationStartRateWindowSeconds 60 86400
    && inRange cfg.generationStartRateLimit 1 1000
    && inRange cfg.generationDailySafetyLimit 1 10000
    && inRange cfg.aiGlobalDailyGenerationLimit 1 1000000
    && inRange cfg.reportGenerationJobTimeoutMs 60000 3600000
    && inRange cfg.reportFailedRetryWindowMinutes 1 1440
    && inRange cfg.reportFailedRetryLimit 1 100
    && inRange cfg.reportFailedLockMinutes 1 10080
    && trim cfg.openaiReportModel ≠ "" && trim cfg.openaiTranscriptionModel ≠ ""
    && inRange cfg.aiMaxOutputTokens 256 100000
    && inRange cfg.transcriptionMaxAttemptsPerAsset 2 10
    && inRange cfg.aiMaxProviderCallsPerGeneration 2 10
    && 0 < cfg.uploadUrlTtlSeconds && inRange cfg.downloadUrlTtlSeconds 60 3600
    && 0 < cfg.pendingUploadTtlMinutes && 0 < cfg.imageMaxBytes && 0 < cfg.audioMaxBytes
    && 0 < cfg.documentMaxBytes && 0 < cfg.reportMaxImages && 0 < cfg.reportMaxAudioFiles
    && 0 < cfg.reportMaxDocuments && 0 < cfg.reportMaxTotalAssetBytes
    && 0 < cfg.imageMaxWidth && 0 < cfg.imageMaxHeight && 0 < cfg.audioMaxDurationSeconds

/-- Every default passes its own check. -/
theorem defaults_accepted : defaults.accepted = true := by decide +kernel

end FastRep.Reports
