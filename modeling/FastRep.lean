import FastRep.Reports.Proofs.Limits
import FastRep.Reports.Proofs.AssetLimits
import FastRep.Reports.Proofs.FrozenInputs
import FastRep.Auth.App
import FastRep.Auth.Effects
import FastRep.Auth.Proofs.Codes
import FastRep.Auth.Proofs.Cooldown
import FastRep.Auth.Proofs.Disclosure
import FastRep.Auth.Proofs.Emails
import FastRep.Auth.Proofs.Guesses
import FastRep.Auth.Proofs.Revocation
import FastRep.Auth.Proofs.Rotation
import FastRep.EarliestClosing
import FastRep.Reports.Entitlements
import FastRep.Reports.Proofs.Fencing
import FastRep.Reports.Proofs.Reservations
import FastRep.Reports.Proofs.Throttle
import FastRep.Reports.Proofs.Transcripts
import FastRep.Format.Bytes
import FastRep.Format.IsoMedia
import FastRep.Format.Jpeg
import FastRep.Format.Riff
import FastRep.Format.Utf8
import FastRep.Reports.Pacing
import FastRep.Reports.PdfReport
import FastRep.Reports.Proofs.Confirming
import FastRep.Reports.Proofs.ExpiredUrls
import FastRep.Reports.Proofs.PictureFiles
import FastRep.Reports.Proofs.MovieFiles
import FastRep.Reports.Proofs.Mp3Files
import FastRep.Reports.Proofs.PdfReports
import FastRep.Reports.Proofs.StaleAttempts
import FastRep.Reports.Proofs.TextFiles
import FastRep.Reports.Proofs.WavFiles
import FastRep.Reports.Proofs.DuplicateReports
import FastRep.Reports.Proofs.ReportPages
import FastRep.Reports.Proofs.Galleries
import FastRep.Reports.Proofs.SourceNumbers
import FastRep.Reports.Proofs.PdfTexts
import FastRep.Reports.Proofs.Settlements
import FastRep.Reports.Proofs.Workers
import FastRep.Reports.Proofs.CleanupTasks
import FastRep.Reports.Proofs.Idempotency
import FastRep.Reports.Proofs.Moderation
import FastRep.Reports.Proofs.Downloads
import FastRep.Reports.Proofs.Alterations
