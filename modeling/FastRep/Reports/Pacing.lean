/-
How long the requests of a run take, and whether the image URLs in them last
so long.

A run is looked at alone, step by step. Only the requests to the provider
take time: each at most the client's timeout, and none beyond the deadline
of the job. Nothing takes time before the run reads when it started, so the
deadline counts from the first time of the visit.

`Paced` is the assumption and `Unexpired` the conclusion: a request is handed
URLs, each with the second it expires, and starts and ends within the
steps of the visit. The URLs of all images are made in one go; the requests
that use them follow one another.
-/
import FastRep.Reports.Environment
import FastRep.Txn.Steps

namespace FastRep.Reports

open FastRep.Txn

/-- The checks of `OPENAI_REQUEST_TIMEOUT_MS`. -/
def Config.acceptsRequestTimeout (cfg : Config) (openaiRequestTimeoutMs : Nat) : Bool :=
  inRange openaiRequestTimeoutMs 1000 600000
    && !(cfg.downloadUrlTtlSeconds * 1000 < openaiRequestTimeoutMs)

/-- The requests that the timeout of the provider's client bounds. -/
def Call.isRequest : Call → Bool
  | .moderateInput _ | .transcribe _ _ _ _ | .uploadDocument _ _ _ | .generateReport _ => true
  | _ => false

/-- A step takes the time it may. -/
def Takes (cfg : Config) (openaiRequestTimeoutMs : Nat) (startedAt : Time) (step : Option Call)
    (begins ends : Time) : Prop :=
  if step.any Call.isRequest then
    ends ≤ begins + openaiRequestTimeoutMs ∧ ends ≤ startedAt + cfg.reportGenerationJobTimeoutMs
  else
    ends = begins

/-- The steps from an index on take the time they may. -/
def Paced (cfg : Config) (openaiRequestTimeoutMs : Nat) (v : Visit Call Choice) (i : Nat)
    (steps : List (Option Call)) : Prop :=
  ∀ (j : Nat) step, steps[j]? = some step →
    Takes cfg openaiRequestTimeoutMs (v.times 0) step (v.times (i + j)) (v.times (i + j + 1))

/-- No image URL that a request is handed expires before the request ends. -/
structure Unexpired (cfg : Config) (v : Visit Call Choice) (i : Nat)
    (steps : List (Option Call)) : Prop where
  /-- A moderated image was presigned, and every time -/
  presigned : ∀ (j : Nat) input k, steps[j]? = some (some (.moderateInput input)) →
    .imageUrl k ∈ input →
    ∃ j' : Nat, j' < j ∧ steps[j']? = some (some (.createPresignedGet k cfg.downloadUrlTtlSeconds))
  /-- the URL lasts till the end of the request. -/
  moderation : ∀ (j j' : Nat) input k, steps[j]? = some (some (.moderateInput input)) →
    .imageUrl k ∈ input → j' < j →
    steps[j']? = some (some (.createPresignedGet k cfg.downloadUrlTtlSeconds)) →
    v.times (i + j + 1) ≤ v.times (i + j') + cfg.downloadUrlTtlSeconds * 1000
  report : ∀ (j : Nat) r, steps[j]? = some (some (.generateReport r)) →
    ∀ image ∈ r.images, v.times (i + j + 1) ≤ image.referenceExpiresAt

/-- The number of images in the snapshot of a generation. -/
def imageCount (generationId : Id) (d : Db Row) : Option Nat := do
  let generation ← generation? d generationId
  let snapshot ← generation.inputSnapshot
  pure (snapshot.assets.filter fun a => a.type = .image).length

end FastRep.Reports
