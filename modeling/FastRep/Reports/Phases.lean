/-
The lifecycle of reports and generations as one machine.

A report and its generations carry a status each, in rows of their own,
and every operation changes them in a transaction of its own. What they
are meant to be together is this machine: a step starts, claims, requeues
or ends a generation and moves its report along, at once. Credits, tokens
and contents are left out.

# What holds in the machine

`Phases.Agreed`: a report is QUEUED or PROCESSING where its one active
generation is, and READY where one of its generations has an output.
`Phases.Rested` says what else it shows: FAILED where a generation failed, and
DRAFT where none did. Together they make the status of a report a function of
those of its generations (`shownStatus`). Both are proved for every run of
the machine, with no database in sight.

# What it has to do with the rows

`phases` reads the statuses off the rows of a database. That the machine of
the code follows the steps of this one is proved beside
(`FastRep.Reports.Proofs.Agreement`).
-/
import FastRep.Reports.Schema
import Mathlib.Logic.Function.Basic
import Mathlib.Logic.Relation

namespace FastRep.Reports

open FastRep.Txn
open Function (update)

/-- A generation as its report sees it, with the status the report had
before. -/
@[ext] structure Job where
  reportId : Id
  status : ReportGenerationStatus
  prior : ReportStatus

/-- The reports, the generations, and the reports that have outputs, by
the generation of the output. -/
@[ext] structure Phases where
  report : Id → Option ReportStatus
  generation : Id → Option Job
  output : Id → Option Id

/-- Nothing is stored. -/
def Phases.empty : Phases where
  report := fun _ => none
  generation := fun _ => none
  output := fun _ => none

/-- A generation and its report move together. -/
def Phases.move (v : Phases) (g : Id) (j : Job) (status : ReportStatus) : Phases :=
  { v with
    report := update v.report j.reportId (some status)
    generation := update v.generation g (some j) }

/-- What an operation does to a report and its generation. -/
inductive Phases.Step : Phases → Phases → Prop
  | created {v : Phases} {i : Id} : v.report i = none →
      Step v { v with report := update v.report i (some .draft) }
  | started {v : Phases} {g : Id} {j : Job} : v.generation g = none →
      v.report j.reportId = some j.prior → j.prior = .draft ∨ j.prior = .failed →
      j.status = .queued → Step v (v.move g j .queued)
  | claimed {v : Phases} {g : Id} {j : Job} : v.generation g = some j →
      j.status.active = true → Step v (v.move g { j with status := .processing } .processing)
  | requeued {v : Phases} {g : Id} {j : Job} : v.generation g = some j →
      j.status = .processing → Step v (v.move g { j with status := .queued } .queued)
  | cancelled {v : Phases} {g : Id} {j : Job} : v.generation g = some j →
      j.status = .queued → Step v (v.move g { j with status := .cancelled } j.prior)
  | failed {v : Phases} {g : Id} {j : Job} : v.generation g = some j →
      j.status = .processing → Step v (v.move g { j with status := .failed } .failed)
  | published {v : Phases} {g : Id} {j : Job} : v.generation g = some j →
      j.status = .processing → v.output g = none →
      Step v { v.move g { j with status := .completed } .ready with
        output := update v.output g (some j.reportId) }
  | compensated {v : Phases} {g : Id} {j : Job} : v.generation g = some j →
      j.status = .queued →
      Step v { v with
        report := update v.report j.reportId (some j.prior)
        generation := update v.generation g none }
  | deleted {v : Phases} {i : Id} {status : ReportStatus} : v.report i = some status →
      status ≠ .queued → status ≠ .processing →
      Step v {
        report := update v.report i none
        generation := fun g => (v.generation g).filter fun j => j.reportId ≠ i
        output := fun g => (v.output g).filter fun r => r ≠ i }

/-- Phases that were reached by such operations from empty ones. -/
def Phases.Run : Phases → Prop :=
  Relation.ReflTransGen Phases.Step Phases.empty

/-- A report shows what its generations and outputs are. -/
structure Phases.Agreed (v : Phases) : Prop where
  stored : ∀ g j, v.generation g = some j → v.report j.reportId ≠ none
  one : ∀ g g' j j', v.generation g = some j → v.generation g' = some j' →
    j.reportId = j'.reportId → j.status.active = true → j'.status.active = true → g = g'
  queued : ∀ i, v.report i = some .queued ↔
    ∃ g j, v.generation g = some j ∧ j.reportId = i ∧ j.status = .queued
  processing : ∀ i, v.report i = some .processing ↔
    ∃ g j, v.generation g = some j ∧ j.reportId = i ∧ j.status = .processing
  ready : ∀ i, v.report i = some .ready ↔ ∃ g, v.output g = some i
  output : ∀ g i, v.output g = some i →
    ∃ j, v.generation g = some j ∧ j.reportId = i ∧ j.status = .completed
  prior : ∀ g j, v.generation g = some j → j.prior = .draft ∨ j.prior = .failed

/-- A generation of the report is in that status. -/
def Phases.Has (v : Phases) (i : Id) (s : ReportGenerationStatus) : Prop :=
  ∃ g j, v.generation g = some j ∧ j.reportId = i ∧ j.status = s

/-- With nothing running, a report shows whether a generation of it failed;
and that is what an active generation would bring back. -/
structure Phases.Rested (v : Phases) : Prop where
  failed : ∀ i, v.report i = some .failed → v.Has i .failed
  draft : ∀ i, v.report i = some .draft → ¬ v.Has i .failed
  prior : ∀ g j, v.generation g = some j → j.status.active = true →
    (j.prior = .failed ↔ v.Has j.reportId .failed)
  completed : ∀ g j, v.generation g = some j → j.status = .completed →
    v.output g = some j.reportId

/-- The status a report shows, from those of its generations. -/
def shownStatus (l : List ReportGenerationStatus) : ReportStatus :=
  if .queued ∈ l then .queued
  else if .processing ∈ l then .processing
  else if .completed ∈ l then .ready
  else if .failed ∈ l then .failed
  else .draft

/-- What the rows of a database show of the lifecycle. -/
def phases (d : Db Row) : Phases where
  report := fun i => (report? d i).map (·.status)
  generation := fun g => (generation? d g).map fun x =>
    ⟨x.reportId, x.status, x.priorReportStatus⟩
  output := fun g => (output? d g).map (·.reportId)

/-- The statuses of a report's generations. -/
def statusesOf (d : Db Row) (i : Id) : List ReportGenerationStatus :=
  ((generations d).filter fun x => x.reportId = i).map (·.status)

end FastRep.Reports
