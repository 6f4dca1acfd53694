/-
The transactions carry out the lifecycle machine.

A commit is one step of the machine of `Phases.lean` or moves nothing, as
long as no generation leaves QUEUED while a compensation of it is open: a
compensation decides on a read that takes no lock, and what it then deletes
must still be what it read (`uncrossed`).

# The simulation

Three facts about `phases`, which reads the statuses off the rows, come
first. Commits that write none of the three tables leave it alone
(`Effect.phases_eq`). A commit about one generation leaves the jobs of the
others (`Effect.generation_other`, `Effect.output_other`). And a generation
and its report written together are a move (`phases_move`). Then there is
one lemma for each kind of commit: a claim, a retry, a cancellation, a failure, a
publication, a start, a compensation, a new report, a deletion.

# What is not locked

Two transactions decide on a row they do not lock: a guarded update of the
report may find nothing to do. That it then had nothing to do is read off
the moments of the past, at which the two sides agreed as well: the proof is
an induction over the run that knows of every earlier state that it showed a
state of the machine (`Runs.phases_run`). For the compensation the condition
says that the generation stays QUEUED between its read and its commit
(`Runs.still_queued`).

# What follows

`lifecycle_refined` is the simulation for every reached state and every step.
`lifecycles_agree` draws the conclusion from the invariants of the abstract
machine: the status of a report is a function of those of its generations.
`statuses_agree` adds what the rows hold beyond the statuses, the key of the
output and the generation a report names, and `statuses_disagree` is the run
that shows what a crossed compensation does to them.
-/
import FastRep.Reports.Proofs.Endings
import FastRep.Reports.Proofs.Phases
import FastRep.Txn.Proofs.Bodies

namespace FastRep.Reports

open FastRep.Txn
open Function (update)

variable {cfg : Config} {start S S' : RState} {t : Tid} {s : Site} {ws : List (Write Row Key)}
  {w : RWorld} {d d' : Db Row} {g tok r i : Id}

-- ============================================================ the condition

/-- The commit takes a generation out of QUEUED while a compensation of it
is open. -/
def crossesCompensation (e : REntry) : Bool :=
  match e.event with
  | .commit (.claim g _) (_ :: _) | .commit (.cancel g) _ =>
      e.before.opens.any fun o => o.site = .compensateQueueFailure g && 1 ≤ o.done
  | _ => false

/-- No generation leaves QUEUED while a compensation of it is open. -/
def uncrossed (entries : List REntry) : Bool :=
  entries.all fun e => !crossesCompensation e

/-- A condition on the whole history holds of its beginning. -/
theorem uncrossed_of_suffix {l l' : List REntry} (hl : l <:+ l') (h : uncrossed l' = true) :
    uncrossed l = true :=
  List.all_eq_true.mpr fun e he => List.all_eq_true.mp h e (hl.subset he)

-- ================================================================= lookups

def ReportGeneration.job (x : ReportGeneration) : Job where
  reportId := x.reportId
  status := x.status
  prior := x.priorReportStatus

/-- A stored generation is a job of the lifecycle machine. -/
theorem phases_generation {x : ReportGeneration} (hx : generation? d g = some x) :
    (phases d).generation g = some x.job := by
  simp [phases, hx, ReportGeneration.job]

/-- A stored report has its status there. -/
theorem phases_report {x : Report} (hx : report? d i = some x) :
    (phases d).report i = some x.status := by
  simp [phases, hx]

/-- Every job of the machine is a stored generation. -/
theorem generation_of_phases {j : Job} (h : (phases d).generation g = some j) :
    ∃ x, generation? d g = some x ∧ x.job = j := by
  simpa [phases, ReportGeneration.job] using h

/-- The sites whose commits move the lifecycle. -/
def Site.movesPhases : Site → Bool
  | .start _ _ _ _ | .compensateQueueFailure _ | .cancel _ | .claim _ _ | .prepareRetry _ _
  | .failGeneration _ _ | .finalizeSuccess _ _ | .createReport _ | .duplicateReport _
  | .deleteReport _ => true
  | _ => false

/-- Other commits leave the lifecycle alone. -/
theorem Effect.phases_eq (h : Effect cfg t s ws S) (hs : s.movesPhases = false) :
    phases (applyAll ws S.db) = phases S.db := by
  apply Phases.ext
  · funext i
    show (report? (applyAll ws S.db) i).map (·.status) = (report? S.db i).map (·.status)
    rcases h.report i with hsame | hchange
    · rw [hsame]
    · cases hb : report? S.db i with
      | none =>
          rw [hb] at hchange
          cases ha : report? (applyAll ws S.db) i with
          | none => rfl
          | some y =>
              rw [ha] at hchange
              cases hchange with
              | created => cases hs
              | duplicated => cases hs
      | some x =>
          rw [hb] at hchange
          cases ha : report? (applyAll ws S.db) i with
          | none =>
              rw [ha] at hchange
              cases hchange with
              | removed _ _ _ => cases hs
          | some y =>
              rw [ha] at hchange
              cases hchange <;> first | rfl | cases hs
  · funext g
    show (generation? (applyAll ws S.db) g).map _ = (generation? S.db g).map _
    rcases h.generation g with hsame | hchange
    · rw [hsame]
    · cases hb : generation? S.db g with
      | none =>
          rw [hb] at hchange
          cases ha : generation? (applyAll ws S.db) g with
          | none => rfl
          | some y =>
              rw [ha] at hchange
              cases hchange with
              | started => cases hs
      | some x =>
          rw [hb] at hchange
          cases ha : generation? (applyAll ws S.db) g with
          | none =>
              rw [ha] at hchange
              cases hchange <;> cases hs
          | some y =>
              rw [ha] at hchange
              cases hchange with
              | enqueued _ _ _ => rfl
              | fenced _ _ _ _ _ _ hcore =>
                  simp [hcore.reportId, hcore.status, hcore.priorReportStatus]
              | _ => cases hs
  · funext g
    show (output? (applyAll ws S.db) g).map (·.reportId) = (output? S.db g).map (·.reportId)
    rcases h.output g with hsame | hchange
    · rw [hsame]
    · cases hb : output? S.db g with
      | none =>
          rw [hb] at hchange
          cases ha : output? (applyAll ws S.db) g with
          | none => rfl
          | some y =>
              rw [ha] at hchange
              cases hchange with
              | published _ _ _ _ _ _ _ _ _ => cases hs
      | some x =>
          rw [hb] at hchange
          cases ha : output? (applyAll ws S.db) g with
          | none =>
              rw [ha] at hchange
              cases hchange <;> cases hs
          | some y =>
              rw [ha] at hchange
              cases hchange

/-- The generation a commit that moves the lifecycle is about. -/
def Site.subject : Site → Option Id
  | .start _ _ _ g | .compensateQueueFailure g | .cancel g | .claim g _ | .prepareRetry g _
  | .failGeneration g _ | .finalizeSuccess g _ => some g
  | _ => none

/-- Other generations are left alone. -/
theorem Effect.generation_other (h : Effect cfg t s ws S) (hs : s.subject = some g) {i : Id}
    (hi : i ≠ g) : generation? (applyAll ws S.db) i = generation? S.db i := by
  rcases h.generation i with hsame | hchange
  · exact hsame
  · exfalso
    generalize generation? S.db i = before at hchange
    generalize generation? (applyAll ws S.db) i = after at hchange
    cases hchange with
    | fenced _ _ _ _ hsite => rcases hsite with rfl | rfl | rfl <;> cases hs
    | enqueued | removed => cases hs
    | _ =>
        cases hs
        exact hi rfl

/-- A commit about one generation leaves the outputs of the others. -/
theorem Effect.output_other (h : Effect cfg t s ws S) (hs : s.subject = some g) {i : Id}
    (hi : i ≠ g) : output? (applyAll ws S.db) i = output? S.db i := by
  rcases h.output i with hsame | hchange
  · exact hsame
  · exfalso
    generalize output? S.db i = before at hchange
    generalize output? (applyAll ws S.db) i = after at hchange
    cases hchange with
    | removed => cases hs
    | _ =>
        cases hs
        exact hi rfl

-- =================================================================== moves

/-- Writes to other tables leave the outputs. -/
theorem output?_of_tables (h : ∀ w ∈ ws, w.target.table ≠ .output) :
    output? (applyAll ws d) g = output? d g :=
  output?_congr (find?_applyAll_of_table h)

/-- A generation and its report written together are a move. -/
theorem phases_move {y : ReportGeneration} {z : Report} {l : List (Write Row Key)}
    (hl : ∀ w ∈ l, w.target.table ∈ [Table.grant, .ledger]) (hz : z.id = y.reportId) :
    phases (applyAll (.update (.generation y) :: .update (.report z) :: l) d)
      = (phases d).move y.id y.job z.status := by
  obtain ⟨hgen, hreport⟩ := lookups_of_settling (l := []) (d := d) (y := y) (z := z) (by simp) hl
  simp only [List.nil_append] at hgen hreport
  apply Phases.ext
  · funext i
    show (report? (applyAll _ d) i).map (·.status)
      = update (phases d).report y.reportId (some z.status) i
    rw [hreport]
    by_cases hi : z.id = i
    · rw [if_pos hi, ← hi, hz]
      simp
    · rw [if_neg hi, Function.update_of_ne (fun h => hi (hz.trans h.symm))]
      rfl
  · funext g
    show (generation? (applyAll _ d) g).map _ = update (phases d).generation y.id (some y.job) g
    rw [hgen]
    by_cases hg : y.id = g
    · rw [if_pos hg, ← hg]
      simp [ReportGeneration.job]
    · rw [if_neg hg, Function.update_of_ne (Ne.symm hg)]
      rfl
  · funext g
    show (output? (applyAll _ d) g).map _ = (output? d g).map _
    rw [output?_of_tables]
    intro w hw
    simp only [List.mem_cons] at hw
    rcases hw with rfl | rfl | hw
    · simp [Write.target, key, Key.table]
    · simp [Write.target, key, Key.table]
    · intro heq
      have hmem := hl w hw
      rw [heq] at hmem
      simp at hmem

/-- A guarded update of the report finds what the generation says. -/
theorem Follows.found {x : ReportGeneration} {p : Report → Bool} {status : ReportStatus}
    (h : Follows x p status ws S) (hpast : ∀ e ∈ S.trace, (phases e.before.db).Agreed)
    (hshow : ∀ d, (phases d).Agreed → generation? d x.id = some x →
      ∃ r, report? d x.reportId = some r ∧ p r = true) :
    ∃ r, report? S.db x.reportId = some r ∧ ws = [.update (.report { r with status })] := by
  rcases h with ⟨r, hr, -, rfl⟩ | ⟨-, newer, e, older, htr, hnone, hkept⟩
  · exact ⟨r, hr, rfl⟩
  · have hx := hkept e (List.mem_append_right _ (List.mem_singleton.mpr rfl))
    obtain ⟨r, hr, hp⟩ := hshow e.before.db (hpast e (by simp [htr])) hx
    rw [hnone r hr] at hp
    cases hp

/-- An active generation has a report that shows it. -/
theorem Phases.Agreed.report_active (h : (phases d).Agreed) {x : ReportGeneration}
    (hx : generation? d g = some x) (hactive : x.status.active = true) :
    ∃ r, report? d x.reportId = some r ∧ (r.status = .queued ∨ r.status = .processing) := by
  rcases h.active (phases_generation hx) hactive with hs | hs
  · obtain ⟨r, hr, hstatus⟩ := Option.map_eq_some_iff.mp hs
    exact ⟨r, hr, Or.inl hstatus⟩
  · obtain ⟨r, hr, hstatus⟩ := Option.map_eq_some_iff.mp hs
    exact ⟨r, hr, Or.inr hstatus⟩

/-- A generation under way has a report under way. -/
theorem Phases.Agreed.report_processing (h : (phases d).Agreed) {x : ReportGeneration}
    (hx : generation? d g = some x) (hs : x.status = .processing) :
    ∃ r, report? d x.reportId = some r ∧ r.status = .processing :=
  Option.map_eq_some_iff.mp ((h.processing _).mpr ⟨g, x.job, phases_generation hx, rfl, hs⟩)

/-- What a run owns is PROCESSING. -/
theorem processing_of_owned {x : ReportGeneration} (h : x.ownedBy tok = true) :
    x.status = .processing := by
  unfold ReportGeneration.ownedBy at h
  rw [Bool.and_eq_true, decide_eq_true_eq] at h
  exact h.1

/-- A claim is the step to PROCESSING, of the generation and of its report. -/
theorem Claims.moves (h : Claims g tok ws S) (hne : ws ≠ [])
    (hpast : ∀ e ∈ S.trace, (phases e.before.db).Agreed) :
    Phases.Step (phases S.db) (phases (applyAll ws S.db)) := by
  obtain rfl | ⟨x, now, leaseExpiresAt, follow, hx, hclaimable, rfl, hfollow⟩ := h
  · exact absurd rfl hne
  have hid := generation?_id hx
  have hactive := active_of_claimable hclaimable
  obtain ⟨r, hr, rfl⟩ := hfollow.found hpast fun d hag hx' => by
    obtain ⟨r, hr, hs⟩ := hag.report_active hx' hactive
    exact ⟨r, hr, by simpa using hs⟩
  have hz : r.id = x.reportId := report?_id hr
  rw [phases_move (y := x.claimed now leaseExpiresAt tok) (z := { r with status := .processing })
    (l := []) (by simp) hz]
  have hstep := Phases.Step.claimed (phases_generation hx) hactive
  rw [← hid] at hstep
  exact hstep

/-- A retry is the step back to QUEUED, of the generation and of its report.
-/
theorem Requeues.moves (h : Requeues g tok ws S) (hne : ws ≠ [])
    (hpast : ∀ e ∈ S.trace, (phases e.before.db).Agreed) :
    Phases.Step (phases S.db) (phases (applyAll ws S.db)) := by
  obtain rfl | ⟨x, errorCode, follow, hx, howned, rfl, hfollow⟩ := h
  · exact absurd rfl hne
  have hid := generation?_id hx
  have hs := processing_of_owned howned
  obtain ⟨r, hr, rfl⟩ := hfollow.found hpast fun d hag hx' => by
    obtain ⟨r, hr, hs⟩ := hag.report_processing hx' hs
    exact ⟨r, hr, by simpa using hs⟩
  have hz : r.id = x.reportId := report?_id hr
  rw [phases_move (y := x.requeued errorCode) (z := { r with status := .queued }) (l := [])
    (by simp) hz]
  have hstep := Phases.Step.requeued (phases_generation hx) hs
  rw [← hid] at hstep
  exact hstep

/-- A cancellation sets the report back to what it was before its generation
started. -/
theorem Runs.cancel_moves (hstart : Begins start) (hruns : Runs (contract cfg start) S)
    (h : Cancels g ws S) : Phases.Step (phases S.db) (phases (applyAll ws S.db)) := by
  obtain ⟨x, r, now, prior, credit, hx, hqueued, hr, ⟨e, he, y, hy, hprior⟩, rfl, hrel⟩ := h
  have hid := generation?_id hx
  have hz : r.id = x.reportId := report?_id hr
  -- the status the row was started from never changes
  have hsame : prior = x.priorReportStatus := by
    rw [← hprior]
    have hsame := (hruns.persists (lasting_generation hstart g)).same e he y x hy hx
    exact hsame.priorReportStatus.symm
  rw [phases_move (y := { x with status := .cancelled, cancelledAt := some now })
    (z := { r with status := prior }) hrel.tables hz]
  have hstep := Phases.Step.cancelled (phases_generation hx) hqueued
  rw [← hid] at hstep
  rw [hsame]
  exact hstep

/-- A failure is the step to FAILED, of the generation and of its report. -/
theorem Effect.fail_moves (h : Effect cfg t (.failGeneration g tok) ws S) (hne : ws ≠ [])
    (hpast : ∀ e ∈ S.trace, (phases e.before.db).Agreed) :
    Phases.Step (phases S.db) (phases (applyAll ws S.db)) := by
  obtain rfl | ⟨x, r, errorCode, message, now, read, hasOutput, credit, hx, howned, hr,
    ⟨newer, e, older, htr, hread, hkept⟩, -, -, rfl, hrel⟩ := h
  · exact absurd rfl hne
  have hid := generation?_id hx
  have hs := processing_of_owned howned
  have hz : r.id = x.reportId := report?_id hr
  -- a report with a generation under way has no output
  have hnone : hasOutput = false := by
    have hx' := hkept e (List.mem_append_right _ (List.mem_singleton.mpr rfl))
    have hag := hpast e (by simp [htr])
    obtain ⟨r', hr', hstatus⟩ := hag.report_processing hx' hs
    rw [reportWithOutput, hr', Option.map_some, Option.some.injEq, Prod.mk.injEq] at hread
    rw [← hread.2, List.any_eq_false]
    intro o ho
    rw [decide_eq_true_eq]
    intro hor
    have hready := (hag.ready x.reportId).mpr ⟨o.generationId, by
      simp [phases, mem_outputs.mp ho, hor]⟩
    rw [phases_report hr', hstatus] at hready
    cases hready
  rw [phases_move (y := x.ended errorCode message now) (z := r.failedAt cfg now hasOutput read)
    hrel.tables hz]
  have hstep := Phases.Step.failed (phases_generation hx) hs
  rw [← hid] at hstep
  rw [hnone]
  exact hstep

/-- After the publication the output is there. -/
theorem Effect.published_output (h : Effect cfg t (.finalizeSuccess g tok) ws S)
    {o : ReportOutput} {rest : List (Write Row Key)} (hws : ws = .insert (.output o) :: rest) :
    output? (applyAll ws S.db) o.generationId = some o := by
  obtain ⟨x, r, o', now, credit, -, -, -, -, -, -, -, -, -, hws', hconsumes⟩ := h
  rw [hws] at hws'
  simp only [List.cons.injEq, Write.insert.injEq, Row.output.injEq] at hws'
  obtain ⟨-, rfl⟩ := hws'
  rw [hws, applyAll_cons, output?_of_tables]
  · show output? (S.db.put (.output o)) o.generationId = some o
    rw [output?_put_output, if_pos rfl]
  · intro w hw
    simp only [List.mem_cons] at hw
    rcases hw with rfl | rfl | hw
    · simp [Write.target, key, Key.table]
    · simp [Write.target, key, Key.table]
    · rw [hconsumes.tables w hw]
      simp

/-- A publication is the step to COMPLETED and READY, with the output. -/
theorem Runs.finalize_moves (hstart : Begins start) (hruns : Runs (contract cfg start) S)
    (h : Effect cfg t (.finalizeSuccess g tok) ws S) :
    Phases.Step (phases S.db) (phases (applyAll ws S.db)) := by
  obtain ⟨x, r, o, now, credit, hx, howned, hr, hog, hor, -, hnone, -, hws, hgen, hreport⟩ :=
    Runs.finalized hstart hruns h
  have hid := generation?_id hx
  have hs := processing_of_owned howned
  have hphases : phases (applyAll ws S.db)
      = { (phases S.db).move g { x.job with status := .completed } .ready with
        output := update (phases S.db).output g (some x.job.reportId) } := by
    apply Phases.ext
    · funext i
      show (report? (applyAll ws S.db) i).map _ = update (phases S.db).report x.reportId _ i
      rw [hreport]
      by_cases hi : x.reportId = i
      · rw [if_pos hi, ← hi]
        simp [Report.published]
      · rw [if_neg hi, Function.update_of_ne (Ne.symm hi)]
        rfl
    · funext g'
      show (generation? (applyAll ws S.db) g').map _ = update (phases S.db).generation g _ g'
      by_cases hg : g' = g
      · rw [hg, hgen]
        simp [ReportGeneration.completed, ReportGeneration.job]
      · rw [Function.update_of_ne hg, h.generation_other rfl hg]
        rfl
    · funext g'
      show (output? (applyAll ws S.db) g').map _ = update (phases S.db).output g _ g'
      by_cases hg : g' = g
      · have hafter : output? (applyAll ws S.db) g = some o := by
          rw [← hog]
          exact h.published_output hws
        rw [hg, hafter]
        simp [hor, ReportGeneration.job]
      · rw [Function.update_of_ne hg, h.output_other rfl hg]
        rfl
  rw [hphases]
  exact .published (phases_generation hx) hs (by simp [phases, hnone])

/-- A start is the step that creates a queued generation. -/
theorem Effect.start_moves {u : Id} {k : String} (h : Effect cfg t (.start u r k g) ws S)
    (hne : ws ≠ []) : Phases.Step (phases S.db) (phases (applyAll ws S.db)) := by
  have hstarts : Starts cfg t u r k g ws S := h
  obtain ⟨z, user, hz, hgen⟩ := hstarts.row hne
  obtain ⟨rfl, -⟩ | ⟨z', user', credit, hws, hreserves, hnone, -, hz', -, hstatus, -⟩ := hstarts
  · exact absurd rfl hne
  rw [hz] at hz'
  cases hz'
  have hid := report?_id hz
  have hreport : ∀ i, report? (applyAll ws S.db) i
      = if z.id = i then some { z with status := .queued } else report? S.db i := by
    intro i
    rw [hws]
    apply report?_applyAll (x := { z with status := .queued })
    · intro w hw
      rcases List.mem_cons.mp hw with rfl | hw
      · simp [Write.target, key, Key.table]
      · intro heq
        have hmem := hreserves.tables w hw
        rw [heq] at hmem
        simp at hmem
    · rfl
    · simp
  have hphases : phases (applyAll ws S.db)
      = (phases S.db).move g ⟨r, .queued, z.status⟩ .queued := by
    apply Phases.ext
    · funext i
      show (report? (applyAll ws S.db) i).map _ = update (phases S.db).report r _ i
      rw [hreport, hid]
      by_cases hi : r = i
      · rw [if_pos hi, hi]
        simp
      · rw [if_neg hi, Function.update_of_ne (Ne.symm hi)]
        rfl
    · funext i
      show (generation? (applyAll ws S.db) i).map _ = update (phases S.db).generation g _ i
      by_cases hi : i = g
      · rw [hi, hgen]
        simp [newGeneration]
      · rw [Function.update_of_ne hi, h.generation_other rfl hi]
        rfl
    · funext i
      show (output? (applyAll ws S.db) i).map _ = (output? S.db i).map _
      rcases h.output i with hsame | hchange
      · rw [hsame]
      · generalize output? S.db i = before at hchange
        generalize output? (applyAll ws S.db) i = after at hchange
        cases hchange
  rw [hphases]
  refine .started ?_ (phases_report hz) hstatus rfl
  simp [phases, hnone]

/-- While a compensation is open and nothing crosses it, the generation it
read QUEUED stays QUEUED. -/
theorem Runs.still_queued (hstart : Begins start) (hruns : Runs (contract cfg start) S)
    {newer older : List REntry} {read : REntry} (htr : S.trace = newer ++ read :: older)
    {x : ReportGeneration} (hev : ∀ s ws, read.event ≠ .commit s ws)
    (hx : generation? read.before.db g = some x) (hqueued : x.status = .queued)
    (hopen : ∀ e ∈ newer, e.before.OpenAt t (.compensateQueueFailure g) 1)
    (hund : uncrossed S.trace = true) {y : ReportGeneration}
    (hy : generation? S.db g = some y) : y.status = .queued ∧
      ∀ e ∈ newer, ∃ z, generation? e.before.db g = some z ∧ z.status = .queued := by
  refine Runs.after (I := fun newer S => (∀ e ∈ newer,
      e.before.OpenAt t (.compensateQueueFailure g) 1) → uncrossed S.trace = true →
    ∀ y, generation? S.db g = some y → y.status = .queued ∧
      ∀ e ∈ newer, ∃ z, generation? e.before.db g = some z ∧ z.status = .queued)
    hstart.trace hruns htr ?_ ?_ hopen hund y hy
  · intro S₀ S₁ hpast _ _ _ y hy
    rw [hpast.db_eq hev, show S₀.db = read.before.db by rw [← hpast.scene], hx] at hy
    cases hy
    exact ⟨hqueued, by simp⟩
  · intro j S S' newer added hruns htr ih hm hadded hopen hund y hy
    have hread : Created S g :=
      (hruns.persists (lasting_generation hstart g)).seen read (by simp [htr]) x hx
    have hstill := ih (fun e he => hopen e (List.mem_append_right _ he))
      (uncrossed_of_suffix hm.trace_suffix hund)
    -- the entry a move adds was made where the row was still QUEUED
    have hbefore : ∀ z, generation? S.db g = some z →
        ∀ e ∈ added ++ newer, ∃ z, generation? e.before.db g = some z ∧ z.status = .queued := by
      intro z hz e he
      rcases List.mem_append.mp he with he | he
      · rw [hm.before_of_added hadded he]
        exact ⟨z, hz, (hstill z hz).1⟩
      · exact (hstill z hz).2 e he
    rcases hm.commit_or with ⟨s, ws, hC, -, rfl⟩ | ⟨hdb, -⟩
    · cases hz : generation? S.db g with
      | none =>
          obtain ⟨e, he, hi⟩ := hread
          exact absurd (hC.1.creates_generation hz hy S.toScene)
            (Runs.not_created_again hstart hruns hm he hi)
      | some z =>
          have hzq := (hstill z hz).1
          refine ⟨?_, hbefore z hz⟩
          have hmem : (⟨j, .commit s ws, S.toScene⟩ : REntry) ∈ added ++ newer := by
            have heq : added = [⟨j, .commit s ws, S.toScene⟩] := by
              have hcons : (⟨j, .commit s ws, S.toScene⟩ : REntry) :: S.trace
                  = added ++ S.trace := hadded
              rw [← List.singleton_append, List.append_cancel_right_eq] at hcons
              exact hcons.symm
            simp [heq]
          obtain ⟨o, ho, -, hsite, hdone⟩ := hopen _ hmem
          have hany : (S.opens.any fun o => o.site = .compensateQueueFailure g && 1 ≤ o.done)
              = true := List.any_eq_true.mpr ⟨o, ho, by simp [hsite, hdone]⟩
          have hnot : crossesCompensation ⟨j, .commit s ws, S.toScene⟩ = false := by
            have hall := List.all_eq_true.mp hund ⟨j, .commit s ws, S.toScene⟩ List.mem_cons_self
            simpa using hall
          have hprocessing : ∀ {tok}, z.ownedBy tok = true → False := by
            intro tok howned
            have hs := processing_of_owned howned
            rw [hzq] at hs
            cases hs
          by_cases hws : ws = []
          · rw [hws] at hy
            exact (hstill y hy).1
          rcases hC.1.generation g with hsame | hchange
          · rw [show generation? (S.commit j s ws).db g = _ from hsame, hz] at hy
            cases hy
            exact hzq
          rw [hz, show generation? (applyAll ws S.db) g = some y from hy] at hchange
          cases hchange with
          | enqueued _ _ _ => exact hzq
          | cancelled _ _ _ => simp [crossesCompensation, hany] at hnot
          | claimed _ _ _ _ _ =>
              cases ws with
              | nil => exact absurd rfl hws
              | cons w ws => simp [crossesCompensation, hany] at hnot
          | fenced _ _ _ _ _ howned _ => exact (hprocessing howned).elim
          | requeued _ _ _ howned => exact (hprocessing howned).elim
          | failed _ _ _ _ _ howned => exact (hprocessing howned).elim
          | completed _ _ _ howned => exact (hprocessing howned).elim
    · rw [hdb] at hy
      exact ⟨(hstill y hy).1, hbefore y hy⟩

/-- A compensation takes its generation back, if that was still queued. -/
theorem Runs.compensate_moves (hstart : Begins start) (hruns : Runs (contract cfg start) S)
    (h : Effect cfg t (.compensateQueueFailure g) ws S) (hne : ws ≠ [])
    (hag : (phases S.db).Agreed) (hpast : ∀ e ∈ S.trace, (phases e.before.db).Agreed)
    (hund : uncrossed S.trace = true) :
    Phases.Step (phases S.db) (phases (applyAll ws S.db)) := by
  have hgone := h.compensated hne
  have hcompensates : Compensates t g ws S := h
  obtain rfl | ⟨newer, older, read, x, y, credit, follow, removal, htr, -, hev, hopen, hx, hqueued,
    hws, hrel, hfollow, hy, hremoves⟩ := hcompensates
  · exact absurd rfl hne
  have hread : read ∈ S.trace := by simp [htr]
  obtain ⟨hyq, hall⟩ := Runs.still_queued hstart hruns htr (by simp [hev]) hx hqueued hopen hund hy
  have hpersists := hruns.persists (lasting_generation hstart g)
  have horigin : SameOrigin x y := hpersists.same read hread x y hx hy
  -- the report was QUEUED all along, so it is restored
  obtain ⟨z, hz, rfl⟩ : ∃ z, report? S.db x.reportId = some z ∧
      follow = [.update (.report { z with status := x.priorReportStatus })] := by
    rcases hfollow with ⟨z, hz, -, hfollow⟩ | ⟨-, e, he, hnot⟩
    · exact ⟨z, hz, hfollow⟩
    · exfalso
      obtain ⟨x', hx', hqueued'⟩ := hall e he
      have he' : e ∈ S.trace := by simp [htr, he]
      have hsame : x'.reportId = x.reportId :=
        Runs.sightings hstart hruns (lasting_generation hstart g)
          (fun _ _ h => SameOrigin.reportId h) he' hread hx' hx
      obtain ⟨z, hz, hs⟩ := Option.map_eq_some_iff.mp
        (((hpast e he').queued x.reportId).mpr ⟨g, x'.job, phases_generation hx', hsame, hqueued'⟩)
      exact hnot z hz hs
  have hid := report?_id hz
  have hreport : ∀ i, report? (applyAll ws S.db) i
      = if z.id = i then some { z with status := x.priorReportStatus } else report? S.db i := by
    intro i
    rw [hws, applyAll_append]
    rcases hremoves.report_cases (d := applyAll
      (credit ++ [.update (.report { z with status := x.priorReportStatus })]) S.db) i with
      hsame | ⟨-, hfalse⟩
    · rw [hsame]
      apply report?_applyAll (x := { z with status := x.priorReportStatus })
      · intro w hw heq
        have hmem := hrel.tables w hw
        rw [heq] at hmem
        simp at hmem
      · rfl
      · simp
    · exact hfalse.elim
  have hactive : y.status.active = true := by
    rw [hyq]
    rfl
  have hphases : phases (applyAll ws S.db)
      = { phases S.db with
        report := update (phases S.db).report y.job.reportId (some y.job.prior)
        generation := update (phases S.db).generation g none } := by
    apply Phases.ext
    · funext i
      show (report? (applyAll ws S.db) i).map _ = update (phases S.db).report y.reportId _ i
      rw [hreport, horigin.reportId, hid]
      by_cases hi : x.reportId = i
      · rw [if_pos hi, hi]
        simp [ReportGeneration.job, horigin.priorReportStatus]
      · rw [if_neg hi, Function.update_of_ne (Ne.symm hi)]
        rfl
    · funext i
      show (generation? (applyAll ws S.db) i).map _ = update (phases S.db).generation g _ i
      by_cases hi : i = g
      · rw [hi, hgone]
        simp
      · rw [Function.update_of_ne hi, h.generation_other rfl hi]
        rfl
    · funext i
      show (output? (applyAll ws S.db) i).map _ = (output? S.db i).map _
      by_cases hi : i = g
      · have hnone := hag.output_eq_none (g := g) (by simp [phases_generation hy,
          ReportGeneration.job, hactive])
        have hbefore : output? S.db g = none := by simpa [phases] using hnone
        rw [hi]
        rcases h.output g with hsame | hchange
        · rw [hsame]
        · rw [hbefore] at hchange ⊢
          generalize output? (applyAll ws S.db) g = after at hchange
          cases hchange
      · rw [h.output_other rfl hi]
  rw [hphases]
  exact .compensated (phases_generation hy) hyq

/-- A new report, with or without assets, is the step that creates one. -/
theorem moves_of_newReport {userId : Id} {title : String} {notes : Option String}
    {createdAt : Time} {rest : List (Write Row Key)} (hnone : report? d r = none)
    (hrest : ∀ w ∈ rest, w.target.table = .asset) :
    Phases.Step (phases d)
      (phases (applyAll (.insert (.report (newReport r userId title notes createdAt)) :: rest) d))
    := by
  have hother : ∀ {k : Key}, k.table ≠ .report → k.table ≠ .asset →
      (applyAll (.insert (.report (newReport r userId title notes createdAt)) :: rest) d).find? k
        = d.find? k := by
    intro k hreport hasset
    apply find?_applyAll_of_table
    intro w hw
    rcases List.mem_cons.mp hw with rfl | hw
    · exact Ne.symm hreport
    · rw [hrest w hw]
      exact Ne.symm hasset
  have hreport : ∀ i, report? (applyAll
      (.insert (.report (newReport r userId title notes createdAt)) :: rest) d) i
      = if r = i then some (newReport r userId title notes createdAt) else report? d i := by
    intro i
    exact report?_applyAll (l := []) (x := newReport r userId title notes createdAt) (by simp) rfl
      fun w hw => by rw [hrest w hw]; simp
  have hphases : phases (applyAll
      (.insert (.report (newReport r userId title notes createdAt)) :: rest) d)
      = { phases d with report := update (phases d).report r (some .draft) } := by
    apply Phases.ext
    · funext i
      show (report? (applyAll _ d) i).map _ = update (phases d).report r _ i
      rw [hreport]
      by_cases hi : r = i
      · rw [if_pos hi, hi]
        simp [newReport]
      · rw [if_neg hi, Function.update_of_ne (Ne.symm hi)]
        rfl
    · funext i
      show (generation? (applyAll _ d) i).map _ = (generation? d i).map _
      rw [generation?_congr (hother (by simp [Key.table]) (by simp [Key.table]))]
    · funext i
      show (output? (applyAll _ d) i).map _ = (output? d i).map _
      rw [output?_congr (hother (by simp [Key.table]) (by simp [Key.table]))]
  rw [hphases]
  exact .created (by simp [phases, hnone])

/-- A report is created as a draft. -/
theorem Effect.create_moves (h : Effect cfg t (.createReport r) ws S) :
    Phases.Step (phases S.db) (phases (applyAll ws S.db)) := by
  obtain ⟨userId, title, notes, createdAt, rfl, hnone, -⟩ := h
  exact moves_of_newReport hnone (by simp)

/-- So is a duplicate, whatever its source is. -/
theorem Effect.duplicate_moves (h : Effect cfg t (.duplicateReport r) ws S) :
    Phases.Step (phases S.db) (phases (applyAll ws S.db)) := by
  obtain ⟨userId, source, title, notes, createdAt, copies, rfl, hnone, -⟩ := h
  refine moves_of_newReport hnone fun w hw => ?_
  obtain ⟨c, -, rfl⟩ := List.mem_map.mp hw
  rfl

/-- A deleted report goes with its generations and outputs. -/
theorem Effect.delete_moves (h : Effect cfg t (.deleteReport r) ws S)
    (hag : (phases S.db).Agreed) : Phases.Step (phases S.db) (phases (applyAll ws S.db)) := by
  have hdeletes : Deletes r ws S := h
  obtain ⟨z, side, removal, hz, hnotq, hnotp, -, -, hws, herase, houtputs, -, hremoves⟩ := hdeletes
  have herased : ∀ {k : Key}, .erase k ∈ removal → (applyAll ws S.db).find? k = none := by
    intro k hmem
    rw [hws, applyAll_append]
    exact find?_applyAll_of_mem hremoves.nodup hmem
  have hphases : phases (applyAll ws S.db) = {
      report := update (phases S.db).report r none
      generation := fun g => ((phases S.db).generation g).filter fun j => j.reportId ≠ r
      output := fun g => ((phases S.db).output g).filter fun i => i ≠ r } := by
    apply Phases.ext
    · funext i
      show (report? (applyAll ws S.db) i).map _ = update (phases S.db).report r none i
      by_cases hi : i = r
      · rw [hi, report?_eq_none.mpr (herased herase)]
        simp
      · rw [Function.update_of_ne hi]
        rcases h.report i with hsame | hchange
        · rw [hsame]
          rfl
        · exfalso
          generalize report? S.db i = before at hchange
          generalize report? (applyAll ws S.db) i = after at hchange
          cases hchange
          exact hi rfl
    · funext g
      show (generation? (applyAll ws S.db) g).map _
        = ((phases S.db).generation g).filter fun j => j.reportId ≠ r
      cases hx : generation? S.db g with
      | none =>
          have hnone : (phases S.db).generation g = none := by simp [phases, hx]
          rw [hnone]
          rcases h.generation g with hsame | hchange
          · rw [hsame, hx]
            rfl
          · rw [hx] at hchange
            generalize generation? (applyAll ws S.db) g = after at hchange
            cases hchange
      | some x =>
          rw [phases_generation hx]
          by_cases hr : x.reportId = r
          · have hgone := herased (hremoves.complete g ⟨x, hx, hr⟩)
            rw [generation?_eq_none.mpr hgone, Option.filter_some]
            simp [ReportGeneration.job, hr]
          · rcases h.generation g with hsame | hchange
            · rw [hsame, hx, Option.filter_some]
              simp [ReportGeneration.job, hr]
            · exfalso
              rw [hx] at hchange
              generalize generation? (applyAll ws S.db) g = after at hchange
              cases hchange with
              | fenced _ _ _ _ hsite => rcases hsite with hs | hs | hs <;> cases hs
              | removed => exact hr rfl
    · funext g
      show (output? (applyAll ws S.db) g).map _
        = ((phases S.db).output g).filter fun i => i ≠ r
      cases ho : output? S.db g with
      | none =>
          have hnone : (phases S.db).output g = none := by simp [phases, ho]
          rw [hnone]
          rcases h.output g with hsame | hchange
          · rw [hsame, ho]
            rfl
          · rw [ho] at hchange
            generalize output? (applyAll ws S.db) g = after at hchange
            cases hchange
      | some o =>
          have hsome : (phases S.db).output g = some o.reportId := by simp [phases, ho]
          have hog := output?_generationId ho
          rw [hsome]
          by_cases hr : o.reportId = r
          · have hgone := herased (k := .output g)
              (hog ▸ houtputs o (mem_outputs.mpr (hog.symm ▸ ho)) hr)
            rw [output?_eq_none.mpr hgone, Option.filter_some]
            simp [hr]
          · rcases h.output g with hsame | hchange
            · rw [hsame, ho, Option.filter_some]
              simp [hr]
            · exfalso
              obtain ⟨j, hj, hjr, -⟩ := hag.output g _ hsome
              obtain ⟨x, hx, rfl⟩ := generation_of_phases hj
              rw [ho] at hchange
              generalize output? (applyAll ws S.db) g = after at hchange
              cases hchange with
              | removed _ _ hwhy =>
                  rcases hwhy with hor | ⟨x', hx', hxr⟩
                  · exact hr hor
                  · rw [hx] at hx'
                    cases hx'
                    exact hr (hjr.symm.trans hxr)
  rw [hphases]
  exact .deleted (phases_report hz) hnotq hnotp

-- ================================================================= the run

/-- A commit of an uncrossed run is one step of the machine, or moves
nothing. -/
theorem Runs.moves (hstart : Begins start) (hruns : Runs (contract cfg start) S)
    (h : Effect cfg t s ws S) (hag : (phases S.db).Agreed)
    (hpast : ∀ e ∈ S.trace, (phases e.before.db).Agreed) (hund : uncrossed S.trace = true) :
    phases (applyAll ws S.db) = phases S.db ∨
      Phases.Step (phases S.db) (phases (applyAll ws S.db)) := by
  by_cases hne : ws = []
  · exact Or.inl (by rw [hne]; rfl)
  cases hs : s.movesPhases with
  | false => exact Or.inl (h.phases_eq hs)
  | true =>
      apply Or.inr
      cases s with
      | start u r k g => exact h.start_moves hne
      | compensateQueueFailure g => exact Runs.compensate_moves hstart hruns h hne hag hpast hund
      | cancel g => exact Runs.cancel_moves hstart hruns h
      | claim g tok => exact Claims.moves h.1 hne hpast
      | prepareRetry g tok => exact Requeues.moves h hne hpast
      | failGeneration g tok => exact h.fail_moves hne hpast
      | finalizeSuccess g tok => exact Runs.finalize_moves hstart hruns h
      | createReport r => exact h.create_moves
      | duplicateReport r => exact h.duplicate_moves
      | deleteReport r => exact h.delete_moves hag
      | _ => cases hs

/-- Every moment of an uncrossed run shows a run of the machine. -/
theorem Runs.phases_run (hstart : Begins start) (h : Runs (contract cfg start) S)
    (hund : uncrossed S.trace = true) :
    (phases S.db).Run ∧ ∀ e ∈ S.trace, (phases e.before.db).Run := by
  refine h.invariant (I := fun S => uncrossed S.trace = true → (phases S.db).Run ∧
    ∀ e ∈ S.trace, (phases e.before.db).Run) ?_ ?_ hund
  · intro _
    constructor
    · have hempty : phases start.db = Phases.empty := by
        have hnone : ∀ {k : Key}, k.table ≠ .user → k.table ≠ .subscription →
            start.db.find? k = none := hstart.unused.find?_eq_none
        apply Phases.ext <;> funext i
        · simp [phases, Phases.empty,
            report?_eq_none.mpr (hnone (k := .report i) (by simp [Key.table])
              (by simp [Key.table]))]
        · simp [phases, Phases.empty, generation?_eq_none.mpr
            (hnone (k := .generation i) (by simp [Key.table]) (by simp [Key.table]))]
        · simp [phases, Phases.empty,
            output?_eq_none.mpr (hnone (k := .output i) (by simp [Key.table])
              (by simp [Key.table]))]
      show (phases start.db).Run
      rw [hempty]
      exact .refl
    · intro e he
      rw [show (contract cfg start).start.trace = [] from hstart.trace] at he
      cases he
  · intro j S S' hruns ih hm hund
    obtain ⟨hrun, hpast⟩ := ih (uncrossed_of_suffix hm.trace_suffix hund)
    constructor
    · rcases hm.commit_or with ⟨s, ws, hC, -, rfl⟩ | ⟨hdb, -⟩
      · rcases Runs.moves hstart hruns hC.1 hrun.agreed (fun e he => (hpast e he).agreed)
          (uncrossed_of_suffix hm.trace_suffix hund) with hsame | hstep
        · show (phases (applyAll ws S.db)).Run
          rw [hsame]
          exact hrun
        · exact hrun.tail hstep
      · rw [hdb]
        exact hrun
    · intro e he
      rcases hm.mem_trace he with he | he
      · exact hpast e he
      · rw [he]
        exact hrun

/-- As long as no generation leaves QUEUED while a compensation of it is
open, the reports and generations of a reached state are those of a run of
the lifecycle machine, and every step is one step of it or moves nothing. -/
theorem lifecycle_refined (cfg : Config) (w : RWorld) (h : Reached cfg w)
    (hund : uncrossed w.shared.trace = true) :
    (phases w.shared.db).Run ∧ ∀ a w', w.apply (app cfg) a = some w' →
      phases w'.shared.db = phases w.shared.db ∨
        Phases.Step (phases w.shared.db) (phases w'.shared.db) := by
  constructor
  · obtain ⟨start, hstart, hruns⟩ := h.runs
    exact (Runs.phases_run hstart hruns hund).1
  · intro a w' hstep
    rcases World.apply_commit_or hstep with hdb | ⟨t, s, ws, hcommit⟩
    · exact Or.inl (congrArg phases hdb)
    · obtain ⟨start, hstart, hruns'⟩ := (h.next hstep).runs
      rw [hcommit] at hruns'
      obtain ⟨hruns, hC, -⟩ := hruns'.newest hstart.trace
      obtain ⟨hrun, hpast⟩ := Runs.phases_run hstart hruns hund
      rw [hcommit]
      exact Runs.moves hstart hruns hC.1 hrun.agreed (fun e he => (hpast e he).agreed) hund

/-- Such a state: a generation was started and cancelled before it was put
on the queue. -/
theorem lifecycle_refined_cancelled : ∃ w x, Reached defaults w ∧
    generation? w.shared.db 12 = some x ∧ x.status = .cancelled ∧
    uncrossed w.shared.trace = true ∧ (phases w.shared.db).Run := by
  have hrun : (sampleWorld.runAll (app defaults) generationCancelled).any (fun w =>
      (generation? w.shared.db 12).any (fun x => x.status = .cancelled)
        && uncrossed w.shared.trace) = true := by
    decide +kernel
  obtain ⟨w, hw, hp⟩ := exists_reached hrun
  simp only [Bool.and_eq_true, Option.any_eq_true, decide_eq_true_eq] at hp
  obtain ⟨⟨x, hx, hstatus⟩, hund⟩ := hp
  exact ⟨w, x, hw, hx, hstatus, hund, (lifecycle_refined defaults w hw hund).1⟩

/-- The statuses of a report's generations are those of its jobs. -/
theorem mem_statusesOf {status : ReportGenerationStatus} :
    status ∈ statusesOf d i ↔ (phases d).Has i status := by
  unfold statusesOf
  simp only [List.mem_map, List.mem_filter, decide_eq_true_eq]
  constructor
  · rintro ⟨x, ⟨hx, hi⟩, hs⟩
    exact ⟨x.id, x.job, phases_generation (mem_generations.mp hx), hi, hs⟩
  · rintro ⟨g, j, hj, hi, hs⟩
    obtain ⟨x, hx, rfl⟩ := generation_of_phases hj
    refine ⟨x, ⟨mem_generations.mpr ?_, hi⟩, hs⟩
    rw [generation?_id hx]
    exact hx

/-- What a report shows, its generations are in, and a READY report has an
output. -/
structure StatusesAgree (d : Db Row) : Prop where
  queued : ∀ i x, report? d i = some x → (x.status = .queued ↔ .queued ∈ statusesOf d i)
  processing : ∀ i x, report? d i = some x →
    (x.status = .processing ↔ .processing ∈ statusesOf d i)
  ready : ∀ i x, report? d i = some x → (x.status = .ready ↔ ∃ o ∈ outputs d, o.reportId = i)
  one : ∀ x ∈ generations d, ∀ y ∈ generations d, x.reportId = y.reportId →
    x.status.active = true → y.status.active = true → x = y

/-- Rows whose phases agree do. -/
theorem StatusesAgree.of_agreed (h : (phases d).Agreed) : StatusesAgree d where
  queued i x hx := by
    rw [mem_statusesOf, Phases.Has, ← h.queued i, phases_report hx, Option.some.injEq]
  processing i x hx := by
    rw [mem_statusesOf, Phases.Has, ← h.processing i, phases_report hx, Option.some.injEq]
  ready i x hx := by
    have hready := h.ready i
    rw [phases_report hx, Option.some.injEq] at hready
    rw [hready]
    constructor
    · rintro ⟨g, ho⟩
      obtain ⟨o, ho, hi⟩ := Option.map_eq_some_iff.mp ho
      refine ⟨o, mem_outputs.mpr ?_, hi⟩
      rw [output?_generationId ho]
      exact ho
    · rintro ⟨o, ho, hi⟩
      exact ⟨o.generationId, Option.map_eq_some_iff.mpr ⟨o, mem_outputs.mp ho, hi⟩⟩
  one x hx y hy hsame hactive hactive' := by
    have hx := mem_generations.mp hx
    have hy := mem_generations.mp hy
    have hid := h.one x.id y.id x.job y.job (phases_generation hx) (phases_generation hy) hsame
      hactive hactive'
    rw [hid] at hx
    exact Option.some.inj (hx.symm.trans hy)

/-- So they agree in every reached state, as long as nothing crosses a
compensation. -/
theorem statuses_agree (h : Reached cfg w) (hund : uncrossed w.shared.trace = true) :
    StatusesAgree w.shared.db := by
  obtain ⟨start, hstart, hruns⟩ := h.runs
  exact .of_agreed (Runs.phases_run hstart hruns hund).1.agreed

/-- The statuses agree where a report was published and duplicated. -/
theorem statuses_agree_published : ∃ w x, Reached defaults w ∧
    report? w.shared.db 10 = some x ∧ x.status = .ready ∧ StatusesAgree w.shared.db := by
  have hrun : (sampleWorld.runAll (app defaults) reportDuplicated).any (fun w =>
      (report? w.shared.db 10).any (fun x => x.status = .ready)
        && uncrossed w.shared.trace) = true := by
    decide +kernel
  obtain ⟨w, hw, hp⟩ := exists_reached hrun
  simp only [Bool.and_eq_true, Option.any_eq_true, decide_eq_true_eq] at hp
  obtain ⟨⟨x, hx, hready⟩, hund⟩ := hp
  exact ⟨w, x, hw, hx, hready, statuses_agree hw hund⟩

/-- Generation 12 of report 10 is cancelled when its compensation has read it
as QUEUED, and generation 13 is started before the compensation goes on. -/
def compensationCrossed : List (Action Req Choice) :=
  reportCreated ++ .spawn 3 (.createGeneration 1 10 "k") :: steps 3 5
    ++ .answer 3 (.failed (.other "queue")) :: steps 3 2
    ++ .spawn 4 (.cancelGeneration 1 10 12) :: steps 4 3 ++ .answer 4 .done :: steps 4 13
    ++ .spawn 5 (.createGeneration 1 10 "l") :: steps 5 5 ++ .answer 5 .done :: steps 5 5
    ++ steps 3 6

/-- The compensation then puts the report back to DRAFT, while generation 13
of it is QUEUED. -/
theorem statuses_disagree : ∃ w, Reached defaults w ∧ ¬ StatusesAgree w.shared.db := by
  have hrun : (sampleWorld.runAll (app defaults) compensationCrossed).any (fun w =>
      (report? w.shared.db 10).any (fun x => x.status = .draft)
        && statusesOf w.shared.db 10 == [.queued]) = true := by
    decide +kernel
  obtain ⟨w, hw, hp⟩ := exists_reached hrun
  simp only [Bool.and_eq_true, Option.any_eq_true, decide_eq_true_eq, beq_iff_eq] at hp
  obtain ⟨⟨x, hx, hdraft⟩, hstatuses⟩ := hp
  refine ⟨w, hw, fun h => ?_⟩
  have hqueued := (h.queued 10 x hx).mpr (by rw [hstatuses]; exact List.mem_singleton_self _)
  rw [hdraft] at hqueued
  cases hqueued

/-- Then the status of a report is a function of those of its generations:
it waits or runs with the one active generation, is ready once one
completed, and else shows whether one failed. The completed generations are
those with an output. -/
theorem lifecycles_agree (cfg : Config) (w : RWorld) (h : Reached cfg w)
    (hund : uncrossed w.shared.trace = true) :
    (∀ i x, report? w.shared.db i = some x →
      x.status = shownStatus (statusesOf w.shared.db i)) ∧
    (∀ g g' x x', generation? w.shared.db g = some x → generation? w.shared.db g' = some x' →
      x.reportId = x'.reportId → x.status.active = true → x'.status.active = true → g = g') ∧
    ∀ g, (output? w.shared.db g).isSome = true ↔
      ∃ x, generation? w.shared.db g = some x ∧ x.status = .completed := by
  obtain ⟨start, hstart, hruns⟩ := h.runs
  have hrun := (Runs.phases_run hstart hruns hund).1
  refine ⟨?_, ?_, fun g => ⟨?_, ?_⟩⟩
  · intro i x hx
    exact hrun.shown (phases_report hx) fun s => mem_statusesOf
  · intro g g' x x' hx hx' hsame hactive hactive'
    exact hrun.agreed.one g g' x.job x'.job (phases_generation hx) (phases_generation hx') hsame
      hactive hactive'
  · intro ho
    obtain ⟨o, ho⟩ := Option.isSome_iff_exists.mp ho
    obtain ⟨j, hj, -, hs⟩ := hrun.agreed.output g o.reportId (by simp [phases, ho])
    obtain ⟨x, hx, rfl⟩ := generation_of_phases hj
    exact ⟨x, hx, hs⟩
  · rintro ⟨x, hx, hs⟩
    have hout := hrun.rested.completed g x.job (phases_generation hx) hs
    obtain ⟨o, ho, -⟩ := Option.map_eq_some_iff.mp hout
    simp [ho]

/-- A report whose one generation was cancelled shows what it did before. -/
theorem lifecycles_agree_cancelled : ∃ w x, Reached defaults w ∧
    report? w.shared.db 10 = some x ∧ statusesOf w.shared.db 10 = [.cancelled] ∧
    x.status = shownStatus [.cancelled] := by
  have hrun : (sampleWorld.runAll (app defaults) generationCancelled).any (fun w =>
      (report? w.shared.db 10).isSome && statusesOf w.shared.db 10 == [.cancelled]
        && uncrossed w.shared.trace) = true := by
    decide +kernel
  obtain ⟨w, hw, hp⟩ := exists_reached hrun
  simp only [Bool.and_eq_true, beq_iff_eq] at hp
  obtain ⟨⟨hx, hstatuses⟩, hund⟩ := hp
  obtain ⟨x, hx⟩ := Option.isSome_iff_exists.mp hx
  refine ⟨w, x, hw, hx, hstatuses, ?_⟩
  rw [← hstatuses]
  exact (lifecycles_agree defaults w hw hund).1 10 x hx

end FastRep.Reports
