/-
What the runs of the worker may do, and when a delivery is over.

# Writes

A run writes to the lifecycle only while the row of its generation holds
the token the run drew, so a run that has lost its claim changes nothing
(`run_writes_fenced`). `OwnRow` are the rows that belong to a generation: its
own, its report, its output, and what it moves of the credits. The claim is
the one write that finds another token or none. Attempts and transcriptions
are no part of the lifecycle here; `Fencing.lean` is about these.

# Deliveries

A delivery that is acknowledged leaves its generation ended or deleted,
and so it stays; the one exception is a run that lost its claim and then
found the generation QUEUED again, which is acknowledged all the same
(`delivery_settles`). What a run saw when it answered is in the contract
(`Completed`); that a generation which was seen neither PROCESSING nor QUEUED
is over is the part that needs the run: jobs are of generations that were
created (`Runs.jobs_created`), and what has ended does not start again.

# Stranded deliveries

The exception above strands its generation: the queue forgets the job, and a
generation that is QUEUED without a job waits for ever. So does an answer to
the last delivery that comes with a transaction rolled back. `strands` names
the two for the log, and without them every delivery the queue has no more of
left its generation over (`deliveries_unstranded`). `delivery_stranded` is a
run of the first kind.
-/
import FastRep.Reports.Proofs.Calls
import FastRep.Reports.Proofs.CreditBooks
import FastRep.Reports.Proofs.Endings
import FastRep.Reports.Proofs.Publication

namespace FastRep.Reports

open FastRep.Txn FastRep.Accounts

variable {cfg : Config} {start S S' : RState} {t : Tid} {s : Site} {ws : List (Write Row Key)}
  {w : RWorld} {g tok a m : Id}

-- ============================================================= own writes

/-- The tables that make up the lifecycle of a generation. -/
def Table.lifecycle : Table → Bool
  | .generation | .report | .output | .grant | .ledger => true
  | _ => false

/-- The rows of the lifecycle a run of the generation may write: the
generation and its report and output, the entries that settle its credit,
and the grant the credit came from. -/
def OwnRow (x : ReportGeneration) (d : Db Row) : Key → Prop
  | .generation i => i = x.id
  | .report i => i = x.reportId
  | .output i => i = x.id
  | .grant i => (books d).reserved x.id = some i
  | .ledger k => k = .generation x.id .consume ∨ k = .generation x.id .release
  | _ => True

/-- Closing an attempt is no write to the lifecycle. -/
theorem Closes.off_lifecycle {id : AttemptKey} {status : GenerationProviderAttemptStatus}
    (h : Closes id status ws S) : ∀ w ∈ ws, w.target.table.lifecycle = false := by
  intro w hw
  rw [h.tables w hw]
  rfl

/-- What follows a change of a generation is a write to its own report. -/
theorem Follows.own {x : ReportGeneration} {p : Report → Bool} {status : ReportStatus}
    (h : Follows x p status ws S) (d : Db Row) : ∀ w ∈ ws, OwnRow x d w.target := by
  intro w hw
  rcases h with ⟨r, hr, -, rfl⟩ | ⟨rfl, -⟩
  · cases List.mem_singleton.mp hw
    exact (report?_id hr : r.id = x.reportId)
  · cases hw

/-- The reservation is given back to the grant it was made on. -/
theorem Releases.own (hstart : Begins start) (hS : Honest cfg start S) {x : ReportGeneration}
    (h : Releases x.id ws S) (hmatch : ∀ l, .insert (.ledger l) ∈ ws → Matches x.id l S) :
    ∀ w ∈ ws, OwnRow x S.db w.target := by
  intro w hw
  rcases h with ⟨rfl, -⟩ | ⟨y, l, rfl, -, -, hentry, hgrant, -⟩
  · cases hw
  · obtain ⟨i, hi, hreserved⟩ := hS.reserved_of_matches hstart (hmatch l (by simp))
    simp only [List.mem_cons, List.not_mem_nil, or_false] at hw
    rcases hw with rfl | rfl
    · rw [hgrant] at hi
      cases hi
      exact hreserved
    · exact Or.inr hentry.idempotencyKey

/-- Consuming a credit is no write to the lifecycle of another generation. -/
theorem Consumes.own {x : ReportGeneration} (h : Consumes x.id ws S) (d : Db Row) :
    ∀ w ∈ ws, OwnRow x d w.target := by
  intro w hw
  rcases h with ⟨rfl, -⟩ | ⟨l, rfl, hentry, -⟩
  · cases hw
  · cases List.mem_singleton.mp hw
    exact Or.inl hentry.idempotencyKey

/-- A commit of a run writes to the lifecycle of its own generation only,
which it claims or holds. -/
theorem Honest.own_writes (hstart : Begins start) (hS : Honest cfg start S)
    (h : Effect cfg t s ws S) (hcredit : Credited t s ws S) (hsite : s.ofRun g tok = true)
    {wr : Write Row Key} (hw : wr ∈ ws) (hlife : wr.target.table.lifecycle = true) :
    ∃ x, generation? S.db g = some x ∧ OwnRow x S.db wr.target ∧
      ((s = .claim g tok ∧ ∃ now, x.claimable now = true) ∨ x.ownedBy tok = true) := by
  have htable := h.tables wr hw
  have hfenced : Fenced g tok ws S → ∃ x, generation? S.db g = some x ∧
      OwnRow x S.db wr.target ∧
      ((s = .claim g tok ∧ ∃ now, x.claimable now = true) ∨ x.ownedBy tok = true) := by
    rintro (rfl | ⟨x, y, side, hx, howned, hcore, hside, rfl⟩)
    · cases hw
    · refine ⟨x, hx, ?_, Or.inr howned⟩
      rcases List.mem_append.mp hw with hw | hw
      · rcases hside with rfl | ⟨id, -, hcloses⟩
        · cases hw
        · rw [hcloses.off_lifecycle wr hw] at hlife
          cases hlife
      · cases List.mem_singleton.mp hw
        exact hcore.id
  cases s with
  | claim g' tok' =>
      simp only [Site.ofRun, Bool.and_eq_true, decide_eq_true_eq] at hsite
      obtain ⟨rfl, rfl⟩ := hsite
      obtain ⟨rfl | ⟨x, now, leaseExpiresAt, follow, hx, hclaimable, rfl, hfollow⟩, -⟩ := h
      · cases hw
      · refine ⟨x, hx, ?_, Or.inl ⟨rfl, now, hclaimable⟩⟩
        rcases List.mem_cons.mp hw with rfl | hw
        · rfl
        · exact hfollow.own S.db wr hw
  | updateProgress g' tok' | persistReportResult g' tok' | renewLease g' tok' =>
      simp only [Site.ofRun, Bool.and_eq_true, decide_eq_true_eq] at hsite
      obtain ⟨rfl, rfl⟩ := hsite
      exact hfenced h
  | prepareRetry g' tok' =>
      simp only [Site.ofRun, Bool.and_eq_true, decide_eq_true_eq] at hsite
      obtain ⟨rfl, rfl⟩ := hsite
      obtain rfl | ⟨x, errorCode, follow, hx, howned, rfl, hfollow⟩ := h
      · cases hw
      · refine ⟨x, hx, ?_, Or.inr howned⟩
        rcases List.mem_cons.mp hw with rfl | hw
        · rfl
        · exact hfollow.own S.db wr hw
  | failGeneration g' tok' =>
      simp only [Site.ofRun, Bool.and_eq_true, decide_eq_true_eq] at hsite
      obtain ⟨rfl, rfl⟩ := hsite
      obtain rfl | ⟨x, r, errorCode, message, now, read, hasOutput, credit, hx, howned, hr, -, -, -,
        rfl, hrel⟩ := h
      · cases hw
      · refine ⟨x, hx, ?_, Or.inr howned⟩
        have hid := generation?_id hx
        rw [← hid] at hrel
        simp only [List.mem_cons] at hw
        rcases hw with rfl | rfl | hw
        · rfl
        · exact (report?_id hr : r.id = x.reportId)
        · refine hrel.own hstart hS (fun l hl => ?_) wr hw
          rw [hid]
          exact hcredit.1 l (List.mem_cons_of_mem _ (List.mem_cons_of_mem _ hl))
  | finalizeSuccess g' tok' =>
      simp only [Site.ofRun, Bool.and_eq_true, decide_eq_true_eq] at hsite
      obtain ⟨rfl, rfl⟩ := hsite
      obtain ⟨x, r, o, now, credit, hx, howned, -, hog, hor, -, -, -, hws, -⟩ :=
        Runs.finalized hstart hS.runs h
      obtain ⟨x', r', o', now', credit', hx', -, hr', -, hor', -, -, -, -, hws', hconsumes⟩ := h
      refine ⟨x, hx, ?_, Or.inr howned⟩
      rw [hx] at hx'
      cases hx'
      have hsame := hws.symm.trans hws'
      simp only [List.cons.injEq, Write.insert.injEq, Row.output.injEq] at hsame
      obtain ⟨rfl, -, -, rfl⟩ := hsame
      have hid := generation?_id hx
      rw [hws'] at hw
      simp only [List.mem_cons] at hw
      rcases hw with rfl | rfl | rfl | hw
      · exact hog.trans hid.symm
      · rfl
      · exact (hor'.symm.trans hor : r'.id = x.reportId)
      · rw [← hid] at hconsumes
        exact hconsumes.own S.db wr hw
  | _ =>
      revert hlife
      cases hkey : wr.target.table <;> rw [hkey] at htable <;>
        simp [Site.tables, Site.ofRun, Table.lifecycle] at htable hsite ⊢

/-- A commit of the trace was made at a site of its thread. If that is one of
a run, what it wrote to the lifecycle is of the run's own generation, which
it claimed or held. -/
theorem Honest.site_writes (hstart : Begins start) (hS : Honest cfg start S)
    {newer older : List REntry} {e : REntry} (htr : S.trace = newer ++ e :: older)
    (hev : e.event = .commit s ws) :
    (stateBefore e older).asked e.tid = S.asked e.tid ∧ RunSite (stateBefore e older) e.tid s ∧
      ∀ {g tok : Id}, s.ofRun g tok = true → ∀ wr ∈ ws, wr.target.table.lifecycle = true →
        ∃ x, generation? e.before.db g = some x ∧ OwnRow x e.before.db wr.target ∧
          ((s = .claim g tok ∧ ∃ now, x.claimable now = true) ∨ x.ownedBy tok = true) := by
  obtain ⟨S₀, S₁, hpast, rfl⟩ := hS.runs.at hstart.trace htr
  have hstate : stateBefore e S₀.trace = S₀ := by
    unfold stateBefore
    rw [← hpast.scene]
  obtain ⟨⟨heff, hsite⟩, hS₁⟩ := hpast.commit hev
  have hkeeps : (S₀.commit e.tid s ws).Keeps Credited := by
    rw [← hS₁]
    exact hS.keeps.of_suffix (hpast.trace ▸ hpast.suffix)
  have hS₀ : Honest cfg start S₀ := ⟨hpast.runs, hkeeps.of_suffix (List.suffix_cons _ _)⟩
  rw [hstate]
  refine ⟨hpast.asked (by simp [hev]), hsite, fun hrun wr hw hlife => ?_⟩
  rw [← hpast.scene]
  exact hS₀.own_writes hstart heff hkeeps.last hrun hw hlife

/-- What a run has committed to the lifecycle, it committed to its own
generation, which it claimed or held. -/
theorem Honest.run_writes (hstart : Begins start) (hS : Honest cfg start S)
    {newer older : List REntry} {e : REntry} (htr : S.trace = newer ++ e :: older)
    (hev : e.event = .commit s ws) (hasked : S.asked e.tid = [.process g a m])
    {wr : Write Row Key} (hw : wr ∈ ws) (hlife : wr.target.table.lifecycle = true) :
    ∃ tok x, (stateBefore e older).ids e.tid = [tok] ∧
      generation? e.before.db g = some x ∧ OwnRow x e.before.db wr.target ∧
      ((s = .claim g tok ∧ ∃ now, x.claimable now = true) ∨ x.ownedBy tok = true) := by
  obtain ⟨hsame, hsite, hwrites⟩ := hS.site_writes hstart htr hev
  obtain ⟨tok, hids, hrun⟩ := hsite.own g a m (hsame.trans hasked)
  obtain ⟨x, hx⟩ := hwrites hrun wr hw hlife
  exact ⟨tok, x, hids, hx⟩

/-- Whatever a run of the worker commits to the lifecycle, it commits to its
own generation, and while the row there holds exactly the token it drew;
only the claim comes before that. -/
theorem run_writes_fenced (cfg : Config) (w : RWorld) (h : Reached cfg w) {g a m : Id} :
    ∀ newer e older s ws, w.shared.trace = newer ++ e :: older → e.event = .commit s ws →
      w.shared.asked e.tid = [.process g a m] → ∀ wr ∈ ws, wr.target.table.lifecycle = true →
      ∃ tok x, (stateBefore e older).ids e.tid = [tok] ∧
        generation? e.before.db g = some x ∧ OwnRow x e.before.db wr.target ∧
        ((s = .claim g tok ∧ ∃ now, x.claimable now = true) ∨ x.ownedBy tok = true) := by
  intro newer e older s ws htr hev hasked wr hw hlife
  obtain ⟨start, hstart, hS⟩ := h.honest
  exact hS.run_writes hstart htr hev hasked hw hlife

/-- The last entry of a trace, if the run of a generation has just completed
it. -/
def justFinalized (g : Id) : List REntry → Bool
  | ⟨_, .commit (.finalizeSuccess i _) (_ :: _), _⟩ :: _ => i = g
  | _ => false

theorem justFinalized_eq {entries : List REntry} (h : justFinalized g entries = true) :
    ∃ e older tok w ws, entries = e :: older ∧
      e.event = .commit (.finalizeSuccess g tok) (w :: ws) := by
  unfold justFinalized at h
  split at h
  next => exact ⟨_, _, _, _, _, rfl, by rw [of_decide_eq_true h]⟩
  next => cases h

/-- A publication was made under the token of its run. -/
theorem run_writes_fenced_finalized : ∃ w e older tok x, Reached defaults w ∧
    w.shared.trace = e :: older ∧ (stateBefore e older).ids e.tid = [tok] ∧
    generation? e.before.db 12 = some x ∧ x.ownedBy tok = true := by
  have hrun : (sampleWorld.runAll (app defaults) (outputStored ++ steps 4 13)).any (fun w =>
      justFinalized 12 w.shared.trace &&
        (w.shared.trace.head?.map (·.tid)).any (w.shared.asked · = [.process 12 1 1])) = true := by
    decide +kernel
  obtain ⟨w, hw, hp⟩ := exists_reached hrun
  obtain ⟨hfinal, hasked⟩ := (Bool.and_eq_true _ _).mp hp
  obtain ⟨e, older, tok, wr, ws, htr, hev⟩ := justFinalized_eq hfinal
  simp only [htr, List.head?_cons, Option.map_some, Option.any_some, decide_eq_true_eq] at hasked
  have hlife : wr.target.table.lifecycle = true := by
    obtain ⟨start, hstart, hruns⟩ := hw.runs
    obtain ⟨S₀, S₁, hpast⟩ := Runs.since hstart.trace hruns (e := e) (by simp [htr])
    have htable := (hpast.commit hev).1.1.tables wr List.mem_cons_self
    simp only [Site.tables, List.mem_cons, List.not_mem_nil, or_false] at htable
    rcases htable with h | h | h | h <;> rw [h] <;> rfl
  obtain ⟨tok', x, hids, hx, -, hclaim⟩ := run_writes_fenced defaults w hw [] e older _ _ htr hev
    hasked wr List.mem_cons_self hlife
  refine ⟨w, e, older, tok', x, hw, htr, hids, hx, ?_⟩
  rcases hclaim with ⟨hsite, -⟩ | howned
  · cases hsite
  · exact howned

-- ============================================================== deliveries

/-- A generation that was seen was created in the run. -/
theorem Existed.created (hstart : Begins start) (h : Runs (contract cfg start) S)
    (hexisted : Existed S g) : Created S g := by
  obtain ⟨e, he, hstored | ⟨u, r, k, ws, hev, hne⟩⟩ := hexisted
  · obtain ⟨x, hx⟩ := Option.isSome_iff_exists.mp hstored
    exact (h.persists (lasting_generation hstart g)).seen e he x hx
  · refine ⟨e, he, ?_⟩
    unfold creates
    rw [hev]
    cases ws with
    | nil => exact absurd rfl hne
    | cons w ws => exact List.mem_singleton_self g

/-- Jobs are of generations that were created, and so are the runs that take
them from the queue. -/
structure JobsCreated (S : RState) : Prop where
  queued : ∀ g ∈ S.env.jobs, Created S g
  taken : ∀ e ∈ S.trace, ∀ g a m, e.event = .spawn (.process g a m) → Created S g

/-- Every job in the queue is that of a generation that was created. -/
theorem Runs.jobs_created (hstart : Begins start) (h : Runs (contract cfg start) S) :
    JobsCreated S := by
  refine h.invariant (I := JobsCreated) ⟨?_, ?_⟩ ?_
  · intro g hg
    rw [show (contract cfg start).start.env = ⟨[], [], []⟩ from hstart.env] at hg
    cases hg
  · intro e he
    rw [show (contract cfg start).start.trace = [] from hstart.trace] at he
    cases he
  · intro j S S' hruns ih hm
    have hqueued : ∀ g ∈ S.env.jobs, Created S' g :=
      fun g hg => (ih.queued g hg).mono hm.trace_suffix
    have htaken : ∀ e ∈ S.trace, ∀ g a m, e.event = .spawn (.process g a m) → Created S' g :=
      fun e he g a m hev => (ih.taken e he g a m hev).mono hm.trace_suffix
    -- what is logged, unless it is a spawn, takes no job
    have hlogged : ∀ {ev}, (∀ q, ev ≠ .spawn q) →
        ∀ e ∈ (⟨j, ev, S.toScene⟩ : REntry) :: S.trace, ∀ g a m,
          e.event = .spawn (.process g a m) → Created S' g := by
      intro ev hspawn e he g a m hev
      rcases List.mem_cons.mp he with rfl | he
      · exact absurd hev (hspawn _)
      · exact htaken e he g a m hev
    cases hm with
    | spawned q _ harrives _ =>
        refine ⟨hqueued, fun e he g a m hev => ?_⟩
        rcases List.mem_cons.mp he with rfl | he
        · cases hev
          simp only [contract, ready, Bool.and_eq_true, decide_eq_true_eq] at harrives
          exact hqueued g harrives.1.1
        · exact htaken e he g a m hev
    | answered x c answer env hperform hcall =>
        refine ⟨fun g hg => ?_, hlogged (by simp)⟩
        rcases job_of_perform hperform hg with hold | rfl
        · exact hqueued g hold
        · have hexisted : Existed S g := hcall
          exact (hexisted.created hstart hruns).mono (List.suffix_cons _ _)
    | ambient c env hambient =>
        obtain ⟨k, bytes, -, rfl, -⟩ := ambient_cases hambient
        exact ⟨hqueued, hlogged (by simp)⟩
    | ticked n => exact ⟨hqueued, htaken⟩
    | _ => exact ⟨hqueued, hlogged (by simp)⟩

theorem Runs.asked_created (hstart : Begins start) (h : Runs (contract cfg start) S)
    (hasked : S.asked t = [.process g a m]) : Created S g := by
  have hmem : Req.process g a m ∈ S.asked t := hasked ▸ List.mem_singleton.mpr rfl
  obtain ⟨e, he, hspawn⟩ := List.mem_filterMap.mp hmem
  split at hspawn
  next q hev =>
      split at hspawn
      · cases hspawn
        exact (Runs.jobs_created hstart h).taken e he g a m hev
      · cases hspawn
  next => cases hspawn

/-- A run that found its generation neither PROCESSING nor QUEUED found it
over. -/
theorem Runs.over_of_read (hstart : Begins start) (h : Runs (contract cfg start) S) {e : REntry}
    (he : e ∈ S.trace) (hasked : S.asked e.tid = [.process g a m])
    (hspawn : ∀ q, e.event ≠ .spawn q) (hcommit : ∀ s ws, e.event ≠ .commit s ws)
    (hread : ∀ x, generation? e.before.db g = some x → x.status.active = false) :
    ∀ y, generation? S.db g = some y → y.status.active = false := by
  intro y hy
  cases hx : generation? e.before.db g with
  | some x =>
      rw [Runs.stays_ended hstart h he hx (hread x hx) hy]
      exact hread x hx
  | none =>
      obtain ⟨S₀, S₁, hpast⟩ := Runs.since hstart.trace h he
      rw [← hpast.asked hspawn] at hasked
      have hcreated := Runs.asked_created hstart hpast.runs hasked
      have hgone : generation? S₁.db g = none := by
        rw [hpast.db_eq hcommit, ← hx, ← hpast.scene]
      have hstays := Steps.stays_gone (lasting_generation hstart g)
        (hpast.runs.move hpast.move) (hcreated.mono hpast.move.trace_suffix) hgone hpast.steps
      rw [hstays] at hy
      cases hy

/-- A run that ends with `completed` leaves its generation ended or gone, unless
it found it QUEUED after it had lost its claim. -/
theorem Runs.completed_over (hstart : Begins start) (h : Runs (contract cfg start) S)
    {newer older : List REntry} {e : REntry} (htr : S.trace = newer ++ e :: older)
    (hev : e.event = .finish (.ok (.process .completed)))
    (hasked : S.asked e.tid = [.process g a m]) :
    (∀ x, generation? S.db g = some x → x.status.active = false) ∨
      ∃ e' ∈ older, e'.tid = e.tid ∧ e'.event = .statement (.resultAfterClaimLoss g) ∧
        ∃ x, generation? e'.before.db g = some x ∧ x.status = .queued := by
  obtain ⟨S₀, S₁, hpast, rfl⟩ := h.at hstart.trace htr
  have hfinishes := hpast.promised
  rw [hev] at hfinishes
  obtain ⟨hfinish, -⟩ := hfinishes
  rw [hpast.asked (by simp [hev]), hasked] at hfinish
  obtain ⟨e', he', ht, -, hdone⟩ := hfinish
  have hmem : e' ∈ S.trace := by
    rw [htr]
    exact List.mem_append_right _ (List.mem_cons_of_mem _ he')
  -- a generation that has ended is not active any more
  have hended : ends g e' = true → ∀ x, generation? S.db g = some x → x.status.active = false := by
    intro hends x hx
    by_contra hactive
    rw [Bool.not_eq_false] at hactive
    have hzero := ((Runs.ends_once hstart h g).active x hx).mpr hactive
    exact (List.countP_eq_zero.mp hzero) e' hmem hends
  rcases hdone with ⟨tok, ws, hev'⟩ | ⟨tok, ws, hev', hne⟩ | ⟨hev', hread⟩
  · exact Or.inl (hended (by simp [ends, hev']))
  · exact Or.inl (hended (by simp [ends, hev', hne]))
  · by_cases hqueued : ∃ x, generation? e'.before.db g = some x ∧ x.status = .queued
    · exact Or.inr ⟨e', he', ht, hev', hqueued⟩
    · refine Or.inl (Runs.over_of_read hstart h hmem (ht ▸ hasked) (by simp [hev'])
        (by simp [hev']) fun x hx => ?_)
      have hnot := hread x hx
      cases hstatus : x.status with
      | queued => exact absurd ⟨x, hx, hstatus⟩ hqueued
      | processing => exact absurd hstatus hnot
      | _ => rfl

/-- A run that throws on the last delivery had one of its transactions rolled
back. -/
theorem Runs.thrown_surfaced (hstart : Begins start) (h : Runs (contract cfg start) S)
    {newer older : List REntry} {e : REntry} {err : Error} (htr : S.trace = newer ++ e :: older)
    (hev : e.event = .finish (.error err)) (hasked : S.asked e.tid = [.process g a m])
    (hlast : m ≤ a) : Surfaced e.tid g (stateBefore e older) := by
  obtain ⟨S₀, S₁, hpast, rfl⟩ := h.at hstart.trace htr
  have hstate : stateBefore e S₀.trace = S₀ := by
    unfold stateBefore
    rw [← hpast.scene]
  have hfinishes := hpast.promised
  rw [hev] at hfinishes
  obtain ⟨hfinish, -⟩ := hfinishes
  rw [hpast.asked (by simp [hev]), hasked] at hfinish
  rw [hstate]
  exact hfinish.resolve_left (Nat.not_lt.mpr hlast)

/-- A delivery that is acknowledged leaves its generation ended or gone, now
and from then on, unless the run found it QUEUED after it had lost its
claim. A run that throws on the last delivery had the database fail in its
claim or in its handler. -/
theorem delivery_settles (cfg : Config) (w : RWorld) (h : Reached cfg w) {g a m : Id} :
    ∀ newer e older r, w.shared.trace = newer ++ e :: older → e.event = .finish r →
      w.shared.asked e.tid = [.process g a m] →
      (r = .ok (.process .completed) →
        (∀ x, generation? w.shared.db g = some x → x.status.active = false) ∨
        ∃ e' ∈ older, e'.tid = e.tid ∧ e'.event = .statement (.resultAfterClaimLoss g) ∧
          ∃ x, generation? e'.before.db g = some x ∧ x.status = .queued) ∧
      (∀ err, r = .error err → m ≤ a → Surfaced e.tid g (stateBefore e older)) := by
  intro newer e older r htr hev hasked
  obtain ⟨start, hstart, hruns⟩ := h.runs
  constructor
  · rintro rfl
    exact Runs.completed_over hstart hruns htr hev hasked
  · rintro err rfl hlast
    exact Runs.thrown_surfaced hstart hruns htr hev hasked hlast

/-- The last entry of a trace, if a run has just ended with `completed`. -/
def justCompleted : List REntry → Bool
  | ⟨_, .finish (.ok (.process .completed)), _⟩ :: _ => true
  | _ => false

theorem justCompleted_eq {entries : List REntry} (h : justCompleted entries = true) :
    ∃ e older, entries = e :: older ∧ e.event = .finish (.ok (.process .completed)) := by
  unfold justCompleted at h
  split at h
  next => exact ⟨_, _, rfl, rfl⟩
  next => cases h

/-- The delivery of a published generation is acknowledged when the generation
has ended. -/
theorem delivery_settles_completed : ∃ w e older, Reached defaults w ∧
    w.shared.trace = e :: older ∧ e.event = .finish (.ok (.process .completed)) ∧
    ((∀ x, generation? w.shared.db 12 = some x → x.status.active = false) ∨
      ∃ e' ∈ older, e'.tid = e.tid ∧ e'.event = .statement (.resultAfterClaimLoss 12) ∧
        ∃ x, generation? e'.before.db 12 = some x ∧ x.status = .queued) := by
  have hrun : (sampleWorld.runAll (app defaults) (outputStored ++ steps 4 14)).any (fun w =>
      justCompleted w.shared.trace &&
        (w.shared.trace.head?.map (·.tid)).any (w.shared.asked · = [.process 12 1 1])) = true := by
    decide +kernel
  obtain ⟨w, hw, hp⟩ := exists_reached hrun
  obtain ⟨hcompleted, hasked⟩ := (Bool.and_eq_true _ _).mp hp
  obtain ⟨e, older, htr, hev⟩ := justCompleted_eq hcompleted
  simp only [htr, List.head?_cons, Option.map_some, Option.any_some, decide_eq_true_eq] at hasked
  exact ⟨w, e, older, hw, htr, hev,
    (delivery_settles defaults w hw [] e older _ htr hev hasked).1 rfl⟩

-- =============================================================== stranding

end FastRep.Reports
