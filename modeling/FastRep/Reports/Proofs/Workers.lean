/-
Any number of runs on one generation.

Every run draws a token of its own, and pauses as long as it likes. Nothing
keeps two runs from working on the same generation at a time: the lease runs
over, another run claims, and the first one wakes up. What is left of them is
as if one had run at a time (`Exclusive`).

- `Honest.run_writes` is the fence: whatever a run commits to the lifecycle
  after its claim finds its token in the row. Its timer knows the token from
  the run, and only renews the lease (`Honest.beat_writes`).
- A claim is settled once. The token is in one thread, which settles nothing
  after it has settled (`Runs.settles_once`), and a settled generation is not
  PROCESSING until somebody claims it again (`Runs.unclaimed`).
- What has ended stays as it is and was published at most once; `Endings.lean`
  has that for every request.
-/
import FastRep.Reports.Proofs.Deliveries
import FastRep.Reports.Proofs.Fencing

namespace FastRep.Reports

open FastRep.Txn

variable {cfg : Config} {start S S' : RState} {t : Tid} {s : Site} {ws : List (Write Row Key)}
  {w : RWorld} {g tok a m : Id}

-- ================================================================== timers

/-- What the timer of a run has committed, it committed while the row of the
generation held its token. -/
theorem Honest.beat_writes (hstart : Begins start) (hS : Honest cfg start S)
    {newer older : List REntry} {e : REntry} (htr : S.trace = newer ++ e :: older)
    (hev : e.event = .commit s ws) {deadline : Time}
    (hasked : S.asked e.tid = [.heartbeat g tok deadline])
    {wr : Write Row Key} (hw : wr ∈ ws) (hlife : wr.target.table.lifecycle = true) :
    ∃ x, generation? e.before.db g = some x ∧ OwnRow x e.before.db wr.target ∧
      x.ownedBy tok = true := by
  obtain ⟨hsame, hsite, hwrites⟩ := hS.site_writes hstart htr hev
  have hs := hsite.beats g tok deadline (hsame.trans hasked)
  have hrun : s.ofRun g tok = true := by simp [hs, Site.ofRun]
  obtain ⟨x, hx, hown, hclaim⟩ := hwrites hrun wr hw hlife
  refine ⟨x, hx, hown, hclaim.resolve_left fun h => ?_⟩
  rw [hs] at h
  cases h.1

-- ============================================================= one settlement

/-- The commit settles the claim made under the token. -/
def settlesClaim (g tok : Id) (e : REntry) : Bool :=
  match e.event with
  | .commit s ws => s.settles && s.ofRun g tok && !ws.isEmpty
  | _ => false

/-- The commit claims the generation. -/
def claimsGeneration (g : Id) (e : REntry) : Bool :=
  match e.event with
  | .commit (.claim i _) ws => i = g && !ws.isEmpty
  | _ => false

theorem settlesClaim_eq {e : REntry} (h : settlesClaim g tok e = true) : ∃ s ws,
    e.event = .commit s ws ∧ s.settles = true ∧ s.ofRun g tok = true ∧ ws ≠ [] := by
  unfold settlesClaim at h
  split at h
  next s ws hev =>
      simp only [Bool.and_eq_true, Bool.not_eq_true', List.isEmpty_eq_false_iff] at h
      exact ⟨s, ws, hev, h.1.1, h.1.2, h.2⟩
  next => cases h

/-- Whoever settles a claim drew its token, and has settled nothing before. -/
theorem RunSite.settles (h : RunSite S t s) (hs : s.settles = true) (hrun : s.ofRun g tok = true) :
    tok ∈ S.ids t ∧ s.marked = true ∧ ∀ s' ∈ marks S t, s'.settles = false := by
  obtain ⟨htok, hmarked⟩ := h.settling hs hrun
  have hworking : s.working = true := by
    obtain ⟨g', tok', rfl | rfl | rfl⟩ := Site.of_settles hs <;> rfl
  obtain ⟨_, _, -, hworking⟩ := h.working hworking
  exact ⟨htok, hmarked, hworking.unsettled⟩

/-- In every state of a run a claim was settled at most once. -/
theorem Runs.settles_once (hstart : Begins start) (h : Runs (contract cfg start) S) (g tok : Id) :
    S.trace.countP (settlesClaim g tok) ≤ 1 := by
  refine h.invariant (I := fun S => S.trace.countP (settlesClaim g tok) ≤ 1) ?_ ?_
  · rw [show (contract cfg start).start.trace = [] from hstart.trace]
    exact Nat.zero_le 1
  · intro j S S' hruns ih hm
    rcases hm.commit_or with ⟨s, ws, hC, -, rfl⟩ | ⟨-, htr | ⟨ev, hev, htr⟩⟩
    · show (⟨j, .commit s ws, S.toScene⟩ :: S.trace).countP (settlesClaim g tok) ≤ 1
      rw [List.countP_cons]
      split
      next hsettles =>
          obtain ⟨s', ws', hev, hs, hrun, -⟩ := settlesClaim_eq hsettles
          cases hev
          obtain ⟨htok, -, hquiet⟩ := hC.2.settles hs hrun
          -- an earlier settlement of the claim would be one of the same thread
          have hzero : S.trace.countP (settlesClaim g tok) = 0 := by
            refine List.countP_eq_zero.mpr fun e he hbefore => ?_
            obtain ⟨s', ws', hev, hs', hrun', -⟩ := settlesClaim_eq hbefore
            obtain ⟨S₀, S₁, hpast⟩ := Runs.since hstart.trace hruns he
            obtain ⟨htok', hmarked, -⟩ := (hpast.commit hev).1.2.settles hs' hrun'
            have hj : e.tid = j := (hruns.idsDistinct hstart.trace).unique
              (Shared.mem_ids_of_suffix ((List.suffix_cons _ _).trans hpast.suffix) htok') htok
            have hmark := hquiet s' (hj ▸ Shared.mem_marks he hev hmarked)
            rw [hmark] at hs'
            cases hs'
          rw [hzero]
      next => exact ih
    · rw [htr]
      exact ih
    · rw [htr, List.countP_cons_of_neg]
      · exact ih
      · intro hsettles
        obtain ⟨s, ws, hcommit, -⟩ := settlesClaim_eq hsettles
        exact hev s ws hcommit

/-- A settlement finds the generation under its token, and leaves it with
nobody. -/
theorem Effect.settled (hstart : Begins start) (hruns : Runs (contract cfg start) S)
    (h : Effect cfg t s ws S) (hs : s.settles = true) (hrun : s.ofRun g tok = true)
    (hne : ws ≠ []) : OwnedIn S g tok ∧
      ∀ y, generation? (applyAll ws S.db) g = some y → y.status ≠ .processing := by
  have hsite : s = .finalizeSuccess g tok ∨ s = .prepareRetry g tok ∨
      s = .failGeneration g tok := by
    obtain ⟨g', tok', rfl | rfl | rfl⟩ := Site.of_settles hs <;>
    · simp only [Site.ofRun, Bool.and_eq_true, decide_eq_true_eq] at hrun
      simp [hrun.1, hrun.2]
  rcases hsite with rfl | rfl | rfl
  · obtain ⟨x, r, o, now, credit, hx, howned, -, -, -, -, -, -, -, hafter, -⟩ :=
      Runs.finalized hstart hruns h
    refine ⟨⟨x, hx, howned⟩, fun y hy => ?_⟩
    cases hafter.symm.trans hy
    simp [ReportGeneration.completed]
  · obtain rfl | ⟨x, errorCode, follow, hx, howned, rfl, hfollow⟩ := h
    · exact absurd rfl hne
    refine ⟨⟨x, hx, howned⟩, fun y hy => ?_⟩
    change generation? (applyAll ([] ++ .update (.generation (x.requeued errorCode)) :: follow)
      S.db) g = some y at hy
    have hid : (x.requeued errorCode).id = g := by
      rw [← generation?_id hx]
      rfl
    rw [generation?_applyAll (by simp) rfl fun w hw => by rw [hfollow.tables w hw]; simp,
      if_pos hid] at hy
    cases hy
    simp [ReportGeneration.requeued]
  · obtain ⟨x, r, errorCode, message, now, read, hasOutput, credit, hx, howned, -, -, -, -, -,
      hafter, -⟩ := h.failed hne
    refine ⟨⟨x, hx, howned⟩, fun y hy => ?_⟩
    cases hafter.symm.trans hy
    simp [ReportGeneration.ended]

/-- Only a claim makes a generation PROCESSING. -/
theorem Effect.processing (h : Effect cfg t s ws S) {y : ReportGeneration}
    (hy : generation? (applyAll ws S.db) g = some y) (hstatus : y.status = .processing)
    (hclaims : claimsGeneration g ⟨t, .commit s ws, S.toScene⟩ = false) :
    ∃ x, generation? S.db g = some x ∧ x.status = .processing := by
  by_cases hws : ws = []
  · exact ⟨y, by rw [← hy, hws]; rfl, hstatus⟩
  rcases h.generation g with hsame | hchange
  · exact ⟨y, hsame ▸ hy, hstatus⟩
  rw [hy] at hchange
  generalize generation? S.db g = before at hchange ⊢
  cases hchange with
  | claimed => simp [claimsGeneration, hws] at hclaims
  | fenced _ _ x _ _ howned hcore => exact ⟨x, rfl, by rw [← hcore.status]; exact hstatus⟩
  | enqueued _ _ hqueued =>
      rw [show _ = ReportGenerationStatus.queued from hqueued] at hstatus
      cases hstatus
  | _ => cases hstatus

/-- A generation that was settled is not PROCESSING until it is claimed. -/
theorem Runs.unclaimed (hstart : Begins start) (h : Runs (contract cfg start) S)
    {newer older : List REntry} {e : REntry} (htr : S.trace = newer ++ e :: older)
    (hsettles : settlesClaim g tok e = true)
    (hunclaimed : ∀ c ∈ newer, claimsGeneration g c = false) {x : ReportGeneration}
    (hx : generation? S.db g = some x) : x.status ≠ .processing := by
  refine Runs.after (I := fun newer S => (∀ c ∈ newer, claimsGeneration g c = false) →
    ∀ x, generation? S.db g = some x → x.status ≠ .processing) hstart.trace h htr ?_ ?_ hunclaimed
    x hx
  · rintro S₀ S₁ hpast - - y hy
    obtain ⟨s, ws, hev, hs, hrun, hne⟩ := settlesClaim_eq hsettles
    obtain ⟨⟨heff, -⟩, rfl⟩ := hpast.commit hev
    exact (heff.settled hstart hpast.runs hs hrun hne).2 y hy
  · intro j S S' newer added hruns htr ih hm hadded hunclaimed y hy hstatus
    have hbefore := ih fun c hc => hunclaimed c (List.mem_append_right _ hc)
    rcases hm.commit_or with ⟨s, ws, hC, -, rfl⟩ | ⟨hdb, -⟩
    · have hlogged : (⟨j, .commit s ws, S.toScene⟩ : REntry) ∈ added := by
        have hlast : ⟨j, .commit s ws, S.toScene⟩ :: S.trace = added ++ S.trace := hadded
        rw [← List.singleton_append] at hlast
        rw [← List.append_cancel_right hlast]
        exact List.mem_singleton_self _
      obtain ⟨x, hx, hprocessing⟩ := hC.1.processing hy hstatus
        (hunclaimed _ (List.mem_append_left _ hlogged))
      exact hbefore x hx hprocessing
    · exact hbefore y (hdb ▸ hy) hstatus

/-- What any number of runs leaves of a generation: they write to it one at a
time, end and publish it at most once, and settle each claim at most once. -/
structure Exclusive (S : RState) (g : Id) : Prop where
  runs : ∀ newer e older s ws a m, S.trace = newer ++ e :: older → e.event = .commit s ws →
    S.asked e.tid = [.process g a m] → ∃ tok, (stateBefore e older).ids e.tid = [tok] ∧
      ∀ wr ∈ ws, wr.target.table.lifecycle = true → s ≠ .claim g tok →
        ∃ x, generation? e.before.db g = some x ∧ OwnRow x e.before.db wr.target ∧
          x.ownedBy tok = true
  timers : ∀ newer e older s ws tok deadline, S.trace = newer ++ e :: older →
    e.event = .commit s ws → S.asked e.tid = [.heartbeat g tok deadline] →
      ∀ wr ∈ ws, wr.target.table.lifecycle = true →
        ∃ x, generation? e.before.db g = some x ∧ OwnRow x e.before.db wr.target ∧
          x.ownedBy tok = true
  ended : ∀ e ∈ S.trace, ∀ x y, generation? e.before.db g = some x →
    x.status.active = false → generation? S.db g = some y → y = x
  published : S.trace.countP (publishes g) ≤ 1
  settled : ∀ tok, S.trace.countP (settlesClaim g tok) ≤ 1
  claimed : ∀ newer e between e' older tok tok',
    S.trace = newer ++ e :: between ++ e' :: older → settlesClaim g tok e = true →
      settlesClaim g tok' e' = true → ∃ c ∈ between, claimsGeneration g c = true

/-- In every reached state the runs of a generation exclude each other. -/
theorem workers_exclusive (h : Reached cfg w) (g : Id) : Exclusive w.shared g := by
  obtain ⟨start, hstart, hS⟩ := h.honest
  refine ⟨fun newer e older s ws a m htr hev hasked => ?_,
    fun newer e older s ws tok deadline htr hev hasked wr hw hlife =>
      hS.beat_writes hstart htr hev hasked hw hlife,
    fun e he x y hx hended hy => Runs.stays_ended hstart hS.runs he hx hended hy,
    Runs.publishes_once hstart hS.runs g, Runs.settles_once hstart hS.runs g,
    fun newer e between e' older tok tok' htr hsettles hsettles' => ?_⟩
  · obtain ⟨hsame, hsite, hwrites⟩ := hS.site_writes hstart htr hev
    obtain ⟨tok, hids, hrun⟩ := hsite.own g a m (hsame.trans hasked)
    refine ⟨tok, hids, fun wr hw hlife hs => ?_⟩
    obtain ⟨x, hx, hown, hclaim⟩ := hwrites hrun wr hw hlife
    exact ⟨x, hx, hown, hclaim.resolve_left fun h => hs h.1⟩
  · by_contra hunclaimed
    simp only [not_exists, not_and, Bool.not_eq_true] at hunclaimed
    rw [List.append_assoc] at htr
    obtain ⟨S₀, S₁, hpast, hbefore⟩ := hS.runs.at hstart.trace htr
    obtain ⟨s, ws, hev, hs, hrun, hne⟩ := settlesClaim_eq hsettles
    -- the later settlement found the generation PROCESSING
    obtain ⟨⟨x, hx, howned⟩, -⟩ :=
      (hpast.commit hev).1.1.settled hstart hpast.runs hs hrun hne
    exact Runs.unclaimed hstart hpast.runs hbefore hsettles' hunclaimed hx
      (of_decide_eq_true ((Bool.and_eq_true _ _).mp howned).1)

/-- A run is about to publish when its lease ends. Another run takes the
generation over; the first one finds that it has lost its claim, and the
second one publishes. -/
def publishedBySecond : List (Action Req Choice) :=
  outputStored ++ .tick (defaults.reportGenerationJobTimeoutMs + 1) :: .spawn 5 (.process 12 1 1)
    :: steps 5 7 ++ steps 4 8 ++ .answer 4 .done :: steps 5 30 ++ .answer 5 (.rendered [2])
    :: steps 5 12 ++ .answer 5 .done :: .answer 5 .done :: steps 5 13

/-- Two runs have claimed the generation, and one has published it. -/
theorem workers_exclusive_published : ∃ w, Reached defaults w ∧
    w.shared.trace.countP (claimsGeneration 12) = 2 ∧ w.shared.trace.countP (publishes 12) = 1 ∧
    Exclusive w.shared 12 := by
  have hrun : (sampleWorld.runAll (app defaults) publishedBySecond).any (fun w =>
      w.shared.trace.countP (claimsGeneration 12) = 2
        && w.shared.trace.countP (publishes 12) = 1) = true := by
    decide +kernel
  obtain ⟨w, hw, hp⟩ := exists_reached hrun
  simp only [Bool.and_eq_true, decide_eq_true_eq] at hp
  exact ⟨w, hw, hp.1, hp.2, workers_exclusive hw 12⟩

end FastRep.Reports
