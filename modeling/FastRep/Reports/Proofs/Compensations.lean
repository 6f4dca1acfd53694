/-
What a compensation may take back.

A compensation deletes its generation because the queue did not take the
job. It learns that from its own call only, and the call may have thrown
after the queue took the job; and another request with the same key may have
enqueued the generation too. In both cases the generation is in use when it is
deleted.

As long as the queue has not taken the job of a generation that a compensation
removes (`onlyUnqueued`), the generation was never used: nothing runs without
a job (`Runs.untried_or_taken`), and no start or retry answers with a generation that
needs one (`Answers`). What is left is a cancellation between the read of the
compensation and its commit (`uncrossed`).
-/
import FastRep.Reports.Proofs.Deliveries
import FastRep.Reports.Proofs.Keys

namespace FastRep.Reports

open FastRep.Txn

variable {cfg : Config} {start S S' : RState} {t : Tid} {s : Site} {ws : List (Write Row Key)}
  {w : RWorld} {g tok a m : Id}

-- =================================================================== jobs

/-- The queue takes the job of the generation, whether it says so or not. -/
def takesJob (g : Id) (e : REntry) : Bool :=
  match e.event with
  | .call (.enqueue i) .done | .call (.enqueue i) (.lost _) => i = g
  | _ => false

/-- The commit takes the generation back. -/
def compensates (g : Id) (e : REntry) : Bool :=
  match e.event with
  | .commit (.compensateQueueFailure i) (_ :: _) => i = g
  | _ => false

/-- A job that is new in the queue was taken by it. -/
theorem takesJob_of_perform {x : Call} {c : Choice} {n : Time} {v env : Env}
    {answer : Services.Answer x} (h : Services.perform x c n v = some (answer, env))
    (hjob : g ∈ env.jobs) (sc : Scene Row Site Req Env) :
    g ∈ v.jobs ∨ takesJob g ⟨t, .call x c, sc⟩ = true := by
  rcases job_of_perform h hjob with hold | rfl
  · exact Or.inl hold
  cases c with
  | done => exact Or.inr (by simp [takesJob])
  | lost e => exact Or.inr (by simp [takesJob])
  | failed e =>
      simp only [Services.perform, Call.throws, if_true, Option.some.injEq, Prod.mk.injEq] at h
      exact Or.inl (h.2 ▸ hjob)
  | _ => simp [Services.perform, Call.serve] at h

/-- A job in the queue was taken by it. -/
theorem Runs.job_taken (hstart : Begins start) (h : Runs (contract cfg start) S)
    (hg : g ∈ S.env.jobs) : S.trace.any (takesJob g) = true := by
  refine h.invariant (I := fun S => ∀ g ∈ S.env.jobs, S.trace.any (takesJob g) = true)
    ?_ ?_ g hg
  · intro g hg
    rw [show (contract cfg start).start.env = ⟨[], [], []⟩ from hstart.env] at hg
    cases hg
  · intro j S S' hruns ih hm g hg
    have hmono : S.trace.any (takesJob g) = true → S'.trace.any (takesJob g) = true := fun h => by
      obtain ⟨e, he, htakes⟩ := List.any_eq_true.mp h
      exact List.any_eq_true.mpr ⟨e, hm.trace_suffix.subset he, htakes⟩
    cases hm with
    | answered x c answer env hperform _ =>
        rcases takesJob_of_perform (t := j) hperform hg S.toScene with hold | htakes
        · exact hmono (ih g hold)
        · exact List.any_eq_true.mpr ⟨_, List.mem_cons_self, htakes⟩
    | ambient c env hambient =>
        obtain ⟨k, bytes, -, rfl, -⟩ := ambient_cases hambient
        exact hmono (ih g hg)
    | _ => exact hmono (ih g hg)

/-- A run was delivered a job. -/
theorem Runs.asked_taken (hstart : Begins start) (h : Runs (contract cfg start) S)
    (hasked : S.asked t = [.process g a m]) : S.trace.any (takesJob g) = true := by
  have hmem : Req.process g a m ∈ S.asked t := hasked ▸ List.mem_singleton.mpr rfl
  obtain ⟨e, he, hspawn⟩ := List.mem_filterMap.mp hmem
  split at hspawn
  next q hev =>
      split at hspawn
      · cases hspawn
        obtain ⟨S₀, S₁, hpast⟩ := Runs.since hstart.trace h he
        have harrives := hpast.promised
        rw [hev] at harrives
        simp only [Contract.Promises, contract, ready, Bool.and_eq_true, decide_eq_true_eq]
          at harrives
        obtain ⟨e', he', htakes⟩ :=
          List.any_eq_true.mp (Runs.job_taken hstart hpast.runs harrives.1.1)
        exact List.any_eq_true.mpr
          ⟨e', ((List.suffix_cons _ _).trans hpast.suffix).subset he', htakes⟩
      · cases hspawn
  next => cases hspawn

theorem takesJob_of_acknowledged (h : Acknowledged S t g) :
    S.trace.any (takesJob g) = true := by
  obtain ⟨e, he, -, hev⟩ := h
  exact List.any_eq_true.mpr ⟨e, he, by simp [takesJob, hev]⟩

/-- Nobody has worked on the generation, and no marker says it was enqueued. -/
structure Untried (x : ReportGeneration) : Prop where
  status : x.status = .queued ∨ x.status = .cancelled
  attemptCount : x.attemptCount = 0
  enqueuedAt : x.enqueuedAt = none

/-- A commit leaves a generation untried, unless the queue has taken its
job. -/
theorem Effect.untried_or_taken (hstart : Begins start) (hruns : Runs (contract cfg start) S)
    (h : Effect cfg t s ws S) {y : ReportGeneration}
    (hbefore : ∀ x, generation? S.db g = some x → Untried x ∨ S.trace.any (takesJob g) = true)
    (hy : generation? (applyAll ws S.db) g = some y) :
    Untried y ∨ S.trace.any (takesJob g) = true := by
  by_cases hws : ws = []
  · exact hbefore y (by rw [← hy, hws]; rfl)
  rcases h.generation g with hsame | hchange
  · exact hbefore y (hsame ▸ hy)
  rw [hy] at hchange
  generalize hx : generation? S.db g = before at hchange
  have howned : ∀ {x tok}, before = some x → ReportGeneration.ownedBy tok x = true →
      S.trace.any (takesJob g) = true := fun {x tok} heq hown => by
    refine (hbefore x (hx.trans heq)).resolve_left fun huntried => ?_
    rcases huntried.status with hs | hs <;> simp [ReportGeneration.ownedBy, hs] at hown
  cases hchange with
  | started => exact Or.inl ⟨Or.inl rfl, rfl, rfl⟩
  | enqueued x now hqueued =>
      obtain rfl | ⟨-, -, -, -, -, hack⟩ := h
      · exact absurd rfl hws
      · exact Or.inr (takesJob_of_acknowledged hack)
  | cancelled x now hqueued =>
      exact (hbefore x hx).imp_left fun h => ⟨Or.inr rfl, h.attemptCount, h.enqueuedAt⟩
  | claimed =>
      obtain ⟨-, a, m, hasked⟩ := h
      exact Or.inr (Runs.asked_taken hstart hruns hasked)
  | fenced _ _ _ _ _ hown _ => exact Or.inr (howned rfl hown)
  | requeued _ _ _ hown => exact Or.inr (howned rfl hown)
  | failed _ _ _ _ _ hown => exact Or.inr (howned rfl hown)
  | completed _ _ _ hown => exact Or.inr (howned rfl hown)

/-- In every state of a run a generation is untried, or the queue has taken its
job. -/
theorem Runs.untried_or_taken (hstart : Begins start) (h : Runs (contract cfg start) S)
    {x : ReportGeneration} (hx : generation? S.db g = some x) :
    Untried x ∨ S.trace.any (takesJob g) = true := by
  refine h.invariant (I := fun S => ∀ x, generation? S.db g = some x →
    Untried x ∨ S.trace.any (takesJob g) = true) ?_ ?_ x hx
  · intro x hx
    have hnone : generation? start.db g = none := generation?_eq_none.mpr
      (hstart.unused.find?_eq_none (k := .generation g) (by simp [Key.table]) (by simp [Key.table]))
    exact absurd (hx.symm.trans hnone) (by simp)
  · intro j S S' hruns ih hm x hx
    have hmono : S.trace.any (takesJob g) = true → S'.trace.any (takesJob g) = true := fun h => by
      obtain ⟨e, he, htakes⟩ := List.any_eq_true.mp h
      exact List.any_eq_true.mpr ⟨e, hm.trace_suffix.subset he, htakes⟩
    rcases hm.commit_or with ⟨s, ws, hC, -, rfl⟩ | ⟨hdb, -⟩
    · exact (hC.1.untried_or_taken hstart hruns ih hx).imp_right hmono
    · exact (ih x (hdb ▸ hx)).imp_right hmono

-- ================================================================= removal

/-- A compensation that is made finds its generation QUEUED, if nothing has
crossed it. -/
theorem Runs.compensates_queued (hstart : Begins start) (h : Runs (contract cfg start) S)
    (heff : Effect cfg t (.compensateQueueFailure g) ws S) (hne : ws ≠ [])
    (hund : uncrossed S.trace = true) :
    ∃ x, generation? S.db g = some x ∧ x.status = .queued := by
  obtain rfl | ⟨newer, older, read, x, y, _, _, _, htr, -, hev, hopen, hx, hqueued, -, -, -, hy,
    -⟩ : Compensates t g ws S := heff
  · exact absurd rfl hne
  exact ⟨y, hy, (Runs.still_queued hstart h htr (by simp [hev]) hx hqueued hopen hund hy).1⟩

/-- The generation an entry asks about needed no job then: it has ended, or the
queue has taken its job. -/
theorem Runs.settled_or_taken (hstart : Begins start) (h : Runs (contract cfg start) S)
    {e : REntry} (he : e ∈ S.trace) {x : ReportGeneration}
    (hx : generation? e.before.db g = some x)
    (hneeds : x.status ≠ .queued ∨ x.enqueuedAt.isSome = true) :
    x.status.active = false ∨ S.trace.any (takesJob g) = true := by
  obtain ⟨S₀, S₁, hpast⟩ := Runs.since hstart.trace h he
  rw [← hpast.scene] at hx
  rcases Runs.untried_or_taken hstart hpast.runs hx with huntried | htaken
  · refine Or.inl ?_
    rcases hneeds with hnot | hmarked
    · rw [huntried.status.resolve_left hnot]
      rfl
    · simp [huntried.enqueuedAt] at hmarked
  · obtain ⟨e', he', htakes⟩ := List.any_eq_true.mp htaken
    exact Or.inr (List.any_eq_true.mpr
      ⟨e', ((List.suffix_cons _ _).trans hpast.suffix).subset he', htakes⟩)

/-- The thread was asked to start a generation, or to start one again. -/
def Starting (S : RState) (t : Tid) (u r : Id) (k : String) : Prop :=
  S.asked t = [.createGeneration u r k] ∨ ∃ g, S.asked t = [.retryGeneration u r g k]

/-- A start that has answered with a generation has the reasons of the
contract. -/
theorem Runs.answers (hstart : Begins start) (h : Runs (contract cfg start) S)
    {newer older : List REntry} {e : REntry} (htr : S.trace = newer ++ e :: older)
    {x : PublicGeneration} (hev : e.event = .finish (.ok (.generation x)))
    {u r : Id} {k : String} (hasked : Starting S e.tid u r k) :
    ∃ S₀ S₁, Past (contract cfg start) e S₀ S₁ S ∧ S₀.trace = older ∧
      Answers e.tid u r k x.id S₀ := by
  obtain ⟨S₀, S₁, hpast, holder⟩ := h.at hstart.trace htr
  refine ⟨S₀, S₁, hpast, holder, ?_⟩
  have hfinishes := hpast.promised
  rw [hev] at hfinishes
  obtain ⟨hfinish, -⟩ := hfinishes
  rw [hpast.asked (by simp [hev])] at hfinish
  rcases hasked with hasked | ⟨g, hasked⟩
  · rw [hasked] at hfinish
    exact hfinish
  · rw [hasked] at hfinish
    exact hfinish

theorem compensates_eq {e : REntry} (h : compensates g e = true) :
    ∃ ws, e.event = .commit (.compensateQueueFailure g) ws ∧ ws ≠ [] := by
  unfold compensates at h
  split at h
  next hev => exact ⟨_, by rw [hev, of_decide_eq_true h], List.cons_ne_nil _ _⟩
  next => cases h

/-- The queue has taken the job of generation 12. Before that is noted, a second
request with the same key enqueues it too and is refused, and takes the
generation back. -/
def removedEnqueued : List (Action Req Choice) :=
  reportCreated ++ .spawn 3 (.createGeneration 1 10 "k") :: steps 3 5 ++ .answer 3 .done
    :: .spawn 4 (.createGeneration 1 10 "k") :: steps 4 3
    ++ .answer 4 (.failed (unavailable "" "")) :: steps 4 10

end FastRep.Reports
