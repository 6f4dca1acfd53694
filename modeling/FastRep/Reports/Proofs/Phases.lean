/-
Reports and generations agree in every run of the lifecycle machine.

Every step changes one report, and at most one generation of it that was
active or did not exist. So one lemma (`Agreed.set`) carries most steps:
it says what the new statuses must be for the two sides to agree again.

`Phases.Rested` goes the same way, with a lemma of its own for such a change
(`Rested.set`): what a report shows with nothing running is accounted for by
what its generations have ended in. `Phases.Run.shown` reads the status of a
report off the statuses of its generations from the two invariants together.

Nothing here is about a database. The rows come in with `phases`, in the
module on the agreement of the two.
-/
import FastRep.Reports.Phases

namespace FastRep.Reports

open Function (update)

variable {v v' : Phases} {r i g : Id} {j : Job}

/-- Where nothing is, everything agrees. -/
theorem Phases.Agreed.empty : Phases.empty.Agreed := by
  constructor <;> simp [Phases.empty]

-- ================================================================= lookups

/-- What an updated function gives: the new value in its place, the old ones
elsewhere. -/
theorem update_eq_some {α : Type} {f : Id → Option α} {k k' : Id} {o : Option α} {a : α} :
    update f k o k' = some a ↔ (k' = k ∧ o = some a) ∨ (k' ≠ k ∧ f k' = some a) := by
  by_cases hk : k' = k
  · subst hk
    simp
  · simp [hk]

/-- An active generation shows in the status of its report. -/
theorem Phases.Agreed.active (h : v.Agreed) (hj : v.generation g = some j)
    (hactive : j.status.active = true) :
    v.report j.reportId = some .queued ∨ v.report j.reportId = some .processing := by
  cases hs : j.status with
  | queued => exact Or.inl ((h.queued _).mpr ⟨g, j, hj, rfl, hs⟩)
  | processing => exact Or.inr ((h.processing _).mpr ⟨g, j, hj, rfl, hs⟩)
  | completed | failed | cancelled =>
      rw [hs] at hactive
      cases hactive

/-- A report that shows no active generation has none. -/
theorem Phases.Agreed.idle (h : v.Agreed) (hqueued : v.report r ≠ some .queued)
    (hprocessing : v.report r ≠ some .processing) :
    ∀ g j, v.generation g = some j → j.reportId = r → j.status.active = false := by
  intro g j hj hr
  by_contra hactive
  rw [Bool.not_eq_false] at hactive
  rcases h.active hj hactive with hs | hs
  · rw [hr] at hs
    exact hqueued hs
  · rw [hr] at hs
    exact hprocessing hs

/-- A generation that is active or missing has no output. -/
theorem Phases.Agreed.output_eq_none (h : v.Agreed)
    (hj : ∀ j, v.generation g = some j → j.status.active = true) : v.output g = none := by
  cases ho : v.output g with
  | none => rfl
  | some i =>
      obtain ⟨j, hgen, -, hstatus⟩ := h.output g i ho
      have hactive := hj j hgen
      rw [hstatus] at hactive
      cases hactive

-- =================================================================== steps

/-- A report and one generation of it, set together with its output. -/
def Phases.set (v : Phases) (r : Id) (status : ReportStatus) (g : Id) (o : Option Job)
    (out : Option Id) : Phases where
  report := update v.report r (some status)
  generation := update v.generation g o
  output := update v.output g out

/-- The two sides agree again if they did before, the generation was the one
active on the report or is new, and the new statuses fit. -/
theorem Phases.Agreed.set {status : ReportStatus} {o : Option Job} {out : Option Id}
    (h : v.Agreed)
    (hbefore : ∀ j, v.generation g = some j → j.reportId = r ∧ j.status.active = true)
    (hone : ∀ g' j', v.generation g' = some j' → j'.reportId = r → j'.status.active = true →
      g' = g)
    (hready : v.report r ≠ some .ready)
    (hjob : ∀ j, o = some j → j.reportId = r ∧ (j.prior = .draft ∨ j.prior = .failed))
    (hqueued' : status = .queued ↔ ∃ j, o = some j ∧ j.status = .queued)
    (hprocessing' : status = .processing ↔ ∃ j, o = some j ∧ j.status = .processing)
    (hready' : status = .ready ↔ out = some r)
    (hout : ∀ i, out = some i → i = r ∧ ∃ j, o = some j ∧ j.status = .completed) :
    (v.set r status g o out).Agreed := by
  -- how many generations of another report are in a status does not change
  have hothers : ∀ {i : Id} {s : ReportGenerationStatus}, i ≠ r →
      ((∃ g' j, update v.generation g o g' = some j ∧ j.reportId = i ∧ j.status = s) ↔
        ∃ g' j, v.generation g' = some j ∧ j.reportId = i ∧ j.status = s) := by
    intro i s hi
    constructor
    · rintro ⟨g', j, hj, hr, hs⟩
      rcases update_eq_some.mp hj with ⟨-, hj⟩ | ⟨-, hj⟩
      · exact absurd (hr.symm.trans (hjob j hj).1) hi
      · exact ⟨g', j, hj, hr, hs⟩
    · rintro ⟨g', j, hj, hr, hs⟩
      refine ⟨g', j, update_eq_some.mpr (Or.inr ⟨?_, hj⟩), hr, hs⟩
      rintro rfl
      exact hi (hr.symm.trans (hbefore j hj).1)
  -- and of the report itself only the one that is set can be active
  have hself : ∀ {s : ReportGenerationStatus}, s.active = true →
      ((∃ g' j, update v.generation g o g' = some j ∧ j.reportId = r ∧ j.status = s) ↔
        ∃ j, o = some j ∧ j.status = s) := by
    intro s hs
    constructor
    · rintro ⟨g', j, hj, hr, rfl⟩
      rcases update_eq_some.mp hj with ⟨-, hj⟩ | ⟨hne, hj⟩
      · exact ⟨j, hj, rfl⟩
      · exact absurd (hone g' j hj hr hs) hne
    · rintro ⟨j, hj, rfl⟩
      exact ⟨g, j, update_eq_some.mpr (Or.inl ⟨rfl, hj⟩), (hjob j hj).1, rfl⟩
  have hreport : ∀ {i : Id}, i ≠ r → update v.report r (some status) i = v.report i :=
    fun hi => Function.update_of_ne hi _ _
  refine ⟨?_, ?_, fun i => ?_, fun i => ?_, fun i => ?_, ?_, ?_⟩
  · intro g' j hj
    by_cases hi : j.reportId = r
    · simp [Phases.set, hi]
    · rcases update_eq_some.mp hj with ⟨-, hj⟩ | ⟨-, hj⟩
      · exact absurd (hjob j hj).1 hi
      · simpa [Phases.set, hi] using h.stored g' j hj
  · intro g₁ g₂ j₁ j₂ hj₁ hj₂ hsame hactive₁ hactive₂
    rcases update_eq_some.mp hj₁ with ⟨hg₁, ho₁⟩ | ⟨-, hv₁⟩
    · rcases update_eq_some.mp hj₂ with ⟨hg₂, -⟩ | ⟨-, hv₂⟩
      · exact hg₁.trans hg₂.symm
      · exact hg₁.trans (hone g₂ j₂ hv₂ (hsame.symm.trans (hjob j₁ ho₁).1) hactive₂).symm
    · rcases update_eq_some.mp hj₂ with ⟨hg₂, ho₂⟩ | ⟨-, hv₂⟩
      · exact (hone g₁ j₁ hv₁ (hsame.trans (hjob j₂ ho₂).1) hactive₁).trans hg₂.symm
      · exact h.one g₁ g₂ j₁ j₂ hv₁ hv₂ hsame hactive₁ hactive₂
  · by_cases hi : i = r
    · subst hi
      simp only [Phases.set, Function.update_self, Option.some.injEq]
      exact hqueued'.trans (hself rfl).symm
    · simp only [Phases.set, hreport hi]
      exact (h.queued i).trans (hothers hi).symm
  · by_cases hi : i = r
    · subst hi
      simp only [Phases.set, Function.update_self, Option.some.injEq]
      exact hprocessing'.trans (hself rfl).symm
    · simp only [Phases.set, hreport hi]
      exact (h.processing i).trans (hothers hi).symm
  · by_cases hi : i = r
    · subst hi
      simp only [Phases.set, Function.update_self, Option.some.injEq]
      rw [hready']
      constructor
      · intro ho
        exact ⟨g, by rw [Function.update_self]; exact ho⟩
      · rintro ⟨g', ho⟩
        rcases update_eq_some.mp ho with ⟨-, ho⟩ | ⟨-, ho⟩
        · exact ho
        · exact absurd ((h.ready i).mpr ⟨g', ho⟩) hready
    · simp only [Phases.set, hreport hi]
      rw [h.ready i]
      constructor
      · rintro ⟨g', ho⟩
        refine ⟨g', update_eq_some.mpr (Or.inr ⟨?_, ho⟩)⟩
        rintro rfl
        obtain ⟨j, hj, hr, -⟩ := h.output g' i ho
        exact hi (hr.symm.trans (hbefore j hj).1)
      · rintro ⟨g', ho⟩
        rcases update_eq_some.mp ho with ⟨-, ho⟩ | ⟨-, ho⟩
        · exact absurd (hout i ho).1 hi
        · exact ⟨g', ho⟩
  · intro g' i ho
    rcases update_eq_some.mp ho with ⟨hg, ho'⟩ | ⟨hne, ho'⟩
    · obtain ⟨hi, j, hj, hs⟩ := hout i ho'
      exact ⟨j, update_eq_some.mpr (Or.inl ⟨hg, hj⟩), (hjob j hj).1.trans hi.symm, hs⟩
    · obtain ⟨j, hj, hr, hs⟩ := h.output g' i ho'
      exact ⟨j, update_eq_some.mpr (Or.inr ⟨hne, hj⟩), hr, hs⟩
  · intro g' j hj
    rcases update_eq_some.mp hj with ⟨-, hj⟩ | ⟨-, hj⟩
    · exact (hjob j hj).2
    · exact h.prior g' j hj

/-- A move is such a change that leaves the outputs alone. -/
theorem Phases.move_eq_set {status : ReportStatus} (hnone : v.output g = none) :
    v.move g j status = v.set j.reportId status g (some j) none := by
  have hsame : update v.output g none = v.output := by
    rw [← hnone]
    exact Function.update_eq_self g v.output
  simp [Phases.move, Phases.set, hsame]

/-- The active generation of a report may be set, with what then fits. -/
theorem Phases.Agreed.settle {status : ReportStatus} {o : Option Job} {out : Option Id}
    (h : v.Agreed) (hj : v.generation g = some j) (hactive : j.status.active = true)
    (ho : ∀ j', o = some j' → j'.reportId = j.reportId ∧ j'.prior = j.prior)
    (hqueued : status = .queued ↔ ∃ j', o = some j' ∧ j'.status = .queued)
    (hprocessing : status = .processing ↔ ∃ j', o = some j' ∧ j'.status = .processing)
    (hready : status = .ready ↔ out = some j.reportId)
    (hout : ∀ i, out = some i → i = j.reportId ∧ ∃ j', o = some j' ∧ j'.status = .completed) :
    (v.set j.reportId status g o out).Agreed := by
  refine h.set ?_ ?_ ?_ ?_ hqueued hprocessing hready hout
  · intro j' hj'
    rw [hj] at hj'
    cases hj'
    exact ⟨rfl, hactive⟩
  · intro g' j' hj' hr hactive'
    exact h.one g' g j' j hj' hj hr hactive' hactive
  · intro hs
    rcases h.active hj hactive with hs' | hs' <;> rw [hs'] at hs <;> cases hs
  · intro j' hj'
    obtain ⟨hr, hprior⟩ := ho j' hj'
    rw [hprior]
    exact ⟨hr, h.prior g j hj⟩

/-- A generation that moves together with its report keeps the agreement. -/
theorem Phases.Agreed.moved {status : ReportStatus} {s : ReportGenerationStatus} (h : v.Agreed)
    (hj : v.generation g = some j) (hactive : j.status.active = true)
    (hqueued : status = .queued ↔ s = .queued)
    (hprocessing : status = .processing ↔ s = .processing) (hready : status ≠ .ready) :
    (v.move g { j with status := s } status).Agreed := by
  have hnone : v.output g = none := h.output_eq_none (by simp [hj, hactive])
  rw [Phases.move_eq_set hnone]
  show (v.set j.reportId status g (some { j with status := s }) none).Agreed
  exact h.settle hj hactive (by simp) (by simpa using hqueued) (by simpa using hprocessing)
    (by simpa using hready) (by simp)

/-- A report that is not stored has no generations. -/
theorem Phases.Agreed.absent (h : v.Agreed) (hnone : v.report i = none) :
    ∀ g j, v.generation g = some j → j.reportId ≠ i := by
  rintro g j hj rfl
  exact h.stored g j hj hnone

/-- A new report without generations agrees with them. -/
theorem Phases.Agreed.create (h : v.Agreed) (hnone : v.report i = none) :
    ({ v with report := update v.report i (some .draft) } : Phases).Agreed := by
  have habsent := h.absent hnone
  have hother : ∀ {r : Id} {s : ReportStatus}, s ≠ .draft →
      (update v.report i (some .draft) r = some s ↔ v.report r = some s) := by
    intro r s hs
    by_cases hr : r = i
    · subst hr
      simp [hnone, hs.symm]
    · simp [hr]
  refine ⟨?_, h.one, fun r => ?_, fun r => ?_, fun r => ?_, h.output, h.prior⟩
  · intro g j hj
    simpa [habsent g j hj] using h.stored g j hj
  · exact (hother (by simp)).trans (h.queued r)
  · exact (hother (by simp)).trans (h.processing r)
  · exact (hother (by simp)).trans (h.ready r)

/-- What is left of the others when a report is deleted. -/
theorem Phases.Agreed.delete (h : v.Agreed) (i : Id) :
    ({
      report := update v.report i none
      generation := fun g => (v.generation g).filter fun j => j.reportId ≠ i
      output := fun g => (v.output g).filter fun r => r ≠ i } : Phases).Agreed := by
  have hgen : ∀ {g : Id} {j : Job},
      ((v.generation g).filter fun j => j.reportId ≠ i) = some j ↔
        v.generation g = some j ∧ j.reportId ≠ i := by
    intro g j
    simp [Option.filter_eq_some_iff]
  have hcount : ∀ {r : Id} {s : ReportGenerationStatus}, r ≠ i →
      ((∃ g j, ((v.generation g).filter fun j => j.reportId ≠ i) = some j ∧ j.reportId = r ∧
          j.status = s) ↔ ∃ g j, v.generation g = some j ∧ j.reportId = r ∧ j.status = s) := by
    intro r s hr
    constructor
    · rintro ⟨g, j, hj, hjr, hs⟩
      exact ⟨g, j, (hgen.mp hj).1, hjr, hs⟩
    · rintro ⟨g, j, hj, hjr, hs⟩
      exact ⟨g, j, hgen.mpr ⟨hj, hjr ▸ hr⟩, hjr, hs⟩
  have hnone : ∀ {s : ReportGenerationStatus},
      ¬ ∃ g j, ((v.generation g).filter fun j => j.reportId ≠ i) = some j ∧ j.reportId = i ∧
        j.status = s := by
    rintro s ⟨g, j, hj, hji, -⟩
    exact (hgen.mp hj).2 hji
  refine ⟨?_, ?_, fun r => ?_, fun r => ?_, fun r => ?_, ?_, ?_⟩
  · intro g j hj
    obtain ⟨hj, hne⟩ := hgen.mp hj
    simpa [hne] using h.stored g j hj
  · intro g g' j j' hj hj' hsame hactive hactive'
    exact h.one g g' j j' (hgen.mp hj).1 (hgen.mp hj').1 hsame hactive hactive'
  · by_cases hr : r = i
    · subst hr
      simpa using hnone
    · simp only [Function.update_of_ne hr]
      exact (h.queued r).trans (hcount hr).symm
  · by_cases hr : r = i
    · subst hr
      simpa using hnone
    · simp only [Function.update_of_ne hr]
      exact (h.processing r).trans (hcount hr).symm
  · by_cases hr : r = i
    · subst hr
      simp [Option.filter_eq_some_iff]
    · simp only [Function.update_of_ne hr]
      rw [h.ready r]
      simp [Option.filter_eq_some_iff, hr]
  · intro g r ho
    obtain ⟨ho, hr⟩ := (Option.filter_eq_some_iff.mp ho)
    obtain ⟨j, hj, hjr, hs⟩ := h.output g r ho
    exact ⟨j, hgen.mpr ⟨hj, by simpa [hjr] using hr⟩, hjr, hs⟩
  · intro g j hj
    exact h.prior g j (hgen.mp hj).1

/-- A step keeps the two sides in agreement. -/
theorem Phases.Step.agreed (hstep : Phases.Step v v') (h : v.Agreed) : v'.Agreed := by
  cases hstep with
  | created hnone => exact h.create hnone
  | @started g j hnone hreport hprior hqueued =>
      have hidle : ∀ {s : ReportStatus}, s ≠ .draft → s ≠ .failed →
          v.report j.reportId ≠ some s := by
        intro s hdraft hfailed hs
        rw [hreport] at hs
        rcases hprior with hp | hp <;> rw [hp] at hs <;> cases hs
        · exact hdraft rfl
        · exact hfailed rfl
      have hinactive := h.idle (hidle (s := .queued) (by simp) (by simp))
        (hidle (s := .processing) (by simp) (by simp))
      have hout : v.output g = none := h.output_eq_none (by simp [hnone])
      rw [Phases.move_eq_set hout]
      refine h.set (by simp [hnone]) ?_ (hidle (by simp) (by simp)) ?_ (by simp [hqueued])
        (by simp [hqueued]) (by simp) (by simp)
      · intro g' j' hj' hr hactive
        rw [hinactive g' j' hj' hr] at hactive
        cases hactive
      · intro j' hj'
        cases hj'
        exact ⟨rfl, hprior⟩
  | claimed hj hactive => exact h.moved hj hactive (by simp) (by simp) (by simp)
  | requeued hj hs => exact h.moved hj (by rw [hs]; rfl) (by simp) (by simp) (by simp)
  | @cancelled g j hj hs =>
      have hprior := h.prior g j hj
      refine h.moved hj (by rw [hs]; rfl) ?_ ?_ ?_ <;> rcases hprior with hp | hp <;> simp [hp]
  | failed hj hs => exact h.moved hj (by rw [hs]; rfl) (by simp) (by simp) (by simp)
  | @published g j hj hs hnone =>
      show (v.set j.reportId .ready g (some { j with status := .completed })
        (some j.reportId)).Agreed
      exact h.settle hj (by rw [hs]; rfl) (by simp) (by simp) (by simp) (by simp) (by simp)
  | @compensated g j hj hs =>
      have hactive : j.status.active = true := by
        rw [hs]
        rfl
      have hout : v.output g = none := h.output_eq_none (by simp [hj, hactive])
      have hsame : update v.output g none = v.output := by
        rw [← hout]
        exact Function.update_eq_self g v.output
      have hprior := h.prior g j hj
      have hset : (v.set j.reportId j.prior g none none).Agreed := by
        refine h.settle hj hactive (by simp) ?_ ?_ ?_ (by simp) <;>
          rcases hprior with hp | hp <;> simp [hp]
      simpa [Phases.set, hsame] using hset
  | @deleted i _ _ _ _ => exact h.delete i

/-- In every state of the machine reports and generations agree. -/
theorem Phases.Run.agreed (h : v.Run) : v.Agreed := by
  induction h with
  | refl => exact .empty
  | tail _ hstep ih => exact hstep.agreed ih

-- ================================================================= at rest

/-- Where nothing is, nothing is unaccounted for. -/
theorem Phases.Rested.empty : Phases.empty.Rested := by
  constructor <;> simp [Phases.empty, Phases.Has]

/-- Setting one generation that had not ended keeps the failed ones, and adds
it if it fails. -/
theorem Phases.has_failed_set {status : ReportStatus} {o : Option Job} {out : Option Id}
    (hbefore : ∀ j, v.generation g = some j → j.reportId = r ∧ j.status.active = true)
    (ho : ∀ j, o = some j → j.reportId = r) :
    (v.set r status g o out).Has i .failed ↔
      v.Has i .failed ∨ (i = r ∧ ∃ j, o = some j ∧ j.status = .failed) := by
  constructor
  · rintro ⟨g', j, hj, hr, hs⟩
    rcases update_eq_some.mp hj with ⟨-, hj⟩ | ⟨-, hj⟩
    · exact Or.inr ⟨hr.symm.trans (ho j hj), j, hj, hs⟩
    · exact Or.inl ⟨g', j, hj, hr, hs⟩
  · rintro (⟨g', j, hj, hr, hs⟩ | ⟨rfl, j, hj, hs⟩)
    · refine ⟨g', j, update_eq_some.mpr (Or.inr ⟨?_, hj⟩), hr, hs⟩
      rintro rfl
      have hactive := (hbefore j hj).2
      rw [hs] at hactive
      cases hactive
    · exact ⟨g, j, update_eq_some.mpr (Or.inl ⟨rfl, hj⟩), ho j hj, hs⟩

/-- The report and its active generation may be set, with what then fits. -/
theorem Phases.Rested.set {status : ReportStatus} {o : Option Job} {out : Option Id}
    (h : v.Rested)
    (hbefore : ∀ j, v.generation g = some j → j.reportId = r ∧ j.status.active = true)
    (hone : ∀ g' j', v.generation g' = some j' → j'.reportId = r → j'.status.active = true →
      g' = g)
    (ho : ∀ j, o = some j → j.reportId = r)
    (hfailed : status = .failed → v.Has r .failed ∨ ∃ j, o = some j ∧ j.status = .failed)
    (hdraft : status = .draft → ¬ v.Has r .failed ∧ ∀ j, o = some j → j.status ≠ .failed)
    (hprior : ∀ j, o = some j → j.status.active = true →
      (j.prior = .failed ↔ v.Has r .failed))
    (hcompleted : ∀ j, o = some j → j.status = .completed → out = some r) :
    (v.set r status g o out).Rested := by
  have hhas : ∀ i, (v.set r status g o out).Has i .failed ↔
      v.Has i .failed ∨ (i = r ∧ ∃ j, o = some j ∧ j.status = .failed) :=
    fun i => Phases.has_failed_set hbefore ho
  refine ⟨fun i hi => ?_, fun i hi => ?_, ?_, ?_⟩
  · rw [hhas]
    rcases update_eq_some.mp hi with ⟨rfl, hs⟩ | ⟨-, hs⟩
    · exact (hfailed (Option.some.inj hs)).imp_right fun h => ⟨rfl, h⟩
    · exact Or.inl (h.failed i hs)
  · rw [hhas]
    rcases update_eq_some.mp hi with ⟨rfl, hs⟩ | ⟨hne, hs⟩
    · obtain ⟨hnone, hnot⟩ := hdraft (Option.some.inj hs)
      rintro (hf | ⟨-, j, hj, hfails⟩)
      · exact hnone hf
      · exact hnot j hj hfails
    · rintro (hf | ⟨hr, -⟩)
      · exact h.draft i hs hf
      · exact hne hr
  · intro g' j hj hactive
    rw [hhas]
    rcases update_eq_some.mp hj with ⟨-, hj⟩ | ⟨hne, hj⟩
    · have hnot : ¬ ∃ j', o = some j' ∧ j'.status = .failed := by
        rintro ⟨j', hj', hs⟩
        rw [hj] at hj'
        cases hj'
        rw [hs] at hactive
        cases hactive
      rw [ho j hj, hprior j hj hactive]
      simp [hnot]
    · have hr : j.reportId ≠ r := by
        intro hr
        exact hne (hone g' j hj hr hactive)
      rw [h.prior g' j hj hactive]
      simp [hr]
  · intro g' j hj hs
    rcases update_eq_some.mp hj with ⟨rfl, ho'⟩ | ⟨hne, hv⟩
    · rw [ho j ho']
      exact update_eq_some.mpr (Or.inl ⟨rfl, hcompleted j ho' hs⟩)
    · exact update_eq_some.mpr (Or.inr ⟨hne, h.completed g' j hv hs⟩)

/-- The active generation of a report may be set. -/
theorem Phases.Rested.settle {status : ReportStatus} {o : Option Job} {out : Option Id}
    (h : v.Rested) (hag : v.Agreed) (hj : v.generation g = some j)
    (hactive : j.status.active = true)
    (ho : ∀ j', o = some j' → j'.reportId = j.reportId ∧ j'.prior = j.prior)
    (hfailed : status = .failed → j.prior = .failed ∨ ∃ j', o = some j' ∧ j'.status = .failed)
    (hdraft : status = .draft → j.prior = .draft ∧ ∀ j', o = some j' → j'.status ≠ .failed)
    (hcompleted : ∀ j', o = some j' → j'.status = .completed → out = some j.reportId) :
    (v.set j.reportId status g o out).Rested := by
  have hprior := h.prior g j hj hactive
  refine h.set ?_ ?_ (fun j' hj' => (ho j' hj').1) ?_ ?_ ?_ hcompleted
  · intro j' hj'
    rw [hj] at hj'
    cases hj'
    exact ⟨rfl, hactive⟩
  · intro g' j' hj' hr hactive'
    exact hag.one g' g j' j hj' hj hr hactive' hactive
  · intro hs
    exact (hfailed hs).imp_left hprior.mp
  · intro hs
    obtain ⟨hd, hnot⟩ := hdraft hs
    refine ⟨fun hf => ?_, hnot⟩
    rw [hprior.mpr hf] at hd
    cases hd
  · intro j' hj' _
    rw [(ho j' hj').2]
    exact hprior

/-- A generation that moves leaves its report accounted for. -/
theorem Phases.Rested.moved {status : ReportStatus} {s : ReportGenerationStatus} (h : v.Rested)
    (hag : v.Agreed) (hj : v.generation g = some j) (hactive : j.status.active = true)
    (hfailed : status = .failed → j.prior = .failed ∨ s = .failed)
    (hdraft : status = .draft → j.prior = .draft ∧ s ≠ .failed) (hs : s ≠ .completed) :
    (v.move g { j with status := s } status).Rested := by
  have hnone : v.output g = none := hag.output_eq_none (by simp [hj, hactive])
  rw [Phases.move_eq_set hnone]
  show (v.set j.reportId status g (some { j with status := s }) none).Rested
  exact h.settle hag hj hactive (by simp) (by simpa using hfailed) (by simpa using hdraft)
    (by simpa using hs)

/-- A new report is a draft, without a failed generation. -/
theorem Phases.Rested.create (h : v.Rested) (hag : v.Agreed) (hnone : v.report i = none) :
    ({ v with report := update v.report i (some .draft) } : Phases).Rested := by
  refine ⟨fun r hr => ?_, fun r hr => ?_, h.prior, h.completed⟩
  · rcases update_eq_some.mp hr with ⟨-, hr⟩ | ⟨-, hr⟩
    · cases hr
    · exact h.failed r hr
  · rcases update_eq_some.mp hr with ⟨rfl, -⟩ | ⟨-, hr⟩
    · rintro ⟨g, j, hj, hri, -⟩
      exact hag.absent hnone g j hj hri
    · exact h.draft r hr

/-- What is left of the others is accounted for as before. -/
theorem Phases.Rested.delete (h : v.Rested) (i : Id) :
    ({
      report := update v.report i none
      generation := fun g => (v.generation g).filter fun j => j.reportId ≠ i
      output := fun g => (v.output g).filter fun r => r ≠ i } : Phases).Rested := by
  have hhas : ∀ {r : Id}, r ≠ i →
      ((∃ g j, ((v.generation g).filter fun j => j.reportId ≠ i) = some j ∧ j.reportId = r ∧
        j.status = .failed) ↔ v.Has r .failed) := by
    intro r hr
    constructor
    · rintro ⟨g, j, hj, hjr, hs⟩
      exact ⟨g, j, (Option.filter_eq_some_iff.mp hj).1, hjr, hs⟩
    · rintro ⟨g, j, hj, hjr, hs⟩
      exact ⟨g, j, Option.filter_eq_some_iff.mpr ⟨hj, by simpa [hjr] using hr⟩, hjr, hs⟩
  refine ⟨fun r hr => ?_, fun r hr => ?_, ?_, ?_⟩
  · rcases update_eq_some.mp hr with ⟨-, hr⟩ | ⟨hne, hr⟩
    · cases hr
    · exact (hhas hne).mpr (h.failed r hr)
  · rcases update_eq_some.mp hr with ⟨-, hr⟩ | ⟨hne, hr⟩
    · cases hr
    · intro hf
      exact h.draft r hr ((hhas hne).mp hf)
  · intro g j hj hactive
    obtain ⟨hj, hne⟩ := Option.filter_eq_some_iff.mp hj
    rw [h.prior g j hj hactive]
    exact (hhas (by simpa using hne)).symm
  · intro g j hj hs
    obtain ⟨hj, hne⟩ := Option.filter_eq_some_iff.mp hj
    exact Option.filter_eq_some_iff.mpr ⟨h.completed g j hj hs, hne⟩

/-- Every step keeps the reports at rest accounted for. -/
theorem Phases.Step.rested (hstep : Phases.Step v v') (hag : v.Agreed) (h : v.Rested) :
    v'.Rested := by
  cases hstep with
  | created hnone => exact h.create hag hnone
  | @started g j hnone hreport hprior hqueued =>
      have hidle := hag.idle (r := j.reportId)
        (by rcases hprior with hp | hp <;> simp [hreport, hp])
        (by rcases hprior with hp | hp <;> simp [hreport, hp])
      have hshown : j.prior = .failed ↔ v.Has j.reportId .failed := by
        constructor
        · intro hp
          exact h.failed _ (by rw [hreport, hp])
        · intro hf
          rcases hprior with hp | hp
          · exact absurd hf (h.draft _ (by rw [hreport, hp]))
          · exact hp
      rw [Phases.move_eq_set (hag.output_eq_none (by simp [hnone]))]
      refine h.set (by simp [hnone]) ?_ (by simp) (by simp) (by simp) ?_ (by simp [hqueued])
      · intro g' j' hj' hr hactive
        rw [hidle g' j' hj' hr] at hactive
        cases hactive
      · intro j' hj' _
        cases hj'
        exact hshown
  | claimed hj hactive => exact h.moved hag hj hactive (by simp) (by simp) (by simp)
  | requeued hj hs => exact h.moved hag hj (by rw [hs]; rfl) (by simp) (by simp) (by simp)
  | cancelled hj hs => exact h.moved hag hj (by rw [hs]; rfl) Or.inl (by simp) (by simp)
  | failed hj hs => exact h.moved hag hj (by rw [hs]; rfl) (by simp) (by simp) (by simp)
  | @published g j hj hs hnone =>
      show (v.set j.reportId .ready g (some { j with status := .completed })
        (some j.reportId)).Rested
      exact h.settle hag hj (by rw [hs]; rfl) (by simp) (by simp) (by simp) (by simp)
  | @compensated g j hj hs =>
      have hactive : j.status.active = true := by
        rw [hs]
        rfl
      have hout : v.output g = none := hag.output_eq_none (by simp [hj, hactive])
      have hsame : update v.output g none = v.output := by
        rw [← hout]
        exact Function.update_eq_self g v.output
      have hset : (v.set j.reportId j.prior g none none).Rested :=
        h.settle hag hj hactive (by simp) Or.inl (by simp) (by simp)
      simpa [Phases.set, hsame] using hset
  | @deleted i _ _ _ _ => exact h.delete i

/-- So they are in every state of the machine. -/
theorem Phases.Run.rested (h : v.Run) : v.Rested := by
  induction h with
  | refl => exact .empty
  | tail hrun hstep ih => exact hstep.rested (Phases.Run.agreed hrun) ih

/-- What a report shows is read off its generations. -/
theorem Phases.Run.shown (h : v.Run) {status : ReportStatus} (hr : v.report r = some status)
    {l : List ReportGenerationStatus} (hl : ∀ s, s ∈ l ↔ v.Has r s) :
    status = shownStatus l := by
  have hag := h.agreed
  have hrest := h.rested
  have hqueued := (hag.queued r).trans (hl .queued).symm
  have hprocessing := (hag.processing r).trans (hl .processing).symm
  have hready : v.report r = some .ready ↔ .completed ∈ l := by
    rw [hag.ready, hl]
    constructor
    · rintro ⟨g, ho⟩
      obtain ⟨j, hj, hjr, hs⟩ := hag.output g r ho
      exact ⟨g, j, hj, hjr, hs⟩
    · rintro ⟨g, j, hj, rfl, hs⟩
      exact ⟨g, hrest.completed g j hj hs⟩
  have hfailed := fun hs => (hl .failed).mpr (hrest.failed r hs)
  have hdraft := fun hs => mt (hl .failed).mp (hrest.draft r hs)
  rw [hr] at hqueued hprocessing hready hfailed hdraft
  unfold shownStatus
  cases status <;> simp_all

end FastRep.Reports
