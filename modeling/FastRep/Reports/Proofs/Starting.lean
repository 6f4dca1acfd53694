/-
What starting, compensating and cancelling a generation commit.

The compensation decides on a read that takes no lock. What it commits is
therefore stated together with that read and with everything that happened
while the transaction stayed open (`Triple.compensate`). A cancellation begins
with a guarded update and has the row.

# The start

The transaction of a start runs at one moment, so all its checks are facts of
the committed rows: it finds the generation of its key, or creates one with
the id that was drawn (`TxEnds.startTransaction`). That no generation of the
report is active is not checked; the insert would violate the partial index
(`no_active_of_insert`).

A start then holds a generation it has seen (`Holding`, `Seen`), enqueues its
job, and answers with it, or compensates. Retries use the same id.
-/
import FastRep.Reports.Proofs.Processing

namespace FastRep.Reports

open FastRep.Txn

variable {cfg : Config} {start : RState} {t : Tid} {s : Site} {C : RContract}
  {S S' : RState} {P : Knows t} {g : Id}

-- ========================================================== the ledger part

/-- The writes that settle a reservation are those of grants and ledger
entries. -/
theorem Releases.target {ws : List (Write Row Key)} (h : Releases g ws S) :
    ∀ w ∈ ws, (∃ i, w.target = .grant i) ∨ ∃ k, w.target = .ledger k := by
  rcases h with ⟨rfl, -⟩ | ⟨x, l, rfl, -⟩
  · simp
  · intro w hw
    rcases List.mem_cons.mp hw with rfl | hw
    · exact Or.inl ⟨x.id, rfl⟩
    · cases List.mem_singleton.mp hw
      exact Or.inr ⟨l.idempotencyKey, rfl⟩

theorem Releases.not_report {ws : List (Write Row Key)} {i : Id} (h : Releases g ws S) :
    ∀ w ∈ ws, w.target ≠ Key.report i := by
  intro w hw he
  rcases h.target w hw with ⟨_, h⟩ | ⟨_, h⟩
  · cases h.symm.trans he
  · cases h.symm.trans he

theorem Releases.not_generation {ws : List (Write Row Key)} {i : Id}
    (h : Releases g ws S) : ∀ w ∈ ws, w.target ≠ Key.generation i := by
  intro w hw he
  rcases h.target w hw with ⟨_, h⟩ | ⟨_, h⟩
  · cases h.symm.trans he
  · cases h.symm.trans he

-- =========================================================== compensation

/-- Deleting a generation at the end of a transaction. -/
theorem TxSafe.deleteGeneration {ws : List (Write Row Key)}
    {F : Unit → List (Write Row Key) → RState → Prop}
    (hws : ∀ w ∈ ws, w.target ≠ Key.generation g)
    (h : ∀ S' y removal, Within C t s S S' → generation? S'.db g = some y →
      Removes (fun i => i = g) (fun _ => False) (applyAll ws S'.db) removal →
      F () (ws ++ removal) S') :
    TxSafe C t s F (deleteOrThrow (.generation g)) ws S := by
  refine TxSafe.of_bind_pure (TxSafe.deleteOrThrow fun S₁ r hS₁ hW₁ hfind => ?_)
  refine TxSafe.pure fun S₂ hS₂ => ?_
  obtain ⟨y, rfl, -⟩ := find?_generation hfind
  have hremoves := Removes.generation (d := applyAll ws S₁.db) (g := g)
    (by rw [generation?_eq_some.mpr hfind]; rfl)
  -- what the deletion writes is locked until the commit
  have hsame : ∀ w ∈ (applyAll ws S₁.db).deletion [.generation g],
      S₂.db.find? w.target = S₁.db.find? w.target :=
    fun w hw => hS₂.within.find?_of_writes hw
  refine h S₂ y _ (hW₁.trans hS₂.within) ?_ ?_
  · rw [generation?_eq_some]
    refine (hsame _ (hremoves.complete g rfl)).trans ?_
    rw [find?_applyAll_ne hws] at hfind
    exact hfind
  · exact hremoves.congr (fun _ _ h => h.elim) fun w hw => find?_applyAll_congr (hsame w hw) _

/-- A compensation serves the request it belongs to. -/
theorem Triple.compensate {q : Req} (hallow : Allows P (.compensateQueueFailure g))
    (hq : ∀ S, P.holds S → (Known.serving q : Knows t).holds S) :
    Triple (contract cfg start) P (compensateQueueFailure g) (fun _ => Known.serving q)
      (fun _ => Known.serving q) := by
  refine Triple.transaction (F := fun _ ws S' => Compensates t g ws S') (fun S _ hopen => ?_)
    (fun _ ws S hP hF => ⟨⟨hF, hallow S hP⟩, Known.serving_commit (hq S hP)⟩)
    fun _ S hP => (Known.serving q).lasts Later.rollback (hq S hP)
  refine TxSafe.select fun S₁ hS₁ hW₁ => ?_
  split
  next => exact TxSafe.pure fun _ _ => Or.inl rfl
  next x hx =>
      split
      next => exact TxSafe.pure fun _ _ => Or.inl rfl
      next hqueued =>
          have hid : x.id = g := generation?_id hx
          have hopen₁ : (S₁.ran t (.compensateQueueFailure g) []).toScene.OpenAt t _ 1 :=
            (hopen.within hS₁.within).ran
          refine TxSafe.bind (TxSafe.release OffLedger.nil)
            fun _ _ S₂ hW₂ hF => ?_
          obtain ⟨credit, hws, hcredit⟩ := hF
          cases hws
          rw [List.nil_append]
          have hcredit₀ := hcredit S₂ Within.refl
          rw [hid] at hcredit hcredit₀ ⊢
          refine TxSafe.updateReport hcredit₀.not_report (fun _ => rfl)
            (fun S₃ hW₃ hnone => ?_) fun S₃ r hW₃ hp hr => ?_
          · refine TxSafe.deleteGeneration hcredit₀.not_generation
              fun S₄ y removal hW₄ hy hremoves => ?_
            -- the statement that found the report not QUEUED is in the window
            obtain ⟨hopen₃, newer₃, htr₃, hall₃⟩ := (hW₂.trans hW₃).split hopen₁
            obtain ⟨-, newer₄, htr₄, hall₄⟩ := hW₄.split (hopen₃.ran.mono (Nat.le_succ 1))
            let reset : REntry := ⟨t, .statement (.compensateQueueFailure g), S₃.toScene⟩
            refine Or.inr ⟨newer₄ ++ reset :: newer₃, S₁.trace,
              ⟨t, .statement (.compensateQueueFailure g), S₁.toScene⟩, x, y, credit, [],
              removal, ?_, rfl, rfl, ?_, hx, not_not.mp hqueued, by simp,
              hcredit S₄ (hW₃.trans ((Within.ran (by simp)).trans hW₄)),
              Or.inr ⟨rfl, reset, by simp, fun r hr hst => ?_⟩, hy, by simpa using hremoves⟩
            · rw [htr₄, List.append_assoc]
              exact congrArg (newer₄ ++ reset :: ·) htr₃
            · intro e he
              rcases List.mem_append.mp he with he | he
              · exact hall₄ e he
              · rcases List.mem_cons.mp he with rfl | he
                · exact hopen₃
                · exact hall₃ e he
            · simpa [hst] using hnone r hr
          · refine TxSafe.deleteGeneration ?_ fun S₄ y removal hW₄ hy hremoves => ?_
            · intro w hw
              rcases List.mem_append.mp hw with hw | hw
              · exact hcredit₀.not_generation w hw
              · cases List.mem_singleton.mp hw
                simp [Write.target, key]
            · obtain ⟨-, newer, htr, hall⟩ := (hW₂.trans (hW₃.trans hW₄)).split hopen₁
              exact Or.inr ⟨newer, S₁.trace,
                ⟨t, .statement (.compensateQueueFailure g), S₁.toScene⟩, x, y, credit, _,
                removal, htr, rfl, rfl, hall, hx, not_not.mp hqueued, rfl,
                hcredit S₄ (hW₃.trans hW₄),
                Or.inl ⟨r, hr S₄ hW₄, by simpa using hp, rfl⟩, hy, hremoves⟩

-- ================================================================ cancel

/-- The transaction of a cancellation has its effect. -/
theorem Keeps.cancelTransaction {userId reportId : Id} (hallow : Allows P (.cancel g)) :
    Keeps (contract cfg start) P
      (transaction (.cancel g) (cancelTransaction userId reportId g)) := by
  refine Keeps.effect rfl hallow fun S _ => TxSafe.select fun S₁ hS₁ hW₁ => ?_
  split
  next => exact TxSafe.throw _
  next current hcurrent =>
      obtain ⟨hread, -⟩ := Option.filter_eq_some_iff.mp hcurrent
      have honce : Once (S₁.ran t (.cancel g) []) fun d => ∃ y, generation? d g = some y ∧
          y.priorReportStatus = current.priorReportStatus :=
        Once.ran ⟨current, hread, rfl⟩
      refine TxSafe.clock fun S₂ hS₂ => ?_
      refine TxSafe.updateGeneration (by simp) (fun _ => rfl) (fun S₃ _ => TxSafe.throw _)
        fun S₃ x hW₃ hid hguard hpin => ?_
      simp only [Bool.and_eq_true, decide_eq_true_eq] at hguard
      obtain ⟨⟨hreport, -⟩, hqueued⟩ := hguard
      refine TxSafe.updateReportOrThrow (by simp [Write.target, key]) (fun _ => rfl)
        fun S₄ r hW₄ hr => ?_
      refine TxSafe.bind (TxSafe.release (OffLedger.generation_report _ _))
        fun _ ws S₅ hW₅ hF => ?_
      obtain ⟨credit, hws, hrel⟩ := hF
      refine TxSafe.selectOrThrow fun S₆ z hS₆ hW₆ _ => TxSafe.pure fun S₇ hS₇ => ?_
      have hW := hW₆.trans hS₇.within
      refine ⟨x, r, S₂.clock, current.priorReportStatus, credit, ?_, hqueued, ?_, ?_, hws,
        hrel S₇ hW⟩
      · rw [← hid]
        exact hpin S₇ (hW₄.trans (hW₅.trans hW))
      · rw [hreport]
        exact hr S₇ (hW₅.trans hW)
      · exact honce.mono
          (hS₂.within.trans (hW₃.trans (hW₄.trans (hW₅.trans hW)))).trace_suffix

/-- Looking a generation up keeps what is known. -/
theorem Keeps.findOne {userId reportId : Id} (hallow : Allows P (.findGeneration g)) :
    Keeps (contract cfg start) P (findOne userId reportId g) := by
  refine Keeps.bind (Keeps.read rfl hallow fun _ => rfl) fun generation => ?_
  cases generation with
  | none => exact Keeps.throw
  | some x => exact Keeps.pure

theorem Keeps.cancel {userId reportId : Id} (hfind : Allows P (.findGeneration g))
    (hcancel : Allows P (.cancel g)) :
    Keeps (contract cfg start) P (cancel userId reportId g) := by
  refine Keeps.bind (Keeps.findOne hfind) fun generation => ?_
  split
  next => exact Keeps.throw
  next =>
      refine Keeps.bind (Keeps.attempt (Keeps.call fun _ _ => trivial)) fun removed => ?_
      cases removed with
      | error _ => exact Keeps.throw
      | ok _ => exact Keeps.cancelTransaction hcancel

-- ============================================================== enqueueing

/-- Whoever has had its job taken may note that. -/
theorem Keeps.markEnqueued (hallow : Allows P (.markEnqueued g))
    (htaken : ∀ S, P.holds S → Acknowledged S t g) :
    Keeps (contract cfg start) P (markEnqueued g) := by
  refine Keeps.bind Keeps.clock fun now => Keeps.bind (Keeps.effect rfl hallow fun S hP => ?_)
    fun _ => Keeps.pure
  refine TxSafe.of_bind_pure (TxSafe.updateGeneration (by simp) (fun _ => rfl)
    (fun S₁ _ => TxSafe.pure fun _ _ => Or.inl rfl) fun S₁ x hS₁ hid hguard hpin => ?_)
  simp only [Bool.and_eq_true, decide_eq_true_eq] at hguard
  refine TxSafe.pure fun S₂ hS₂ => Or.inr ⟨x, now, ?_, hguard.1, rfl, ?_⟩
  · rw [← hid]
    exact hpin S₂ hS₂.within
  · exact htaken S₂ (P.lasts (hS₁.later.trans hS₂.later) hP)

/-- A start found the generation under its key, or created it. -/
def Seen (t : Tid) (userId reportId : Id) (idempotencyKey : String)
    (generationId : Id) : Knows t :=
  .entry fun e => e.tid = t ∧
    ((∃ x, generation? e.before.db generationId = some x ∧ x.userId = userId ∧
        x.reportId = reportId ∧ x.idempotencyKey = idempotencyKey ∧
        (e.event = .statement (.findExisting userId reportId idempotencyKey) ∨
          ∃ g ws, e.event = .commit (.start userId reportId idempotencyKey g) ws)) ∨
      ∃ ws, e.event = .commit (.start userId reportId idempotencyKey generationId) ws
        ∧ ws ≠ [])

theorem Seen.existed {userId reportId : Id} {idempotencyKey : String}
    (h : (Seen t userId reportId idempotencyKey g).holds S) : Existed S g := by
  obtain ⟨e, he, -, ⟨x, hx, -⟩ | ⟨ws, hev, hws⟩⟩ := h
  · exact ⟨e, he, Or.inl (by rw [hx]; rfl)⟩
  · exact ⟨e, he, Or.inr ⟨_, _, _, ws, hev, hws⟩⟩

/-- The generation needs no job, or the queue has taken it for the thread. -/
def Enqueued (x : ReportGeneration) : Knows t where
  holds := fun S => x.status ≠ .queued ∨ x.enqueuedAt.isSome = true ∨ Acknowledged S t x.id
  lasts := fun h => Or.imp_right (Or.imp_right fun ⟨e, he, hp⟩ => ⟨e, h.trace.subset he, hp⟩)

/-- An answer without an error is an acknowledgment. -/
theorem Answered.acknowledged (h : (Answered P (.enqueue g) ()).holds S) :
    Acknowledged S t g := by
  obtain ⟨e, he, ht, ⟨c, env, hev, hperform⟩, -⟩ := h
  refine ⟨e, he, ht, ?_⟩
  cases c with
  | done => exact hev
  | _ => simp [Services.perform, Call.serve, Call.throws, Call.losable] at hperform

/-- A job is enqueued for a generation that existed, and the generation is
returned. -/
theorem Triple.ensureEnqueued {q : Req} {x : ReportGeneration}
    (hq : ∀ S, P.holds S → (Known.serving q : Knows t).holds S)
    (hallow : ∀ s, s = .compensateQueueFailure x.id ∨ s = .markEnqueued x.id → Allows P s)
    (hexisted : ∀ S, P.holds S → Existed S x.id) :
    Triple (contract cfg start) P (ensureEnqueued x)
      (fun r => (P.and (Enqueued x)).and (.prop (r.id = x.id))) (fun _ => Known.serving q) := by
  unfold Reports.ensureEnqueued
  split
  next hdone => exact Triple.pure fun _ hP => ⟨⟨hP, hdone.imp_right Or.inl⟩, rfl⟩
  next =>
      have henqueue : Triple (contract cfg start) P (awaitOk (.enqueue x.id))
          (fun a => P.and (Answered P (.enqueue x.id) a)) (fun _ => P) :=
        Triple.call hexisted
      refine Triple.bind (Triple.attempt (R := fun enqueued => match enqueued with
          | .ok a => P.and (Answered P (.enqueue x.id) a)
          | .error _ => P)
        (henqueue.conseq (fun _ h => h) (fun _ _ h => h) fun _ _ h => h)) fun enqueued => ?_
      cases enqueued with
      | error _ =>
          refine Triple.bind (Triple.attempt (R := fun _ => Known.serving q)
            (Triple.compensate (hallow _ (Or.inl rfl)) hq)) fun _ => ?_
          exact Triple.throw fun _ h => h
      | ok a =>
          have hmark : Keeps (contract cfg start) (P.and (Answered P (.enqueue x.id) a))
              (Reports.markEnqueued x.id).attempt :=
            Keeps.attempt (Keeps.markEnqueued (fun S hS => hallow _ (Or.inr rfl) S hS.1)
              fun S hS => Answered.acknowledged hS.2)
          refine Triple.bind (hmark.conseq (fun _ h => h) (fun _ _ h => h)
            fun _ S h => hq S h.1) fun _ => ?_
          exact Triple.pure fun _ hP =>
            ⟨⟨hP.1, Or.inr (Or.inr (Answered.acknowledged hP.2))⟩, rfl⟩

-- ================================================================= start

/-- A reservation writes a grant and an entry. -/
theorem Reserves.target {ws : List (Write Row Key)} {d : Db Row} (h : Reserves g ws d) :
    ∀ w ∈ ws, (∃ i, w.target = .grant i) ∨ ∃ k, w.target = .ledger k := by
  rcases h with ⟨rfl, -⟩ | ⟨x, l, rfl, -⟩
  · simp
  · intro w hw
    rcases List.mem_cons.mp hw with rfl | hw
    · exact Or.inl ⟨x.id, rfl⟩
    · cases List.mem_singleton.mp hw
      exact Or.inr ⟨l.idempotencyKey, rfl⟩

section Checks

variable {n : Nat} {d : Db Row} {ws : List (Write Row Key)}

/-- A report that is not locked passes the check. -/
theorem TxEnds.assertReportUnlocked {report : Report} :
    TxEnds n d (fun _ ws' => ws' = ws ∧ ∀ lockedUntil,
      report.reportGenerationLockedUntil = some lockedUntil → lockedUntil ≤ n)
      (assertReportUnlocked report) ws := by
  unfold Reports.assertReportUnlocked
  split
  next hnone => exact TxEnds.pure ⟨rfl, by simp [hnone]⟩
  next until_ hlock =>
      refine TxEnds.clock ?_
      split
      next hle => exact TxEnds.pure ⟨rfl, by simp [hlock, hle]⟩
      next => exact TxEnds.throw _

theorem TxEnds.validateSources {notes : Option String} {assets : List ReportAsset} :
    TxEnds n d (fun _ ws' => ws' = ws ∧ ∀ x ∈ assets, x.status = .ready)
      (validateSources notes assets) ws := by
  unfold Reports.validateSources
  split
  next => exact TxEnds.throw _
  next hpending =>
      split
      next => exact TxEnds.throw _
      next hrejected =>
          split
          next => exact TxEnds.throw _
          next =>
              refine TxEnds.pure ⟨rfl, fun x hx => ?_⟩
              simp only [List.any_eq_true, decide_eq_true_eq, not_exists, not_and] at hpending hrejected
              cases hs : x.status with
              | pendingUpload => exact absurd hs (hpending x hx)
              | rejected => exact absurd hs (hrejected x hx)
              | ready => rfl

/-- A start within the limits passes the check. -/
theorem TxEnds.enforceStartLimits {userId : Id} :
    TxEnds n d (fun _ ws' => ws' = ws ∧
      createdSince (fun x => x.userId = userId)
        (n - cfg.generationStartRateWindowSeconds * 1000) (applyAll ws d)
        < cfg.generationStartRateLimit ∧
      createdSince (fun x => x.userId = userId) (n - 86400000) (applyAll ws d)
        < cfg.generationDailySafetyLimit ∧
      createdSince (fun _ => true) (n - 86400000) (applyAll ws d)
        < cfg.aiGlobalDailyGenerationLimit) (enforceStartLimits cfg userId) ws := by
  refine TxEnds.clock (TxEnds.select (TxEnds.select (TxEnds.select ?_)))
  split
  next => exact TxEnds.throw _
  next hhourly =>
      split
      next => exact TxEnds.throw _
      next hdaily =>
          split
          next => exact TxEnds.throw _
          next hglobal =>
              exact TxEnds.pure
                ⟨rfl, not_le.mp hhourly, not_le.mp hdaily, not_le.mp hglobal⟩

end Checks

/-- A generation that could be inserted has no active sibling. -/
theorem no_active_of_insert {d : Db Row} {x y : ReportGeneration}
    (hnone : d.find? (.generation x.id) = none)
    (hviol : d.violation (Row.generation x) = none) (hx : x.status.active = true)
    (hy : y ∈ generations d) (hya : y.status.active = true) : y.reportId ≠ x.reportId := by
  intro hrep
  have hmem : Row.generation y ∈ d.rows := by
    rw [mem_generations] at hy
    exact Db.mem_of_find? (generation?_eq_some.mp hy)
  refine Db.notMem_indexes_of_clashes (i := .activeReport x.reportId)
    (Db.violation_eq_none hviol).1 hmem ?_ ?_ ?_
  · intro he
    rw [Db.find?_eq_none_iff] at hnone
    exact hnone _ hmem he
  · show _ ∈ x.indexes
    simp [ReportGeneration.indexes, hx]
  · show _ ∈ y.indexes
    simp [ReportGeneration.indexes, hya, hrep]

/-- A generation is found as it was inserted, as long as nothing else writes
it. -/
theorem generation?_of_inserted {x : ReportGeneration} {d : Db Row} {rest : List (Write Row Key)}
    (hrest : ∀ w ∈ rest, w.target ≠ .generation x.id) :
    generation? (applyAll (.insert (.generation x) :: rest) d) x.id = some x := by
  rw [generation?_eq_some, applyAll_cons, find?_applyAll_ne hrest]
  exact Db.find?_put_self d _

/-- The transaction of a start finds the generation of its key or creates one,
with its id, for which there is no job yet. -/
theorem TxEnds.startTransaction {userId reportId : Id} {idempotencyKey : String}
    (hids : S.ids t = [g]) (hmarks : marks S t = []) :
    TxEnds S.clock S.db (fun x ws => Starts cfg t userId reportId idempotencyKey g ws S ∧
        ((ws = [] ∧ generationByKey userId reportId idempotencyKey S.db = some x) ∨
          (ws ≠ [] ∧ x.id = g ∧ x.status = .queued ∧ x.enqueuedAt = none)))
      (startTransaction cfg userId reportId idempotencyKey g) [] := by
  refine TxEnds.select ?_
  split
  next x hx => exact TxEnds.pure ⟨Or.inl ⟨rfl, Option.isSome_iff_exists.mpr ⟨x, hx⟩⟩,
      Or.inl ⟨rfl, hx⟩⟩
  next hfresh =>
      refine TxEnds.select ?_
      split
      next => exact TxEnds.throw _
      next report hreport =>
          obtain ⟨hreport, huser⟩ := Option.filter_eq_some_iff.mp hreport
          refine TxEnds.selectOrThrow fun user _ => TxEnds.select ?_
          split
          next => exact TxEnds.throw _
          next =>
          split
          next => exact TxEnds.throw _
          next =>
          split
          next => exact TxEnds.throw _
          next =>
          split
          next => exact TxEnds.throw _
          next hstatus =>
          refine TxEnds.bind TxEnds.assertReportUnlocked fun _ ws hF => ?_
          obtain ⟨hws, hlock⟩ := hF
          cases hws
          refine TxEnds.bind TxEnds.validateSources fun _ ws hF => ?_
          obtain ⟨hws, hready⟩ := hF
          cases hws
          refine TxEnds.bind TxEnds.enforceStartLimits fun _ ws hF => ?_
          obtain ⟨hws, hlimits⟩ := hF
          cases hws
          refine TxEnds.clock (TxEnds.insertRow fun hnone hviol => ?_)
          refine TxEnds.bind (TxEnds.reserve (by simp [OffLedger, Write.target, key]))
            fun _ ws hF => ?_
          obtain ⟨credit, hws, hcredit⟩ := hF
          cases hws
          refine TxEnds.updateOrThrow fun r hr _ => ?_
          refine TxEnds.selectOrThrow fun x hx => TxEnds.pure ?_
          have hother : ∀ y : ReportGeneration, ∀ w ∈ [] ++ [Write.insert (Row.generation y)]
              ++ credit, w.target ≠ Key.report reportId := by
            intro y w hw he
            rcases List.mem_append.mp hw with hw | hw
            · cases List.mem_singleton.mp hw
              cases he
            · rcases hcredit.target w hw with ⟨_, h⟩ | ⟨_, h⟩
              · cases h.symm.trans he
              · cases h.symm.trans he
          have hfind := report?_eq_some.mp hreport
          rw [applyAll_nil] at hfind
          rw [find?_applyAll_ne (hother _), hfind] at hr
          cases hr
          have hreport' : report.status = .draft ∨ report.status = .failed := by
            by_contra hno
            exact hstatus (not_or.mp hno)
          refine ⟨Or.inr ⟨report, user, credit, rfl, hcredit, ?_, ?_, hreport,
            by simpa using huser, hreport', ?_, hids, hmarks, hlock, hready, hlimits⟩,
            Or.inr ⟨by simp, generation?_id hx, ?_⟩⟩
          · exact generation?_eq_none.mpr hnone
          · exact hfresh
          · exact fun y hy hya => no_active_of_insert hnone hviol rfl hy hya
          · rw [List.nil_append, List.singleton_append, List.cons_append] at hx
            have hrow := hx.symm.trans (generation?_of_inserted fun w hw => ?_)
            · cases hrow
              exact ⟨rfl, rfl⟩
            · rcases List.mem_append.mp hw with hw | hw
              · rcases hcredit.target w hw with ⟨_, h⟩ | ⟨_, h⟩ <;> simp [h]
              · cases List.mem_singleton.mp hw
                simp [Write.target, key, setReport]

-- ============================================================== requests

/-- A client request whose thread has drawn no id and made no marked
commit. -/
def Fresh (q : Req) : Knows t := (Known.serving q).and (.drew [] [])

/-- The same after the id of a new row is drawn. -/
def Drawn (q : Req) (i : Id) : Knows t := (Known.serving q).and (.drew [i] [])

/-- A client's request may commit at a site that does no work. -/
theorem Allows.drew {q : Req} (hs : s.working = false) (hq : q.ofClient = true)
    {ns : List Nat} {ss : List Site} :
    Allows ((Known.serving q).and (.drew ns ss) : Knows t) s :=
  Allows.of_client hs hq fun _ hP => hP.1

section Start

variable {q : Req} {userId reportId : Id} {idempotencyKey : String}

/-- What a start knows once it has its generation: the row was just created, or
was found. -/
def Holding (q : Req) (userId reportId : Id) (idempotencyKey : String)
    (x : ReportGeneration) : Knows t where
  holds := fun S => (S.asked t = [q] ∧ (t, q) ∈ S.live) ∧
    Holds t userId reportId idempotencyKey x.id S ∧
    ((x.status = .queued ∧ x.enqueuedAt = none) ∨
      ∃ e ∈ S.trace, e.tid = t ∧ generation? e.before.db x.id = some x)
  lasts := fun h ⟨⟨hask, hlive⟩, ⟨⟨e, he, hp⟩, hmarks⟩, hrow⟩ => by
    refine ⟨⟨h.asked.trans hask, h.live q hlive⟩, ⟨⟨e, h.trace.subset he, hp⟩, ?_⟩,
      hrow.imp_right fun ⟨e, he, hx⟩ => ⟨e, h.trace.subset he, hx⟩⟩
    rcases hmarks with hm | hm | ⟨i, hm, e', he', hp'⟩
    · exact Or.inl (h.marks.trans hm)
    · exact Or.inr (Or.inl (h.marks.trans hm))
    · exact Or.inr (Or.inr ⟨i, h.marks.trans hm, e', h.trace.subset he', hp'⟩)

/-- What it knows when it answers. -/
def Answering (q : Req) (userId reportId : Id) (idempotencyKey : String)
    (generationId : Id) : Knows t where
  holds := fun S => (S.asked t = [q] ∧ (t, q) ∈ S.live) ∧
    Answers t userId reportId idempotencyKey generationId S
  lasts := fun h ⟨⟨hask, hlive⟩, ⟨⟨e, he, hp⟩, hmarks⟩, hrow⟩ => by
    refine ⟨⟨h.asked.trans hask, h.live q hlive⟩, ⟨⟨e, h.trace.subset he, hp⟩, ?_⟩,
      hrow.imp (fun ⟨e, he, h'⟩ => ⟨e, h.trace.subset he, h'⟩)
        fun ⟨e, he, hx⟩ => ⟨e, h.trace.subset he, hx⟩⟩
    rcases hmarks with hm | hm | ⟨i, hm, e', he', hp'⟩
    · exact Or.inl (h.marks.trans hm)
    · exact Or.inr (Or.inl (h.marks.trans hm))
    · exact Or.inr (Or.inr ⟨i, h.marks.trans hm, e', h.trace.subset he', hp'⟩)

/-- A row that needs no job was found. -/
theorem Holding.answers {x : ReportGeneration}
    (h : (Holding (t := t) q userId reportId idempotencyKey x).holds S)
    (hqueued : (Enqueued (t := t) x).holds S) :
    (Answering (t := t) q userId reportId idempotencyKey x.id).holds S := by
  obtain ⟨hserving, hholds, hrow⟩ := h
  refine ⟨hserving, hholds, ?_⟩
  rcases hrow with ⟨hstatus, hmarker⟩ | ⟨e, he, ht, hx⟩
  · rcases hqueued with hnot | hmarked | hack
    · exact absurd hstatus hnot
    · simp [hmarker] at hmarked
    · exact Or.inl hack
  · rcases hqueued with hnot | hmarked | hack
    · exact Or.inr ⟨e, he, ht, x, hx, Or.inl hnot⟩
    · exact Or.inr ⟨e, he, ht, x, hx, Or.inr hmarked⟩
    · exact Or.inl hack

/-- The row found under a key is stored. -/
theorem generation?_of_key {d : Db Row} {x : ReportGeneration}
    (h : generationByKey userId reportId idempotencyKey d = some x) :
    generation? d x.id = some x :=
  mem_generations.mp (List.mem_of_find?_eq_some h)

/-- A read of the row under the key is one the request may answer with. -/
theorem Seen.of_read {x : ReportGeneration} {e : REntry} (he : e ∈ S.trace) (ht : e.tid = t)
    (hev : e.event = .statement (.findExisting userId reportId idempotencyKey))
    (hx : generationByKey userId reportId idempotencyKey e.before.db = some x) :
    (Seen t userId reportId idempotencyKey x.id).holds S := by
  have hmem := List.mem_of_find?_eq_some hx
  have hkey := List.find?_some hx
  simp only [Bool.and_eq_true, decide_eq_true_eq] at hkey
  exact ⟨e, he, ht, Or.inl ⟨x, mem_generations.mp hmem, hkey.1.1, hkey.1.2, hkey.2,
    Or.inl hev⟩⟩

/-- A start holds a generation, or has given up after its retries. -/
theorem Triple.reserveGeneration (hq : q.ofClient = true) (left : Nat) :
    Triple (contract cfg start) (Drawn q g : Knows t)
      (reserveGeneration cfg userId reportId idempotencyKey g left)
      (fun r => match r with
        | some x => Holding q userId reportId idempotencyKey x
        | none => .serving q)
      (fun _ => .serving q) := by
  induction left with
  | zero => exact Triple.pure fun _ h => h.1
  | succ left ih =>
      refine Triple.catch (F := fun _ => Drawn q g) ?_ fun e => ?_
      · refine Triple.bind (R := fun x => Holding q userId reportId idempotencyKey x)
          (Triple.serializable (fun S hP => ?_) fun _ S hP =>
            (Drawn q g).lasts Later.rollback hP) fun x => Triple.pure fun _ hQ => hQ
        refine (TxEnds.startTransaction hP.2.1 hP.2.2).mono fun x ws ⟨hstarts, hres⟩ => ?_
        have hmarks : marks (S.commit t (.start userId reportId idempotencyKey g) ws) t
            = [.start userId reportId idempotencyKey g] :=
          (Shared.marks_commit rfl).trans (congrArg _ hP.2.2)
        let entry : REntry := ⟨t, .commit (.start userId reportId idempotencyKey g) ws, S.toScene⟩
        have hentry : entry ∈ (S.commit t (.start userId reportId idempotencyKey g) ws).trace :=
          List.mem_cons_self
        refine ⟨⟨hstarts, Allows.drew rfl hq S hP⟩, ⟨hP.1.1, hP.1.2⟩, ?_⟩
        rcases hres with ⟨rfl, hx⟩ | ⟨hne, rfl, hnew⟩
        · have hkey := List.find?_some hx
          simp only [Bool.and_eq_true, decide_eq_true_eq] at hkey
          refine ⟨⟨⟨entry, hentry, rfl, Or.inl ⟨x, generation?_of_key hx, hkey.1.1, hkey.1.2,
            hkey.2, Or.inr ⟨g, [], rfl⟩⟩⟩, Or.inr (Or.inr ⟨g, hmarks, entry, hentry, rfl, rfl⟩)⟩,
            Or.inr ⟨entry, hentry, rfl, generation?_of_key hx⟩⟩
        · exact ⟨⟨⟨entry, hentry, rfl, Or.inr ⟨ws, rfl, hne⟩⟩, Or.inr (Or.inl hmarks)⟩,
            Or.inl hnew⟩
      · split
        next =>
            split
            next => exact ih
            next => exact Triple.throw fun _ h => h.1
        next =>
            refine Triple.bind (Triple.read (E := fun _ => .serving q) rfl (Allows.drew rfl hq)
              (fun _ => rfl) fun _ S h => (Known.serving q).lasts Later.rollback h.1)
              fun duplicate => ?_
            cases duplicate with
            | none => exact Triple.throw fun _ h => h.1.1
            | some x =>
                refine Triple.pure fun S ⟨hP, e, he, ht, hev, hx, _⟩ => ?_
                exact ⟨⟨hP.1.1, hP.1.2⟩, ⟨Seen.of_read he ht hev hx, Or.inl hP.2.2⟩,
                  Or.inr ⟨e, he, ht, generation?_of_key hx⟩⟩
        next => exact Triple.throw fun _ h => h.1

/-- A start answers with a generation of its key. -/
theorem Triple.startGeneration (hq : q.ofClient = true) :
    Triple (contract cfg start) (Fresh q : Knows t)
      (Reports.start cfg userId reportId idempotencyKey)
      (fun r => Answering q userId reportId idempotencyKey r.id) (fun _ => .serving q) := by
  have henqueue : ∀ x : ReportGeneration, Triple (contract cfg start)
      (Holding q userId reportId idempotencyKey x : Knows t) (Reports.ensureEnqueued x)
      (fun r => Answering q userId reportId idempotencyKey r.id) (fun _ => .serving q) := by
    intro x
    have hens : Triple (contract cfg start) _ (Reports.ensureEnqueued x) _ _ :=
      Triple.ensureEnqueued (P := Holding (t := t) q userId reportId idempotencyKey x) (x := x)
      (fun _ hP => hP.1) (fun s hs => Allows.of_client (by rcases hs with rfl | rfl <;> rfl)
        hq fun _ hP => hP.1) fun S hP => Seen.existed hP.2.1.1
    refine hens.conseq (fun _ h => h) (fun r S h => ?_) fun _ _ h => h
    exact h.2 ▸ Holding.answers h.1.1 h.1.2
  unfold Reports.start
  split
  next => exact Triple.throw fun _ h => h.1
  next =>
      split
      next => exact Triple.throw fun _ h => h.1
      next =>
          refine Triple.bind (Triple.read (E := fun _ => .serving q) rfl (Allows.drew rfl hq)
            (fun _ => rfl) fun _ S h => (Known.serving q).lasts Later.rollback h.1)
            fun existing => ?_
          cases existing with
          | some x =>
              refine (henqueue x).conseq (fun S ⟨hP, e, he, ht, hev, hx, _⟩ => ?_)
                (fun _ _ h => h) fun _ _ h => h
              exact ⟨⟨hP.1.1, hP.1.2⟩, ⟨Seen.of_read he ht hev hx, Or.inl hP.2.2⟩,
                Or.inr ⟨e, he, ht, generation?_of_key hx⟩⟩
          | none =>
              refine Triple.bind (R := fun i => Drawn q i) (Triple.randomUUID
                fun S _ hP => Known.drew_drawn hP.1) fun i => ?_
              refine Triple.bind (Triple.reserveGeneration hq _) fun r => ?_
              cases r with
              | none => exact Triple.throw fun _ h => h
              | some x => exact henqueue x

end Start

end FastRep.Reports
