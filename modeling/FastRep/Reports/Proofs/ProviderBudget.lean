/-
How often a provider is paid.

For moderation and report generation the scope of a call is its
generation, which owns its attempts, so the budget holds in every run
(`within_provider_budget`). For a transcription the scope is an asset over
its generations, and it holds in a run in which no compensation removes a
generation that has transcribed the asset
(`within_transcription_budget`).

# From scopes to generations

`Budget.lean` counts the attempts of a scope. Here a scope is said to be what
the operation says: an attempt at a moderation has no asset, one at a
transcription has one (`Runs.scoped`), and a call is made in the scope of its
attempt. So the attempts of a generation at an operation are those of a scope
(`Runs.operationAttempts_perm`), and its calls too (`Runs.callsFor_eq`).

# The lost budget

The attempts of a generation go with it. A start whose enqueue was answered
with an error, though the queue took the job, may be compensated after its
run has called the provider, and the attempts at its assets go as well: the
next generation finds the full budget again (`transcription_budget_exceeded`).
-/
import FastRep.Reports.Proofs.Budget
import FastRep.Reports.Proofs.Reached

namespace FastRep.Reports

open FastRep.Txn

variable {cfg : Config} {start S S' : RState} {t : Tid} {s : Site} {ws : List (Write Row Key)}
  {w : RWorld} {g : Id} {operation : GenerationProviderOperation} {assetId : Option Id}

-- =============================================================== scopes

theorem Scoped.mono (h : Scoped S g operation assetId) (htr : S.trace <:+ S'.trace) :
    Scoped S' g operation assetId := by
  cases assetId with
  | none => exact h
  | some i =>
      obtain ⟨hop, e, he, hx⟩ := h
      exact ⟨hop, e, htr.subset he, hx⟩

/-- The scope of a stored attempt. -/
theorem Runs.scoped (hstart : Begins start) (h : Runs (contract cfg start) S) :
    ∀ id, (attempt? S.db id).isSome = true →
      Scoped S id.generationId id.operation id.assetId := by
  refine h.invariant (I := fun S => ∀ id, (attempt? S.db id).isSome = true →
    Scoped S id.generationId id.operation id.assetId) ?_ ?_
  · intro id hid
    rw [show (contract cfg start).start.db = start.db from rfl, attempt?_eq_none.mpr
      (hstart.unused.find?_eq_none (by simp [Key.table]) (by simp [Key.table]))] at hid
    cases hid
  · intro j S S' _ ih hm id hid
    rcases hm.commit_or with ⟨s, ws, hC, -, rfl⟩ | ⟨hdb, -⟩
    · rcases hC.1.attempt id with hsame | hchange
      · exact (ih id (by rwa [← hsame])).mono hm.trace_suffix
      · cases hbefore : attempt? S.db id with
        | some x => exact (ih id (by rw [hbefore]; rfl)).mono hm.trace_suffix
        | none =>
            obtain ⟨y, hy⟩ := Option.isSome_iff_exists.mp hid
            rw [hbefore, show attempt? (applyAll ws S.db) id = some y from hy] at hchange
            cases hchange with
            | started _ _ _ _ _ _ _ _ _ _ hscope => exact hscope.mono hm.trace_suffix
    · exact (ih id (hdb ▸ hid)).mono hm.trace_suffix

/-- The state in which an entry was made. -/
theorem Runs.effect_at (hstart : Begins start) (h : Runs (contract cfg start) S) {e : REntry}
    (he : e ∈ S.trace) (hev : e.event = .commit s ws) :
    ∃ S₀, Runs (contract cfg start) S₀ ∧ S₀.toScene = e.before ∧ S₀.trace <:+ S.trace ∧
      Effect cfg e.tid s ws S₀ := by
  obtain ⟨S₀, S₁, hpast⟩ := Runs.since hstart.trace h he
  exact ⟨S₀, hpast.runs, hpast.scene, (List.suffix_cons _ _).trans hpast.suffix,
    (hpast.commit hev).1.1⟩

/-- A generation keeps the attempts of its own scopes. -/
theorem Runs.spared_generation (hstart : Begins start) (h : Runs (contract cfg start) S) :
    Spared S g operation none := by
  intro e he s ws hev ho id hscope hbefore
  obtain ⟨S₀, -, hscene, -, heff⟩ := Runs.effect_at hstart h he hev
  rw [← hscene] at ho hbefore ⊢
  simp only [sameScope, Option.isSome_none, Bool.and_false, Bool.false_eq_true, if_false,
    Bool.and_eq_true, decide_eq_true_eq] at hscope
  obtain ⟨⟨rfl, -⟩, hasset⟩ := hscope
  obtain ⟨x, hx⟩ := Option.isSome_iff_exists.mp hbefore
  by_contra hgone
  rw [Option.not_isSome_iff_eq_none] at hgone
  have hstored : generation? (applyAll ws S₀.db) id.generationId ≠ none :=
    Option.isSome_iff_ne_none.mp ho
  rcases heff.attempt_gone hx hgone with ⟨rfl, hne⟩ | ⟨y, rfl, hy⟩ | ⟨a, ha, -⟩
  · exact hstored (heff.compensated_gone hne)
  · exact hstored (heff.deleted_generation hy rfl)
  · rw [hasset] at ha
    cases ha

/-- An attempt that was started has the scope of its operation. -/
theorem Runs.attempt_scope (hstart : Begins start) (h : Runs (contract cfg start) S)
    {e : REntry} (he : e ∈ S.trace) {g tok : Id}
    (hev : e.event = .commit (.startAttempt g tok operation assetId) ws) :
    assetId = none ↔ operation ≠ .transcription := by
  obtain ⟨S₀, -, -, -, heff⟩ := Runs.effect_at hstart h he hev
  obtain ⟨_, _, _, _, _, _, _, _, _, _, hscope⟩ := heff
  cases assetId with
  | none => exact ⟨fun _ => hscope, fun _ => rfl⟩
  | some i => simp [hscope.1]

/-- A paid function is entered in the scope of its operation. -/
theorem Runs.call_scope (hstart : Begins start) (h : Runs (contract cfg start) S)
    {e : REntry} (he : e ∈ S.trace) {g : Id}
    (hev : e.event = .enter (.provider g operation assetId)) :
    assetId = none ↔ operation ≠ .transcription := by
  have hcall : (e.tid, g, operation, assetId) ∈ S.trace.filterMap callOf :=
    List.mem_filterMap.mpr ⟨e, he, by rw [callOf, hev]⟩
  have hpos := Nat.lt_of_lt_of_le (List.count_pos_iff.mpr hcall) (Runs.call_count hstart h _)
  obtain ⟨e', he', hattempt⟩ := List.mem_filterMap.mp (List.count_pos_iff.mp hpos)
  unfold attemptOf at hattempt
  split at hattempt
  next hev' =>
      simp only [Option.some.injEq, Prod.mk.injEq] at hattempt
      obtain ⟨-, -, rfl, rfl⟩ := hattempt
      exact Runs.attempt_scope hstart h he' hev'
  next => cases hattempt

-- ========================================== moderation and report generation

/-- The attempts of a generation at an operation. -/
def operationAttempts (generationId : Id) (operation : GenerationProviderOperation)
    (d : Db Row) : List GenerationProviderAttempt :=
  (attempts d).filter fun x => x.id.generationId = generationId && x.id.operation = operation

/-- How often the provider was called at an operation for a generation. -/
def callsFor (S : RState) (generationId : Id) (operation : GenerationProviderOperation) : Nat :=
  S.trace.countP fun e => match e.event with
    | .enter (.provider g op _) => g = generationId && op = operation
    | _ => false

/-- The budget of a stored generation at an operation. -/
structure WithinProviderBudget (cfg : Config) (S : RState) (generationId : Id)
    (operation : GenerationProviderOperation) : Prop where
  numbers : ((operationAttempts generationId operation S.db).map (·.id.attemptNumber)).Perm
    (List.range' 1 (operationAttempts generationId operation S.db).length)
  limit : (operationAttempts generationId operation S.db).length
    ≤ cfg.aiMaxProviderCallsPerGeneration
  alive : ((operationAttempts generationId operation S.db).filter fun x =>
    x.status = .started && S.clock < x.leaseExpiresAt).length ≤ 1
  closed : ∀ e ∈ S.trace, ∀ x ∈ operationAttempts generationId operation e.before.db,
    x.status ≠ .started → ∀ y ∈ operationAttempts generationId operation S.db, y.id = x.id →
    y.status = x.status
  calls : callsFor S generationId operation
    ≤ (operationAttempts generationId operation S.db).length

/-- The attempts of an operation, as rows. -/
theorem mem_operationAttempts {d : Db Row} {x : GenerationProviderAttempt} :
    x ∈ operationAttempts g operation d ↔
      attempt? d x.id = some x ∧ x.id.generationId = g ∧ x.id.operation = operation := by
  simp only [operationAttempts, List.mem_filter, mem_attempts, Bool.and_eq_true,
    decide_eq_true_eq]

/-- They are the attempts of its scope. -/
theorem Runs.operationAttempts_perm (hstart : Begins start) (h : Runs (contract cfg start) S)
    (hop : operation ≠ .transcription) :
    (operationAttempts g operation S.db).Perm (scopeAttempts g operation none S.db) := by
  refine List.Perm.trans ?_ (List.perm_insertionSort _ _).symm
  refine List.Perm.of_eq (List.filter_congr fun x hx => ?_)
  rw [inScope_eq]
  by_cases hx' : x.id.generationId = g ∧ x.id.operation = operation
  · obtain ⟨rfl, rfl⟩ := hx'
    have hscope := Runs.scoped hstart h x.id (by rw [mem_attempts.mp hx]; rfl)
    cases hasset : x.id.assetId with
    | none => simp [sameScope]
    | some i =>
        rw [hasset] at hscope
        exact absurd hscope.1 hop
  · have hnot : ¬ (x.id.generationId = g ∧ x.id.operation = operation ∧ x.id.assetId = none) :=
      fun h => hx' ⟨h.1, h.2.1⟩
    simp only [sameScope, Option.isSome_none, Bool.and_false, Bool.false_eq_true, if_false]
    rw [← Bool.decide_and, ← Bool.decide_and, decide_eq_decide]
    tauto

/-- The calls of a generation are the calls of its scope. -/
theorem Runs.callsFor_eq (hstart : Begins start) (h : Runs (contract cfg start) S)
    (hop : operation ≠ .transcription) : callsFor S g operation = calls S g operation none := by
  rw [callsFor, calls, List.countP_filterMap]
  refine List.countP_congr fun e he => ?_
  obtain ⟨j, ev, sc⟩ := e
  cases ev with
  | enter s =>
      cases s with
      | provider g' op' a' =>
          have hscope := Runs.call_scope hstart h he rfl
          simp only [callOf, sameScope, Option.isSome_none, Bool.and_false, Bool.false_eq_true,
            if_false, Option.map_some, Option.getD_some, Bool.and_eq_true, decide_eq_true_eq]
          constructor
          · rintro ⟨hg, rfl⟩
            exact ⟨⟨hg, rfl⟩, hscope.mpr hop⟩
          · exact fun h => h.1
      | _ => rfl
  | _ => rfl

/-- A list without duplicates all of whose members are equal has at most one.
-/
theorem length_le_one {α : Type} {l : List α} (hnodup : l.Nodup)
    (h : ∀ x ∈ l, ∀ y ∈ l, x = y) : l.length ≤ 1 := by
  match l with
  | [] => exact Nat.zero_le _
  | [_] => exact Nat.le_refl _
  | x :: y :: l =>
      have hxy : x = y := h x List.mem_cons_self y (List.mem_cons_of_mem _ List.mem_cons_self)
      exact absurd (hxy ▸ List.mem_cons_self) (List.nodup_cons.mp hnodup).1

/-- In every run the budget holds for every stored generation, and no
generation, stored or not, is paid for more often than it allows. -/
theorem within_provider_budget (h : Reached cfg w) (hop : operation ≠ .transcription) :
    callsFor w.shared g operation ≤ cfg.aiMaxProviderCallsPerGeneration ∧
      ∀ x, generation? w.shared.db g = some x → WithinProviderBudget cfg w.shared g operation := by
  obtain ⟨start, hstart, hruns⟩ := h.runs
  have hspared : Spared w.shared g operation none := Runs.spared_generation hstart hruns
  have hnumbered := Runs.numbered hstart hruns hspared
  have hmaximum : maximumAttempts cfg operation = cfg.aiMaxProviderCallsPerGeneration := by
    cases operation with
    | transcription => exact absurd rfl hop
    | _ => rfl
  have hcalls : callsFor w.shared g operation ≤ starts w.shared g operation none := by
    rw [Runs.callsFor_eq hstart hruns hop]
    exact Runs.calls_le_starts hstart hruns
  have hle := hmaximum ▸ hnumbered.le
  refine ⟨Nat.le_trans hcalls hle, fun x hx => ?_⟩
  have howned : Owned g none w.shared.db := by
    show (generation? w.shared.db g).isSome = true
    rw [hx]
    rfl
  have hperm := Runs.operationAttempts_perm (g := g) hstart hruns hop
  have hlen := hperm.length_eq.trans (hnumbered.length howned)
  constructor
  · rw [hlen]
    exact (hperm.map _).trans (hnumbered.numbers howned)
  · rw [hlen]
    exact hle
  · have hnodup : (scopeAttempts g operation none w.shared.db).Nodup :=
      List.Nodup.of_map _ nodup_scopeAttempts
    rw [(hperm.filter _).length_eq]
    refine length_le_one (hnodup.filter _) fun x hx y hy => ?_
    simp only [List.mem_filter, Bool.and_eq_true, decide_eq_true_eq] at hx hy
    exact Runs.one_alive hstart hruns x hx.1 y hy.1 hx.2.1 hy.2.1 hx.2.2 hy.2.2
  · intro e he x hx hclosed y hy hid
    obtain ⟨hstored, hg, hyop⟩ := mem_operationAttempts.mp hy
    have hscope := Runs.scoped hstart hruns y.id (by rw [hstored]; rfl)
    have hasset : y.id.assetId = none := by
      cases hasset : y.id.assetId with
      | none => rfl
      | some i =>
          rw [hasset] at hscope
          exact absurd (hyop ▸ hscope.1) hop
    rw [hid] at hg hyop hasset hstored
    refine (Runs.remembered hstart hruns x.id ?_).status e he x y
      (mem_operationAttempts.mp hx).1 hclosed hstored
    rw [hg, hyop, hasset]
    exact hspared
  · rw [hlen]
    exact hcalls

/-- A run of the worker up to the request of the report. -/
def moderatedRun : List (Action Req Choice) :=
  generationStarted ++ .spawn 4 (.process 12 1 3) :: steps 4 28
    ++ .answer 4 (.moderated false none) :: steps 4 15

/-- A run that was moderated has made one call. -/
theorem within_provider_budget_moderated : ∃ w x, Reached defaults w ∧
    generation? w.shared.db 12 = some x ∧ callsFor w.shared 12 .moderation = 1 ∧
    WithinProviderBudget defaults w.shared 12 .moderation := by
  have hrun : (sampleWorld.runAll (app defaults) moderatedRun).any (fun w =>
      (generation? w.shared.db 12).isSome && callsFor w.shared 12 .moderation = 1) = true := by
    decide +kernel
  obtain ⟨w, hw, hp⟩ := exists_reached hrun
  simp only [Bool.and_eq_true, decide_eq_true_eq] at hp
  obtain ⟨x, hx⟩ := Option.isSome_iff_exists.mp hp.1
  exact ⟨w, x, hw, hx, hp.2, (within_provider_budget hw (by decide)).2 x hx⟩

-- ========================================================= transcriptions

/-- No compensation of the run removed a generation with a transcription
attempt of the asset. -/
def sparesTranscripts (S : RState) (assetId : Id) : Bool :=
  S.trace.all fun e => match e.event with
    | .commit (.compensateQueueFailure g) (_ :: _) => (attempts e.before.db).all fun x =>
        x.id.generationId ≠ g || x.id.assetId ≠ some assetId
    | _ => true

/-- How often the provider was called to transcribe the asset. -/
def transcribeCalls (S : RState) (assetId : Id) : Nat :=
  S.trace.countP fun e => match e.event with
    | .enter (.provider _ .transcription a) => a = some assetId
    | _ => false

/-- An asset of a stored attempt belongs to the report of the
generation. -/
theorem Runs.attempt_report (hstart : Begins start) (h : Runs (contract cfg start) S)
    {id : AttemptKey} {a : Id} (hid : (attempt? S.db id).isSome = true)
    (ha : id.assetId = some a) {y : ReportGeneration} {z : ReportAsset}
    (hy : generation? S.db id.generationId = some y) (hz : asset? S.db a = some z) :
    z.reportId = y.reportId := by
  have hscope := Runs.scoped hstart h id hid
  rw [ha] at hscope
  obtain ⟨-, e, he, x, snapshot, hx, hsnapshot, b, hb, rfl⟩ := hscope
  have horigin := (h.persists (lasting_generation hstart id.generationId)).same e he x y hx hy
  exact (Runs.snapshot_kept hstart h id.generationId y snapshot hy
    (horigin.inputSnapshot.trans hsnapshot) b hb).2 z hz

/-- An asset keeps its attempts, where compensations spare them. -/
theorem Runs.spared_asset (hstart : Begins start) (h : Runs (contract cfg start) S) {a : Id}
    (hspares : sparesTranscripts S a = true) : Spared S g .transcription (some a) := by
  intro e he s ws hev ho id hscope hbefore
  obtain ⟨S₀, hruns, hscene, hsuffix, heff⟩ := Runs.effect_at hstart h he hev
  have hspare := List.all_eq_true.mp hspares e he
  rw [← hscene] at ho hbefore hspare ⊢
  have hasset : id.assetId = some a := by
    simp only [sameScope, Option.isSome_some, Bool.and_true, decide_true, if_true,
      Bool.and_eq_true, decide_eq_true_eq] at hscope
    exact hscope.2
  obtain ⟨x, hx⟩ := Option.isSome_iff_exists.mp hbefore
  obtain ⟨z', hz'⟩ := Option.isSome_iff_exists.mp ho
  by_contra hgone
  rw [Option.not_isSome_iff_eq_none] at hgone
  rcases heff.attempt_gone hx hgone with ⟨rfl, hne⟩ | ⟨y, rfl, hy⟩ | ⟨a', ha', hnone⟩
  · rw [hev] at hspare
    cases ws with
    | nil => exact hne rfl
    | cons w ws =>
        have hid := attempt?_id hx
        have hall := List.all_eq_true.mp hspare x (mem_attempts.mpr (by rw [hid]; exact hx))
        simp [hid, hasset] at hall
  · cases hz : asset? S₀.db a with
    | none => cases heff.creates_asset hz hz' S₀.toScene
    | some z =>
        have hreport := Runs.attempt_report hstart hruns hbefore hasset hy hz
        exact absurd ((heff.deleted_asset hz hreport).symm.trans hz') (by simp)
  · rw [hasset] at ha'
    cases ha'
    exact absurd (hnone.symm.trans hz') (by simp)

/-- In every run whose compensations spare the attempts of an asset, it is
transcribed no more often than its budget allows. -/
theorem within_transcription_budget {a : Id} (h : Reached cfg w)
    (hspares : sparesTranscripts w.shared a = true) :
    transcribeCalls w.shared a ≤ cfg.transcriptionMaxAttemptsPerAsset := by
  obtain ⟨start, hstart, hruns⟩ := h.runs
  -- the scope of an asset does not depend on a generation
  have hnumbered := Runs.numbered hstart hruns (Runs.spared_asset (g := 0) hstart hruns hspares)
  have hcalls : transcribeCalls w.shared a = calls w.shared 0 .transcription (some a) := by
    rw [transcribeCalls, calls, List.countP_filterMap]
    refine List.countP_congr fun e _ => ?_
    obtain ⟨j, ev, sc⟩ := e
    cases ev with
    | enter s =>
        cases s with
        | provider g operation assetId => cases operation <;> simp [callOf, sameScope]
        | _ => rfl
    | _ => rfl
  rw [hcalls]
  exact Nat.le_trans (Runs.calls_le_starts hstart hruns) hnumbered.le

-- ============================================================== two runs

/-- A dependency error, which is retried. -/
def dependencyError : Error :=
  .provider ⟨"AI_UNAVAILABLE", true, "AI provider is temporarily unavailable", none⟩

/-- A generation of a report with an audio asset is queued, the answer of
the queue is lost, and two deliveries fail to transcribe the asset. -/
def transcribedTwice : List (Action Req Choice) :=
  audioConfirmed ++ .spawn 5 (.createGeneration 1 10 "k") :: steps 5 5
    ++ .answer 5 (.lost dependencyError)
    :: .spawn 6 (.process 14 1 3) :: steps 6 24 ++ .answer 6 .done :: .step 6
    :: .answer 6 (.failed dependencyError) :: steps 6 17
    ++ .spawn 7 (.process 14 2 3) :: steps 7 24 ++ .answer 7 .done :: .step 7
    :: .answer 7 (.failed dependencyError) :: steps 7 17

/-- The start is compensated, and another one under the same key delivered. -/
def transcribedAgain : List (Action Req Choice) :=
  transcribedTwice ++ steps 5 11
    ++ .spawn 8 (.createGeneration 1 10 "k") :: steps 8 5 ++ .answer 8 .done :: steps 8 5
    ++ .spawn 9 (.process 17 1 3) :: steps 9 24 ++ [.answer 9 .done, .step 9]

/-- Two generations on one recording have made two calls in all. -/
theorem within_transcription_budget_twice : ∃ w, Reached defaults w ∧
    transcribeCalls w.shared 12 = 2 ∧
    transcribeCalls w.shared 12 ≤ defaults.transcriptionMaxAttemptsPerAsset := by
  have hrun : (sampleWorld.runAll (app defaults) transcribedTwice).any (fun w =>
      sparesTranscripts w.shared 12 && transcribeCalls w.shared 12 = 2) = true := by
    decide +kernel
  obtain ⟨w, hw, hp⟩ := exists_reached hrun
  simp only [Bool.and_eq_true, decide_eq_true_eq] at hp
  exact ⟨w, hw, hp.2, within_transcription_budget hw hp.1⟩

/-- The compensation gave the asset its budget back. -/
theorem transcription_budget_exceeded : ∃ cfg w, cfg.accepted = true ∧ Reached cfg w ∧
    (asset? w.shared.db 12).isSome = true ∧
    cfg.transcriptionMaxAttemptsPerAsset < transcribeCalls w.shared 12 := by
  have hrun : (sampleWorld.runAll (app defaults) transcribedAgain).any (fun w =>
      (asset? w.shared.db 12).isSome && 2 < transcribeCalls w.shared 12) = true := by
    decide +kernel
  obtain ⟨w, hw, hp⟩ := exists_reached hrun
  simp only [Bool.and_eq_true, decide_eq_true_eq] at hp
  exact ⟨defaults, w, defaults_accepted, hw, hp.1, hp.2⟩

end FastRep.Reports
