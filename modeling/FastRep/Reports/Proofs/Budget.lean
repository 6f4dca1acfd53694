/-
The budget of provider calls.

A paid call belongs to a scope: an asset, over all its generations, for a
transcription, and a generation for anything else. `startAttempt` numbers
the attempts of a scope from the rows it finds, so the budget is a law of
rows; the calls follow, since each has an attempt of its own
(`calls_le_starts`).

# The argument

As long as the owner of a scope is stored, nothing removes an attempt of
it, so the attempts started in the scope so far are exactly its rows, and
they carry the numbers from 1 on (`Numbered`). Only rows of the owner's
scope go with the owner, with one exception: a compensation removes the
attempts of a generation, and among them those of its assets. `Spared` says
that this did not happen to the scope.

# The steps

- A commit that starts an attempt of the scope adds the next number
  (`Numbered.started`).
- Any other commit keeps the rows and the count (`Numbered.kept`). Where it
  creates the owner there is no attempt yet: one would have been started
  after the owner was created.
- Two attempts of a scope are never under way with unexpired leases
  (`Runs.one_alive`), since a start first looks at all of them.
- What was started and closed is remembered as it is (`Remembered`).
-/
import FastRep.Reports.Proofs.Origins

namespace FastRep.Reports

open FastRep.Txn

variable {cfg : Config} {start S S' : RState} {t : Tid} {s : Site} {ws : List (Write Row Key)}
  {g : Id} {operation : GenerationProviderOperation} {assetId : Option Id}

-- ================================================================ scopes

/-- Two paid calls count against the same budget. -/
def sameScope (generationId : Id) (operation : GenerationProviderOperation)
    (assetId : Option Id) (generationId' : Id) (operation' : GenerationProviderOperation)
    (assetId' : Option Id) : Bool :=
  if operation = .transcription && assetId.isSome then
    operation' = operation && assetId' = assetId
  else
    generationId' = generationId && operation' = operation && assetId' = assetId

/-- The thread and the scope of a paid call. -/
def callOf (e : REntry) : Option (Tid × Id × GenerationProviderOperation × Option Id) :=
  match e.event with
  | .enter (.provider g operation assetId) => some (e.tid, g, operation, assetId)
  | _ => none

/-- The thread and the scope of an attempt that was started. -/
def attemptOf (e : REntry) : Option (Tid × Id × GenerationProviderOperation × Option Id) :=
  match e.event with
  | .commit (.startAttempt g _ operation assetId) _ => some (e.tid, g, operation, assetId)
  | _ => none

/-- How often a paid function was called in a scope. -/
def calls (S : RState) (generationId : Id) (operation : GenerationProviderOperation)
    (assetId : Option Id) : Nat :=
  (S.trace.filterMap callOf).countP fun p => sameScope generationId operation assetId p.2.1
    p.2.2.1 p.2.2.2

/-- How many attempts were started in a scope. -/
def starts (S : RState) (generationId : Id) (operation : GenerationProviderOperation)
    (assetId : Option Id) : Nat :=
  (S.trace.filterMap attemptOf).countP fun p => sameScope generationId operation assetId p.2.1
    p.2.2.1 p.2.2.2

/-- An attempt is in a scope where its key is. -/
theorem inScope_eq {x : GenerationProviderAttempt} : inScope g operation assetId x
    = sameScope g operation assetId x.id.generationId x.id.operation x.id.assetId := rfl

-- ===================================================== calls and attempts

/-- The calls in the history are the calls the thread has entered. -/
theorem count_callOf : (S.trace.filterMap callOf).count (t, g, operation, assetId)
    = (metered S t).count (.provider g operation assetId) := by
  unfold metered Shared.entered
  rw [List.count_filter (show marking.enters _ = true from rfl), Shared.enteredBy,
    List.count_filterMap, List.count_filterMap]
  refine List.countP_congr fun e _ => ?_
  obtain ⟨j, ev, sc⟩ := e
  cases ev with
  | enter s =>
      cases s with
      | provider g' operation' assetId' => by_cases hj : j = t <;> simp [callOf, hj]
      | _ => by_cases hj : j = t <;> simp [callOf, hj]
  | _ => simp [callOf]

/-- The starts of the thread are starts in the history. -/
theorem count_attemptOf {tok : Id} :
    (S.committedBy t).count (.startAttempt g tok operation assetId)
      ≤ (S.trace.filterMap attemptOf).count (t, g, operation, assetId) := by
  rw [Shared.committedBy, List.count_filterMap, List.count_filterMap]
  refine List.countP_mono_left fun e _ h => ?_
  obtain ⟨j, ev, sc⟩ := e
  cases ev with
  | commit s ws =>
      simp only [beq_iff_eq, Option.ite_none_right_eq_some, Option.some.injEq] at h
      obtain ⟨rfl, rfl⟩ := h
      simp [attemptOf]
  | _ => simp at h

/-- A thread calls in a scope no more often than it starts attempts
there. -/
theorem Runs.call_count (hstart : Begins start) (h : Runs (contract cfg start) S)
    (p : Tid × Id × GenerationProviderOperation × Option Id) :
    (S.trace.filterMap callOf).count p ≤ (S.trace.filterMap attemptOf).count p := by
  obtain ⟨t, g, operation, assetId⟩ := p
  refine h.invariant (I := fun S => (S.trace.filterMap callOf).count (t, g, operation, assetId)
    ≤ (S.trace.filterMap attemptOf).count (t, g, operation, assetId)) ?_ ?_
  · rw [show (contract cfg start).start.trace = [] from hstart.trace]
    exact Nat.le_refl _
  · intro j S S' _ ih hm
    have hmono : (S.trace.filterMap attemptOf).count (t, g, operation, assetId)
        ≤ (S'.trace.filterMap attemptOf).count (t, g, operation, assetId) :=
      (hm.trace_suffix.sublist.filterMap _).count_le _
    cases hm with
    | entered s hs =>
        by_cases hcall : callOf (⟨j, .enter s, S.toScene⟩ : REntry) = some (t, g, operation, assetId)
        · -- the call of a thread that has an attempt left
          have hev : j = t ∧ s = .provider g operation assetId := by
            cases s <;> simp [callOf] at hcall
            obtain ⟨rfl, rfl, rfl, rfl⟩ := hcall
            exact ⟨rfl, rfl⟩
          obtain ⟨rfl, rfl⟩ := hev
          obtain ⟨tok, -, hlt⟩ := hs
          rw [← count_callOf] at hlt
          show (List.filterMap callOf (_ :: S.trace)).count _ ≤ _
          rw [List.filterMap_cons_some hcall, List.count_cons_self]
          exact Nat.lt_of_lt_of_le hlt (Nat.le_trans count_attemptOf hmono)
        · refine Nat.le_trans ?_ (Nat.le_trans ih hmono)
          show (List.filterMap callOf (_ :: S.trace)).count _ ≤ _
          cases hcall' : callOf (⟨j, .enter s, S.toScene⟩ : REntry) with
          | none => rw [List.filterMap_cons_none hcall']
          | some p =>
              rw [List.filterMap_cons_some hcall', List.count_cons_of_ne]
              rintro rfl
              exact hcall hcall'
    | _ => exact Nat.le_trans ih hmono

/-- The calls of a scope are at most its attempts. -/
theorem Runs.calls_le_starts (hstart : Begins start) (h : Runs (contract cfg start) S) :
    calls S g operation assetId ≤ starts S g operation assetId := by
  have hsub : (S.trace.filterMap callOf).Subperm (S.trace.filterMap attemptOf) :=
    List.subperm_ext_iff.mpr fun p _ => Runs.call_count hstart h p
  exact hsub.countP_le _

-- ================================================================= owners

/-- What owns the attempts of a scope is stored. -/
def Owned (generationId : Id) (assetId : Option Id) (d : Db Row) : Prop :=
  match assetId with
  | none => (generation? d generationId).isSome = true
  | some i => (asset? d i).isSome = true

/-- The id of the row that owns the attempts of a scope. -/
def ownerOf (generationId : Id) (assetId : Option Id) : Id := assetId.getD generationId

/-- A compensation takes the generation with it. -/
theorem Effect.compensated_gone (h : Effect cfg t (.compensateQueueFailure g) ws S)
    (hne : ws ≠ []) : generation? (applyAll ws S.db) g = none := by
  obtain rfl | ⟨_, _, _, x, y, credit, follow, removal, -, -, -, -, -, -, rfl, -, -, -,
    hremoves⟩ := h
  · exact absurd rfl hne
  · rw [applyAll_append]
    exact hremoves.generation?_of_gone rfl

/-- A report deletion takes its generations with it. -/
theorem Effect.deleted_generation {i : Id} (h : Effect cfg t (.deleteReport i) ws S)
    {x : ReportGeneration} (hx : generation? S.db g = some x) (hi : x.reportId = i) :
    generation? (applyAll ws S.db) g = none := by
  obtain ⟨r, side, removal, -, -, -, -, -, rfl, -, -, -, hremoves⟩ := h
  rw [applyAll_append]
  exact hremoves.generation?_of_gone ⟨x, hx, hi⟩

/-- A report deletion takes its assets with it. -/
theorem Effect.deleted_asset {i a : Id} (h : Effect cfg t (.deleteReport i) ws S)
    {x : ReportAsset} (hx : asset? S.db a = some x) (hi : x.reportId = i) :
    asset? (applyAll ws S.db) a = none := by
  obtain ⟨r, side, removal, -, -, -, -, -, rfl, -, -, hassets, hremoves⟩ := h
  have hid : x.id = a := asset?_id hx
  have herase := hassets x (mem_assets.mpr (by rw [hid]; exact hx)) hi
  rw [applyAll_append, asset?_eq_none, ← hid]
  exact find?_applyAll_of_mem hremoves.nodup herase

/-- Why an attempt is gone: its generation was compensated or deleted with
its report, or its asset is gone too. -/
theorem Effect.attempt_gone (h : Effect cfg t s ws S) {id : AttemptKey}
    {x : GenerationProviderAttempt} (hx : attempt? S.db id = some x)
    (hgone : attempt? (applyAll ws S.db) id = none) :
    (s = .compensateQueueFailure id.generationId ∧ ws ≠ []) ∨
    (∃ y, s = .deleteReport y.reportId ∧ generation? S.db id.generationId = some y) ∨
    ∃ a, id.assetId = some a ∧ asset? (applyAll ws S.db) a = none := by
  have hne : ws ≠ [] := by
    rintro rfl
    cases hx.symm.trans hgone
  rcases h.attempt id with hsame | hchange
  · rw [hgone, hx] at hsame
    cases hsame
  · rw [hx, hgone] at hchange
    cases hchange with
    | compensated => exact Or.inl ⟨rfl, hne⟩
    | removed i _ hwhy =>
        rcases hwhy with ⟨y, hy, rfl⟩ | ⟨a, ha, rfl, hid⟩
        · exact Or.inr (Or.inl ⟨y, rfl, hy⟩)
        · exact Or.inr (Or.inr ⟨a.id, hid, h.deleted_asset ha rfl⟩)
    | discarded _ a _ hid hs =>
        refine Or.inr (Or.inr ⟨a, hid, h.discarded hs (k := .attempt id) (by simp [Key.table])
          fun hsame => ?_⟩)
        rw [attempt?_congr hsame, hx] at hgone
        cases hgone

-- ============================================================== the rows

/-- An attempt is stored where its key is taken. -/
theorem attempt?_isSome_iff {d : Db Row} {id : AttemptKey} :
    (attempt? d id).isSome = true ↔ (d.find? (.attempt id)).isSome = true := by
  rw [Option.isSome_iff_ne_none, Option.isSome_iff_ne_none, ne_eq, attempt?_eq_none]

/-- The ids of a scope are the stored ones in it. -/
theorem mem_scope_ids {d : Db Row} {id : AttemptKey} :
    id ∈ (scopeAttempts g operation assetId d).map (·.id) ↔
      (attempt? d id).isSome = true ∧
        sameScope g operation assetId id.generationId id.operation id.assetId = true := by
  constructor
  · intro h
    obtain ⟨x, hx, rfl⟩ := List.mem_map.mp h
    obtain ⟨hstored, hscope⟩ := mem_scopeAttempts.mp hx
    rw [hstored]
    exact ⟨rfl, hscope⟩
  · rintro ⟨hstored, hscope⟩
    obtain ⟨x, hx⟩ := Option.isSome_iff_exists.mp hstored
    have hid := attempt?_id hx
    refine List.mem_map.mpr ⟨x, mem_scopeAttempts.mpr ⟨by rw [hid]; exact hx, ?_⟩, hid⟩
    rw [inScope_eq, hid]
    exact hscope

/-- Scopes that count together have the same attempts. -/
theorem scopeAttempts_congr {g' : Id} {operation' : GenerationProviderOperation}
    {assetId' : Option Id}
    (h : sameScope g operation assetId g' operation' assetId' = true) (d : Db Row) :
    scopeAttempts g' operation' assetId' d = scopeAttempts g operation assetId d ∧
      operation' = operation ∧ assetId' = assetId := by
  unfold sameScope at h
  split at h
  next hasset =>
      simp only [Bool.and_eq_true, decide_eq_true_eq] at h hasset
      obtain ⟨rfl, rfl⟩ := h
      refine ⟨?_, rfl, rfl⟩
      unfold scopeAttempts
      congr 2
      funext x
      simp [inScope, hasset]
  next =>
      simp only [Bool.and_eq_true, decide_eq_true_eq] at h
      obtain ⟨⟨rfl, rfl⟩, rfl⟩ := h
      exact ⟨rfl, rfl, rfl⟩

/-- Scopes that count together have the same owner. -/
theorem owned_congr {g' : Id} {operation' : GenerationProviderOperation}
    {assetId' : Option Id} (h : sameScope g operation assetId g' operation' assetId' = true)
    {d : Db Row} (ho : Owned g' assetId' d) : Owned g assetId d := by
  obtain ⟨-, rfl, rfl⟩ := scopeAttempts_congr h d
  cases assetId' with
  | some i => exact ho
  | none =>
      have hg : g' = g := by simpa [sameScope] using h
      exact hg ▸ ho

/-- Nothing removed an attempt of the scope while its owner stayed. -/
def Spared (S : RState) (generationId : Id) (operation : GenerationProviderOperation)
    (assetId : Option Id) : Prop :=
  ∀ e ∈ S.trace, ∀ s ws, e.event = .commit s ws →
    Owned generationId assetId (applyAll ws e.before.db) → ∀ id,
    sameScope generationId operation assetId id.generationId id.operation id.assetId = true →
    (attempt? e.before.db id).isSome = true →
    (attempt? (applyAll ws e.before.db) id).isSome = true

/-- The attempts of a scope are numbered from 1, and as many as were
started. -/
structure Numbered (cfg : Config) (S : RState) (g : Id)
    (operation : GenerationProviderOperation) (assetId : Option Id) : Prop where
  numbers : Owned g assetId S.db →
    ((scopeAttempts g operation assetId S.db).map (·.id.attemptNumber)).Perm
      (List.range' 1 (starts S g operation assetId))
  bound : ∀ x ∈ scopeAttempts g operation assetId S.db,
    1 ≤ x.id.attemptNumber ∧ x.id.attemptNumber ≤ starts S g operation assetId
  le : starts S g operation assetId ≤ maximumAttempts cfg operation
  created : 0 < starts S g operation assetId → Created S (ownerOf g assetId)

/-- Numbers without a gap: there are as many attempts as were started. -/
theorem Numbered.length (h : Numbered cfg S g operation assetId) (ho : Owned g assetId S.db) :
    (scopeAttempts g operation assetId S.db).length = starts S g operation assetId := by
  have hlen := (h.numbers ho).length_eq
  rwa [List.length_map, List.length_range'] at hlen

/-- A commit that starts no attempt of the scope adds none to it. -/
theorem Effect.scope_subset (h : Effect cfg t s ws S)
    (hs : ∀ g' tok operation' assetId', s = .startAttempt g' tok operation' assetId' →
      sameScope g operation assetId g' operation' assetId' = false) :
    (scopeAttempts g operation assetId (applyAll ws S.db)).map (·.id)
      ⊆ (scopeAttempts g operation assetId S.db).map (·.id) := by
  intro id hid
  obtain ⟨hafter, hscope⟩ := mem_scope_ids.mp hid
  refine mem_scope_ids.mpr ⟨?_, hscope⟩
  rcases h.attempt id with hsame | hchange
  · rwa [← hsame]
  · cases hbefore : attempt? S.db id with
    | some x => rfl
    | none =>
        obtain ⟨y, hy⟩ := Option.isSome_iff_exists.mp hafter
        rw [hbefore, hy] at hchange
        cases hchange
        rw [hs _ _ _ _ rfl] at hscope
        cases hscope

/-- Such a commit keeps the attempts of the scope, where it removes
none. -/
theorem Effect.scope_ids (h : Effect cfg t s ws S)
    (hs : ∀ g' tok operation' assetId', s = .startAttempt g' tok operation' assetId' →
      sameScope g operation assetId g' operation' assetId' = false)
    (hkeep : ∀ id,
      sameScope g operation assetId id.generationId id.operation id.assetId = true →
      (attempt? S.db id).isSome = true → (attempt? (applyAll ws S.db) id).isSome = true) :
    ((scopeAttempts g operation assetId (applyAll ws S.db)).map (·.id)).Perm
      ((scopeAttempts g operation assetId S.db).map (·.id)) := by
  refine (List.perm_ext_iff_of_nodup nodup_scopeAttempts nodup_scopeAttempts).mpr fun id =>
    ⟨fun hid => h.scope_subset hs hid, fun hid => ?_⟩
  obtain ⟨hbefore, hscope⟩ := mem_scope_ids.mp hid
  exact mem_scope_ids.mpr ⟨hkeep id hscope hbefore, hscope⟩

/-- Starting an attempt adds the next number to its scope. -/
theorem Effect.scope_started {g' tok : Id} {operation' : GenerationProviderOperation}
    {assetId' : Option Id} (h : Effect cfg t (.startAttempt g' tok operation' assetId') ws S)
    (hs : sameScope g operation assetId g' operation' assetId' = true) :
    ∃ id : AttemptKey, id.attemptNumber = (scopeAttempts g operation assetId S.db).length + 1 ∧
      ((scopeAttempts g operation assetId (applyAll ws S.db)).map (·.id)).Perm
        (id :: (scopeAttempts g operation assetId S.db).map (·.id)) ∧
      (scopeAttempts g operation assetId S.db).length < maximumAttempts cfg operation ∧
      Owned g assetId S.db := by
  have hchange := h.attempt
  obtain ⟨y, rfl, -, hlen, hid, -, -, hfresh, hgen, hasset, -⟩ := h
  obtain ⟨hscope, rfl, rfl⟩ := scopeAttempts_congr hs S.db
  rw [hscope] at hlen hid
  refine ⟨y.id, by rw [hid], ?_, hlen, owned_congr hs ?_⟩
  · have hnotin : y.id ∉ (scopeAttempts g operation' assetId' S.db).map (·.id) := by
      intro hmem
      rw [mem_scope_ids, hfresh] at hmem
      cases hmem.1
    refine (List.perm_ext_iff_of_nodup nodup_scopeAttempts
      (List.nodup_cons.mpr ⟨hnotin, nodup_scopeAttempts⟩)).mpr fun id => ?_
    rw [List.mem_cons, mem_scope_ids, mem_scope_ids]
    constructor
    · rintro ⟨hafter, hin⟩
      by_cases hbefore : (attempt? S.db id).isSome = true
      · exact Or.inr ⟨hbefore, hin⟩
      · refine Or.inl ?_
        rw [Option.not_isSome_iff_eq_none] at hbefore
        obtain ⟨x, hx⟩ := Option.isSome_iff_exists.mp hafter
        rcases hchange id with hsame | hstarted
        · rw [hx, hbefore] at hsame
          cases hsame
        · rw [hx, hbefore] at hstarted
          cases hstarted with
          | started _ _ _ _ _ _ _ hnumber =>
              rw [hid]
              rw [hscope] at hnumber
              exact congrArg (AttemptKey.mk _ _ _) hnumber
    · rintro (rfl | ⟨hbefore, hin⟩)
      · refine ⟨?_, by rw [hid]; exact hs⟩
        rw [applyAll_append]
        exact Option.isSome_iff_exists.mpr ⟨y, attempt?_of_row (Db.find?_put_self _ (Row.attempt y))⟩
      · refine ⟨attempt?_isSome_iff.mpr (isSome_find?_applyAll (fun w hw he => ?_)
          (attempt?_isSome_iff.mp hbefore)), hin⟩
        rcases List.mem_append.mp hw with hw | hw
        · obtain ⟨x, -, rfl⟩ := List.mem_map.mp hw
          cases he
        · cases List.mem_singleton.mp hw
          cases he
  · cases assetId' with
    | none => exact hgen
    | some i => exact hasset i rfl

/-- What was spared to the end was spared before. -/
theorem Spared.mono (h : Spared S' g operation assetId) (htr : S.trace <:+ S'.trace) :
    Spared S g operation assetId :=
  fun e he => h e (htr.subset he)

/-- An entry that starts no attempt of the scope. -/
theorem starts_cons {e : REntry} (htr : S'.trace = e :: S.trace)
    (he : ∀ p, attemptOf e = some p →
      sameScope g operation assetId p.2.1 p.2.2.1 p.2.2.2 = false) :
    starts S' g operation assetId = starts S g operation assetId := by
  unfold starts
  rw [htr]
  cases hp : attemptOf e with
  | none => rw [List.filterMap_cons_none hp]
  | some p => rw [List.filterMap_cons_some hp, List.countP_cons_of_neg (by rw [he p hp]; simp)]

/-- The owner of a scope was created in the run. -/
theorem Runs.owner_created (hstart : Begins start) (h : Runs (contract cfg start) S)
    (ho : Owned g assetId S.db) : Created S (ownerOf g assetId) := by
  cases assetId with
  | none =>
      obtain ⟨x, hx⟩ := Option.isSome_iff_exists.mp ho
      exact (h.persists (lasting_generation hstart g)).created x hx
  | some i =>
      obtain ⟨x, hx⟩ := Option.isSome_iff_exists.mp ho
      exact (h.persists (lasting_asset hstart i)).created x hx

/-- An owner that appears with a commit is created by it. -/
theorem Effect.creates_owner (h : Effect cfg t s ws S) (hbefore : ¬ Owned g assetId S.db)
    (hafter : Owned g assetId (applyAll ws S.db)) (sc : Scene Row Site Req Env) :
    ownerOf g assetId ∈ creates ⟨t, .commit s ws, sc⟩ := by
  cases assetId with
  | none =>
      obtain ⟨x, hx⟩ := Option.isSome_iff_exists.mp hafter
      exact h.creates_generation (Option.not_isSome_iff_eq_none.mp hbefore) hx sc
  | some i =>
      obtain ⟨x, hx⟩ := Option.isSome_iff_exists.mp hafter
      exact h.creates_asset (Option.not_isSome_iff_eq_none.mp hbefore) hx sc

/-- Starting an attempt of the scope keeps the numbering. -/
theorem Numbered.started (hstart : Begins start) (hruns : Runs (contract cfg start) S)
    (h : Numbered cfg S g operation assetId) {g' tok : Id}
    {operation' : GenerationProviderOperation} {assetId' : Option Id}
    (heff : Effect cfg t (.startAttempt g' tok operation' assetId') ws S)
    (hscope : sameScope g operation assetId g' operation' assetId' = true) :
    Numbered cfg (S.commit t (.startAttempt g' tok operation' assetId') ws) g operation
      assetId := by
  obtain ⟨id, hnumber, hids, hlt, howned⟩ := heff.scope_started hscope
  have hlen := h.length howned
  have hstarts : starts (S.commit t (.startAttempt g' tok operation' assetId') ws) g operation
      assetId = starts S g operation assetId + 1 := by
    have hattempt : attemptOf (⟨t, .commit (.startAttempt g' tok operation' assetId') ws,
        S.toScene⟩ : REntry) = some (t, g', operation', assetId') := rfl
    show List.countP _ (List.filterMap attemptOf (_ :: S.trace)) = _
    rw [List.filterMap_cons_some hattempt, List.countP_cons_of_pos (by simpa using hscope)]
    rfl
  constructor
  · intro _
    have hmap := hids.map (·.attemptNumber)
    rw [List.map_map, List.map_cons, List.map_map, hnumber, hlen] at hmap
    rw [hstarts, List.range'_1_concat, Nat.add_comm 1]
    exact hmap.trans (((h.numbers howned).cons _).trans (List.perm_append_singleton _ _).symm)
  · intro x hx
    have hid : x.id ∈ id :: (scopeAttempts g operation assetId S.db).map (·.id) :=
      hids.mem_iff.mp (List.mem_map_of_mem hx)
    rw [hstarts]
    rcases List.mem_cons.mp hid with hid | hid
    · rw [hid, hnumber, hlen]
      omega
    · obtain ⟨x', hx', hid⟩ := List.mem_map.mp hid
      have hbound := h.bound x' hx'
      rw [hid] at hbound
      omega
  · rw [hstarts]
    omega
  · intro _
    exact (Runs.owner_created hstart hruns howned).mono (List.suffix_cons _ _)

/-- Any other commit keeps the numbering. An owner it creates finds no
attempt: one would have been started after an earlier creation. -/
theorem Numbered.kept (hstart : Begins start) (h : Numbered cfg S g operation assetId)
    (heff : Effect cfg t s ws S) (hmove : Runs (contract cfg start) (S.commit t s ws))
    (hspared : Spared (S.commit t s ws) g operation assetId)
    (hs : ∀ g' tok operation' assetId', s = .startAttempt g' tok operation' assetId' →
      sameScope g operation assetId g' operation' assetId' = false) :
    Numbered cfg (S.commit t s ws) g operation assetId := by
  have hstarts : starts (S.commit t s ws) g operation assetId = starts S g operation assetId := by
    refine starts_cons (e := ⟨t, .commit s ws, S.toScene⟩) rfl fun p hp => ?_
    unfold attemptOf at hp
    split at hp
    next hev =>
        cases hp
        cases hev
        exact hs _ _ _ _ rfl
    next => cases hp
  constructor
  · intro ho
    have hids := (heff.scope_ids hs (hspared _ List.mem_cons_self s ws rfl ho)).map
      (·.attemptNumber)
    rw [List.map_map, List.map_map] at hids
    rw [hstarts]
    refine hids.trans ?_
    by_cases hbefore : Owned g assetId S.db
    · exact h.numbers hbefore
    · have hzero : starts S g operation assetId = 0 := by
        by_contra hpos
        obtain ⟨e, he, hcreated⟩ := h.created (Nat.pos_of_ne_zero hpos)
        have htr : (S.commit t s ws).trace = [] ++ ⟨t, .commit s ws, S.toScene⟩ :: S.trace := rfl
        exact Runs.create_unique hstart hmove htr he (heff.creates_owner hbefore ho _) hcreated
      have hempty : scopeAttempts g operation assetId S.db = [] := by
        refine List.eq_nil_iff_forall_not_mem.mpr fun x hx => ?_
        have hbound := h.bound x hx
        omega
      rw [hzero, hempty]
      exact List.Perm.refl _
  · intro x hx
    obtain ⟨x', hx', hid⟩ := List.mem_map.mp (heff.scope_subset hs (List.mem_map_of_mem hx))
    have hbound := h.bound x' hx'
    rw [hid] at hbound
    rw [hstarts]
    exact hbound
  · rw [hstarts]
    exact h.le
  · intro hpos
    exact (h.created (hstarts ▸ hpos)).mono (List.suffix_cons _ _)

/-- In every run that removes no attempt of a scope under its owner, the
scope is numbered. -/
theorem Runs.numbered (hstart : Begins start) (h : Runs (contract cfg start) S)
    (hspared : Spared S g operation assetId) : Numbered cfg S g operation assetId := by
  revert hspared
  refine h.invariant (I := fun S => Spared S g operation assetId →
    Numbered cfg S g operation assetId) ?_ ?_
  · intro _
    have hzero : starts (contract cfg start).start g operation assetId = 0 := by
      unfold starts
      rw [show (contract cfg start).start.trace = [] from hstart.trace]
      rfl
    have hempty : scopeAttempts g operation assetId (contract cfg start).start.db = [] := by
      refine List.eq_nil_iff_forall_not_mem.mpr fun x hx => ?_
      have hnone := attempt?_eq_none.mpr (hstart.unused.find?_eq_none (k := .attempt x.id)
        (by simp [Key.table]) (by simp [Key.table]))
      exact absurd ((mem_scopeAttempts.mp hx).1.symm.trans hnone) (by simp)
    refine ⟨fun _ => ?_, ?_, ?_, ?_⟩
    · rw [hzero, hempty]
      exact List.Perm.refl _
    · rw [hempty]
      simp
    · rw [hzero]
      exact Nat.zero_le _
    · rw [hzero]
      simp
  · intro j S S' hruns ih hm hspared
    have h := ih (hspared.mono hm.trace_suffix)
    rcases hm.commit_or with ⟨s, ws, hC, -, rfl⟩ | ⟨hdb, htr⟩
    · by_cases hs : ∃ g' tok operation' assetId', s = .startAttempt g' tok operation' assetId' ∧
          sameScope g operation assetId g' operation' assetId' = true
      · obtain ⟨g', tok, operation', assetId', rfl, hscope⟩ := hs
        exact h.started hstart hruns hC.1 hscope
      · refine h.kept hstart hC.1 (hruns.move hm) hspared fun g' tok operation' assetId' he => ?_
        by_contra hscope
        exact hs ⟨g', tok, operation', assetId', he, by simpa using hscope⟩
    · have hstarts : starts S' g operation assetId = starts S g operation assetId := by
        rcases htr with htr | ⟨ev, hev, htr⟩
        · unfold starts
          rw [htr]
        · refine starts_cons htr fun p hp => ?_
          unfold attemptOf at hp
          split at hp
          next hcommit => exact absurd hcommit (hev _ _)
          next => cases hp
      refine ⟨fun ho => ?_, ?_, ?_, fun hpos => ?_⟩
      · rw [hstarts, hdb]
        exact h.numbers (hdb ▸ ho)
      · rw [hstarts, hdb]
        exact h.bound
      · rw [hstarts]
        exact h.le
      · exact (h.created (hstarts ▸ hpos)).mono hm.trace_suffix

-- ==================================================== attempts under way

/-- An attempt that is under way after a commit was under way before, or
the commit started it when no other one of its scope was alive. -/
theorem Effect.attempt_started (h : Effect cfg t s ws S) {id : AttemptKey}
    {x : GenerationProviderAttempt} (hx : attempt? (applyAll ws S.db) id = some x)
    (hstarted : x.status = .started) :
    attempt? S.db id = some x ∨
      ((∃ tok, s = .startAttempt id.generationId tok id.operation id.assetId) ∧
        id.attemptNumber
          = (scopeAttempts id.generationId id.operation id.assetId S.db).length + 1 ∧
        ∀ y ∈ scopeAttempts id.generationId id.operation id.assetId S.db,
          y.status = .started → y.leaseExpiresAt ≤ S.clock) := by
  rcases h.attempt id with hsame | hchange
  · exact Or.inl (hsame ▸ hx)
  · rw [hx] at hchange
    cases hbefore : attempt? S.db id with
    | none =>
        rw [hbefore] at hchange
        cases hchange with
        | started tok _ _ _ _ hlease _ hnumber => exact Or.inr ⟨⟨tok, rfl⟩, hnumber, hlease⟩
    | some y =>
        rw [hbefore] at hchange
        cases hchange with
        | stale => cases hstarted
        | closed _ _ _ _ _ _ hstatus hne _ => exact absurd (hstatus.symm.trans hstarted) hne

/-- Of two attempts of a scope that are under way, one has lost its
lease. -/
theorem Runs.one_alive (hstart : Begins start) (h : Runs (contract cfg start) S) :
    ∀ x ∈ scopeAttempts g operation assetId S.db,
      ∀ y ∈ scopeAttempts g operation assetId S.db, x.status = .started → y.status = .started →
      S.clock < x.leaseExpiresAt → S.clock < y.leaseExpiresAt → x = y := by
  refine h.invariant (I := fun S => ∀ x ∈ scopeAttempts g operation assetId S.db,
      ∀ y ∈ scopeAttempts g operation assetId S.db, x.status = .started → y.status = .started →
      S.clock < x.leaseExpiresAt → S.clock < y.leaseExpiresAt → x = y) ?_ ?_
  · intro x hx
    have hnone := attempt?_eq_none.mpr (hstart.unused.find?_eq_none (k := .attempt x.id)
      (by simp [Key.table]) (by simp [Key.table]))
    exact absurd ((mem_scopeAttempts.mp hx).1.symm.trans hnone) (by simp)
  · intro j S S' _ ih hm x hx y hy hxs hys hxl hyl
    have hclock := hm.clock_le
    change @LT.lt Nat _ _ _ at hxl hyl
    rcases hm.commit_or with ⟨s, ws, hC, -, rfl⟩ | ⟨hdb, -⟩
    · obtain ⟨hx, hxscope⟩ := mem_scopeAttempts.mp hx
      obtain ⟨hy, hyscope⟩ := mem_scopeAttempts.mp hy
      have hscope : ∀ {z : GenerationProviderAttempt}, inScope g operation assetId z = true →
          scopeAttempts z.id.generationId z.id.operation z.id.assetId S.db
            = scopeAttempts g operation assetId S.db := fun hz => (scopeAttempts_congr hz S.db).1
      rcases hC.1.attempt_started hx hxs with hx' | ⟨⟨tok, hsite⟩, hxnumber, hxlease⟩
      · rcases hC.1.attempt_started hy hys with hy' | ⟨-, -, hylease⟩
        · exact ih x (mem_scopeAttempts.mpr ⟨hx', hxscope⟩) y
            (mem_scopeAttempts.mpr ⟨hy', hyscope⟩) hxs hys hxl hyl
        · have hle := hylease x (by rw [hscope hyscope]; exact mem_scopeAttempts.mpr ⟨hx', hxscope⟩)
            hxs
          change @LE.le Nat _ _ _ at hle
          change @LT.lt Nat _ S.clock _ at hxl
          omega
      · rcases hC.1.attempt_started hy hys with hy' | ⟨⟨tok', hsite'⟩, hynumber, -⟩
        · have hle := hxlease y (by rw [hscope hxscope]; exact mem_scopeAttempts.mpr ⟨hy', hyscope⟩)
            hys
          change @LE.le Nat _ _ _ at hle
          change @LT.lt Nat _ S.clock _ at hyl
          omega
        · -- the same commit started both, under one number
          have hids : x.id = y.id := by
            rw [hscope hxscope] at hxnumber
            rw [hscope hyscope] at hynumber
            rw [hsite] at hsite'
            injection hsite' with hg _ hop hasset
            show AttemptKey.mk x.id.generationId x.id.operation x.id.assetId x.id.attemptNumber
              = y.id
            rw [hg, hop, hasset, hxnumber, ← hynumber]
          rw [hids] at hx
          exact Option.some.inj (hx.symm.trans hy)
    · rw [hdb] at hx hy
      exact ih x hx y hy hxs hys (Nat.lt_of_le_of_lt hclock hxl) (Nat.lt_of_le_of_lt hclock hyl)

-- ======================================================== closed attempts

/-- An attempt that was seen has a number its scope has reached, and once it
is closed it keeps its status. -/
structure Remembered (S : RState) (id : AttemptKey) : Prop where
  number : ∀ e ∈ S.trace, (attempt? e.before.db id).isSome = true →
    id.attemptNumber ≤ starts S id.generationId id.operation id.assetId
  status : ∀ e ∈ S.trace, ∀ x y, attempt? e.before.db id = some x → x.status ≠ .started →
    attempt? S.db id = some y → y.status = x.status

theorem sameScope_self : sameScope g operation assetId g operation assetId = true := by
  unfold sameScope
  split <;> simp

theorem starts_le_of_suffix (h : S.trace <:+ S'.trace) :
    starts S g operation assetId ≤ starts S' g operation assetId :=
  (h.sublist.filterMap attemptOf).countP_le

/-- In every state of a run a spared attempt that was started is still stored.
-/
theorem Runs.remembered (hstart : Begins start) (h : Runs (contract cfg start) S) (id : AttemptKey)
    (hspared : Spared S id.generationId id.operation id.assetId) : Remembered S id := by
  revert hspared
  refine h.invariant (I := fun S => Spared S id.generationId id.operation id.assetId →
    Remembered S id) ?_ ?_
  · intro _
    have hnil : (contract cfg start).start.trace = [] := hstart.trace
    constructor <;> (rw [hnil]; simp)
  · intro j S S' hruns ih hm hspared
    have hspared₀ := hspared.mono hm.trace_suffix
    have h := ih hspared₀
    have hnumbered := Runs.numbered hstart hruns hspared₀
    have hnow : ∀ x, attempt? S.db id = some x →
        id.attemptNumber ≤ starts S id.generationId id.operation id.assetId := by
      intro x hx
      have hid := attempt?_id hx
      have hmem : x ∈ scopeAttempts id.generationId id.operation id.assetId S.db := by
        refine mem_scopeAttempts.mpr ⟨by rw [hid]; exact hx, ?_⟩
        rw [inScope_eq, hid]
        exact sameScope_self
      rw [← hid]
      exact hid ▸ (hnumbered.bound x hmem).2
    have hseen : ∀ e ∈ S'.trace, ∀ x, attempt? e.before.db id = some x →
        id.attemptNumber ≤ starts S id.generationId id.operation id.assetId := by
      intro e he x hx
      rcases hm.mem_trace he with he | he
      · exact h.number e he (by rw [hx]; rfl)
      · exact hnow x (by rw [he] at hx; exact hx)
    refine ⟨fun e he hx => ?_, fun e he x y hx hclosed hy => ?_⟩
    · obtain ⟨x, hx⟩ := Option.isSome_iff_exists.mp hx
      exact Nat.le_trans (hseen e he x hx) (starts_le_of_suffix hm.trace_suffix)
    · have hold : ∀ z, attempt? S.db id = some z → z.status = x.status := by
        intro z hz
        rcases hm.mem_trace he with he | he
        · exact h.status e he x z hx hclosed hz
        · rw [he] at hx
          cases hx.symm.trans hz
          rfl
      rcases hm.commit_or with ⟨s, ws, hC, -, rfl⟩ | ⟨hdb, -⟩
      · rcases hC.1.attempt id with hsame | hchange
        · exact hold y (hsame ▸ hy)
        · rw [show attempt? (applyAll ws S.db) id = some y from hy] at hchange
          cases hbefore : attempt? S.db id with
          | some z =>
              -- a change of the row starts from an attempt under way
              have hz := hold z hbefore
              rw [hbefore] at hchange
              cases hchange with
              | stale _ _ _ _ _ _ hstarted => exact absurd (hz.symm.trans hstarted) hclosed
              | closed _ _ _ _ hstarted => exact absurd (hz.symm.trans hstarted) hclosed
          | none =>
              -- the row is new, so its number is
              rw [hbefore] at hchange
              have hle := hseen e he x hx
              cases hchange with
              | started tok _ _ _ _ _ _ hnumber hgen hasset =>
                  have howned : Owned id.generationId id.assetId S.db := by
                    cases hid : id.assetId with
                    | none => exact hgen
                    | some i => exact hasset i hid
                  have hlen := hnumbered.length howned
                  omega
      · exact hold y (hdb ▸ hy)

end FastRep.Reports
