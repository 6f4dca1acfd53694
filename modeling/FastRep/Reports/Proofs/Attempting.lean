/-
What the transactions around a paid call commit: the attempt that precedes
it, what closes the attempt, and the transcription of an asset.

An attempt is started in one moment, so its number and the closing of the
stale ones are read off the committed rows (`startAttempt_body`, which also
says what the transaction throws: at an exhausted budget it throws, and the
closing of the stale attempts is rolled back with the rest). It is closed by
an update that locks the row.

The triples say what a run knows afterwards: that the attempt was started,
which a call of the provider asks for, and that the run began a
transcription it had found unfinished.
-/
import FastRep.Reports.Proofs.Processing

namespace FastRep.Reports

open FastRep.Txn

variable {cfg : Config} {start : RState} {t : Tid} {s : Site} {C : RContract}
  {S S' : RState} {P : Knows t} {g tok : Id}

-- ====================================================== closing an attempt

section Closing

variable {β : Type} {F : β → List (Write Row Key) → RState → Prop}

/-- A guarded update of an attempt at the start of a transaction. -/
theorem TxSafe.updateAttempt {id : AttemptKey} {p : GenerationProviderAttempt → Bool}
    {f : GenerationProviderAttempt → GenerationProviderAttempt} {k : Nat → InTransaction β}
    (hid : ∀ x, (f x).id = x.id)
    (h₀ : ∀ S', Within C t s S S' → TxSafe C t s F (k 0) [] S')
    (h₁ : ∀ S' x, Within C t s S S' → p x = true → x.id = id →
      (∀ S'', Within C t s S' S'' → attempt? S''.db id = some x) →
      TxSafe C t s F (k 1) [.update (.attempt (f x))] S') :
    TxSafe C t s F (updateRow (.attempt id) (onAttempt p) (setAttempt f) >>= k) [] S := by
  refine TxSafe.updateRow (fun S₁ _ hW₁ _ => h₀ _ hW₁) fun S₁ r _ hW₁ hfind hp _ => ?_
  obtain ⟨x, rfl, hxid⟩ := find?_attempt hfind
  refine h₁ _ x hW₁ hp hxid fun S' hW => ?_
  rw [attempt?_eq_some, ← hxid, ← hid x]
  refine (Within.find?_of_write (w := .update (Row.attempt (f x))) hW).trans ?_
  show S₁.db.find? (Key.attempt (f x).id) = _
  rw [hid, hxid]
  exact hfind

/-- Completing an attempt closes it. -/
theorem TxSafe.completeAttempt {id : AttemptKey} {usage : ProviderAttemptUsage}
    {k : Unit → InTransaction β}
    (h : ∀ S' y, Within C t s S S' →
      (∀ S'', Within C t s S' S'' → Closes id .completed [.update (.attempt y)] S'') →
      TxSafe C t s F (k ()) [.update (.attempt y)] S') :
    TxSafe C t s F (completeInTransaction id tok usage >>= k) [] S := by
  unfold completeInTransaction
  refine TxSafe.clock fun S₁ hS₁ => TxSafe.clock fun S₂ hS₂ => ?_
  refine TxSafe.updateAttempt (fun _ => rfl) (fun S₃ _ => TxSafe.throw _)
    fun S₃ x hW₃ hp hid hx => ?_
  simp only [Bool.and_eq_true, decide_eq_true_eq] at hp
  refine h S₃ _ (hS₁.within.trans (hS₂.within.trans hW₃)) fun S'' hW => ?_
  refine ⟨x, _, hx S'' hW, hp.1.2, ?_, ?_, ?_, rfl⟩
  · exact hid
  · rfl
  · rfl

end Closing

/-- Completing the moderation attempt after everything passed. -/
theorem Triple.completeOwned {id : AttemptKey} {usage : ProviderAttemptUsage}
    {snapshot : GenerationInputSnapshot} {transcripts : List (Id × String)}
    (hallow : Allows P (.completeOwned g tok)) (hid : id.generationId = g)
    (hsource : ∀ S, P.holds S → Sourced S t g snapshot transcripts)
    (hscreen : ∀ S, P.holds S → Screened S t id (moderationItems snapshot transcripts)) :
    Triple (contract cfg start) P (completeOwned g id tok usage)
      (fun _ => P.and (Traced (Moderated · t g) fun _ _ htr h => h.mono htr))
      (fun _ => P) := by
  refine Triple.transaction (F := fun _ ws S' => Closes id .completed ws S')
    (fun S _ _ => ?_) (fun _ ws S hP hF => ?_) fun _ _ hP => P.lasts Later.rollback hP
  · refine TxSafe.clock fun S₁ _ => TxSafe.select fun S₂ _ _ => ?_
    split
    next => exact TxSafe.throw _
    next =>
        refine TxSafe.of_bind_pure (TxSafe.completeAttempt fun S₃ y _ hy => ?_)
        exact TxSafe.pure fun S₄ hS₄ => hy S₄ hS₄.within
  · refine ⟨⟨⟨id, snapshot, transcripts, hid, hF, hsource S hP, hscreen S hP⟩, hallow S hP⟩,
      P.lasts (Later.commit rfl) hP, ?_⟩
    exact ⟨⟨t, .commit _ ws, S.toScene⟩, List.mem_cons_self, rfl, Or.inr ⟨tok, ws, rfl⟩⟩

/-- Failing an attempt keeps what is known of the thread. -/
theorem Keeps.failAttempt {id : AttemptKey} {errorCode : String}
    {providerRequestId : Option String} (hallow : Allows P (.failAttempt id)) :
    Keeps (contract cfg start) P (failAttempt id errorCode tok providerRequestId) := by
  refine Keeps.bind Keeps.clock fun now => Keeps.bind ?_ fun _ => Keeps.pure
  refine Keeps.effect rfl hallow fun S _ => TxSafe.of_bind_pure ?_
  refine TxSafe.updateAttempt (fun _ => rfl) (fun S₁ _ => ?_) fun S₁ x _ hp hid hx => ?_
  · exact TxSafe.pure fun _ _ => Or.inl rfl
  · simp only [Bool.and_eq_true, decide_eq_true_eq] at hp
    refine TxSafe.pure fun S₂ hS₂ => Or.inr ⟨x, _, hx S₂ hS₂.within, hp.2, ?_, ?_, ?_, rfl⟩
    · exact hid
    · rfl
    · rfl

/-- Storing the result of the provider does, too. -/
theorem Keeps.persistReportResult {attempt : AttemptKey} {structuredResult : ReportResult}
    {result : ProviderResult ReportResult}
    (hop : attempt.operation = .reportGeneration)
    (hallow : Allows P (.persistReportResult g tok)) :
    Keeps (contract cfg start) P
      (persistReportResult cfg g tok attempt structuredResult result) := by
  refine Keeps.effect rfl hallow fun S _ => TxSafe.clock fun S₁ _ => ?_
  refine TxSafe.select fun S₂ _ _ => ?_
  split
  next => exact TxSafe.throw _
  next =>
      refine TxSafe.completeAttempt fun S₃ y _ hy => TxSafe.clock fun S₄ hS₄ => ?_
      refine TxSafe.updateGeneration (by simp [Write.target, key]) (fun _ => rfl)
        (fun S₅ _ => TxSafe.throw _) fun S₅ x hW₅ hid hown hpin => ?_
      refine TxSafe.pure fun S₆ hS₆ => Or.inr ⟨x, _, _, ?_, hown, ?_,
        Or.inr ⟨_, hop, hy S₆ (hS₄.within.trans (hW₅.trans hS₆.within))⟩, rfl⟩
      · rw [← hid]
        exact hpin S₆ hS₆.within
      · exact ⟨rfl, rfl, rfl, rfl, rfl, rfl, rfl, rfl, rfl, rfl⟩

-- ===================================================== starting an attempt

section Serial

variable {now : Nat} {d : Db Row}

/-- Closing a list of stale attempts closes each of them. -/
theorem TxEnds.closeStale {n : Nat} {ws : List (Write Row Key)}
    (l : List GenerationProviderAttempt) (hnodup : (l.map (·.id)).Nodup)
    (hl : ∀ x ∈ l, attempt? d x.id = some x ∧ x.status = .started ∧ x.leaseExpiresAt ≤ now)
    (hws : ∀ w ∈ ws, ∀ x ∈ l, w.target ≠ Key.attempt x.id) :
    TxEnds n d (fun _ ws' => ws' = ws ++ l.map fun x => .update (.attempt (x.stale now)))
      (closeStale now l) ws := by
  induction l generalizing ws with
  | nil => exact TxEnds.pure (List.append_nil ws).symm
  | cons x rest ih =>
      obtain ⟨hx, hstarted, hlease⟩ := hl x List.mem_cons_self
      rw [List.map_cons, List.nodup_cons] at hnodup
      have hfind : (applyAll ws d).find? (Key.attempt x.id) = some (.attempt x) := by
        rw [find?_applyAll_ne fun w hw => hws w hw x List.mem_cons_self]
        exact attempt?_eq_some.mp hx
      refine TxEnds.updateRow (fun hnone => ?_) fun r hr _ _ => ?_
      · simp [hfind, onAttempt, hstarted, hlease] at hnone
      · cases hfind.symm.trans hr
        refine (ih hnodup.2 (fun y hy => hl y (List.mem_cons_of_mem _ hy))
          fun w hw y hy => ?_).mono fun _ ws' hws' => ?_
        · rcases List.mem_append.mp hw with hw | hw
          · exact hws w hw y (List.mem_cons_of_mem _ hy)
          · cases List.mem_singleton.mp hw
            intro he
            refine hnodup.1 (List.mem_map.mpr ⟨y, hy, ?_⟩)
            exact (Key.attempt.inj he).symm
        · rw [hws', List.append_assoc]
          rfl

/-- The attempts of a scope, as rows. -/
theorem mem_scopeAttempts {operation : GenerationProviderOperation} {assetId : Option Id}
    {x : GenerationProviderAttempt} : x ∈ scopeAttempts g operation assetId d ↔
      attempt? d x.id = some x ∧ inScope g operation assetId x = true := by
  rw [scopeAttempts, List.mem_insertionSort, List.mem_filter, mem_attempts]

theorem nodup_scopeAttempts {operation : GenerationProviderOperation} {assetId : Option Id} :
    ((scopeAttempts g operation assetId d).map (·.id)).Nodup := by
  unfold scopeAttempts
  rw [((List.perm_insertionSort _ _).map _).nodup_iff]
  exact nodup_attempts.sublist (List.filter_sublist.map _)

/-- Where no attempt is alive, the stale ones are those under way. -/
theorem filter_stale {l : List GenerationProviderAttempt}
    (h : ∀ x ∈ l, x.status = .started → x.leaseExpiresAt ≤ now) :
    l.filter (fun a => a.status = .started && a.leaseExpiresAt ≤ now)
      = l.filter fun a => a.status = .started :=
  List.filter_congr fun x hx => by
    by_cases hs : x.status = .started <;> simp [hs, h x hx]

/-- The closing of stale attempts throws only what the database raises. -/
theorem TxThrows.closeStale {n : Nat} {E : Error → Prop} {l : List GenerationProviderAttempt}
    {ws : List (Write Row Key)} (hE : ∀ x, E (raise x)) :
    TxThrows n d E (closeStale now l) ws := by
  induction l generalizing ws with
  | nil => exact TxThrows.pure
  | cons x rest ih => exact TxThrows.updateRow hE fun _ _ => ih

def budgetExhausted : Error :=
  aiProviderError "AI_PROVIDER_CALL_BUDGET_EXHAUSTED" false "AI provider call budget exhausted"

/-- What a run knows of an attempt it has started. -/
def Started (g tok : Id) (operation : GenerationProviderOperation) (assetId : Option Id)
    (id : AttemptKey) : Knows t :=
  (Known.prop (id.generationId = g ∧ id.operation = operation ∧ id.assetId = assetId)).and
    (.entry fun e => e.tid = t ∧ ∃ ws y,
      e.event = .commit (.startAttempt g tok operation assetId) ws ∧
      .insert (.attempt y) ∈ ws ∧ y.id = id)

/-- The attempt that `start` inserts, next to the stale ones it closes. -/
def Opens (cfg : Config) (g tok : Id) (operation : GenerationProviderOperation)
    (assetId : Option Id) (now : Time) (d : Db Row) (id : AttemptKey)
    (ws : List (Write Row Key)) : Prop :=
  ∃ y : GenerationProviderAttempt,
    let scope := scopeAttempts g operation assetId d
    let open_ := scope.filter fun x => x.status = .started
    ws = open_.map (fun x => .update (.attempt (x.stale now))) ++ [.insert (.attempt y)] ∧
    (∀ x ∈ open_, x.leaseExpiresAt ≤ now) ∧
    scope.length < maximumAttempts cfg operation ∧
    y.id = { generationId := g, operation, assetId, attemptNumber := scope.length + 1 } ∧
    y.status = .started ∧ y.processingToken = tok ∧
    attempt? d y.id = none ∧ (generation? d g).isSome = true ∧
    (∀ i, assetId = some i → (asset? d i).isSome = true) ∧ y.id = id

/-- What the transaction of `start` ends in and what it throws. -/
theorem startAttempt_body (cfg : Config) (g tok : Id) (operation : GenerationProviderOperation)
    (provider model : String) (leaseExpiresAt : Time) (assetId : Option Id) :
    ∃ body : InTransaction AttemptKey,
      startAttempt cfg g operation provider model tok leaseExpiresAt assetId
        = serializable (.startAttempt g tok operation assetId) body ∧
      ∀ now d, TxEnds now d (Opens cfg g tok operation assetId now d) body [] ∧
        ((∀ x ∈ scopeAttempts g operation assetId d, x.status = .started →
            x.leaseExpiresAt ≤ now) →
          TxThrows now d (fun e => e = budgetExhausted ∧
            maximumAttempts cfg operation ≤ (scopeAttempts g operation assetId d).length
            ∨ ∃ f, e = .db f) body []) := by
  refine ⟨_, rfl, fun now d => ⟨TxEnds.select (TxEnds.clock ?_), fun hlease =>
    TxThrows.select (TxThrows.clock ?_)⟩⟩
  · show TxEnds now d _ (if _ then _ else _) _
    split
    next => exact TxEnds.throw _
    next hlive =>
        -- no attempt is alive, so the stale ones are all that are under way
        have hlease : ∀ x ∈ scopeAttempts g operation assetId d,
            x.status = .started → x.leaseExpiresAt ≤ now := by
          intro x hx hstarted
          simp only [applyAll_nil, List.any_eq_true, not_exists, not_and] at hlive
          simpa [hstarted] using hlive x hx
        rw [applyAll_nil, filter_stale hlease]
        refine TxEnds.bind (TxEnds.closeStale (d := d) _
          (nodup_scopeAttempts.sublist (List.filter_sublist.map _)) (fun x hx => ?_) (by simp))
          fun _ ws hws => ?_
        · obtain ⟨hx, hs⟩ := List.mem_filter.mp hx
          exact ⟨(mem_scopeAttempts.mp hx).1, of_decide_eq_true hs,
            hlease x hx (of_decide_eq_true hs)⟩
        rw [List.nil_append] at hws
        have htarget : ∀ w ∈ ws, ∃ k, w.target = Key.attempt k := by
          intro w hw
          rw [hws] at hw
          obtain ⟨x, -, rfl⟩ := List.mem_map.mp hw
          exact ⟨_, rfl⟩
        split
        next => exact TxEnds.throw _
        next hbudget =>
            refine TxEnds.clock (TxEnds.insertRow fun hnone hviol => TxEnds.pure ?_)
            obtain ⟨-, -, href⟩ := Db.violation_eq_none hviol
            refine ⟨_, by rw [hws], fun x hx => ?_, not_le.mp hbudget, rfl, rfl, rfl, ?_, ?_,
              fun i hi => ?_, rfl⟩
            · obtain ⟨hx, hs⟩ := List.mem_filter.mp hx
              exact hlease x hx (of_decide_eq_true hs)
            · rw [attempt?_eq_none]
              by_contra hsome
              have hkept := isSome_find?_applyAll (fun w (hw : w ∈ ws) he => ?_)
                (Option.isSome_iff_ne_none.mpr hsome)
              · exact absurd hnone (Option.isSome_iff_ne_none.mp hkept)
              · rw [hws] at hw
                obtain ⟨x, -, rfl⟩ := List.mem_map.mp hw
                exact absurd he (by simp)
            · have hgen := href (.generation g, .cascade) List.mem_cons_self
              rw [find?_applyAll_ne fun w hw he => ?_] at hgen
              · obtain ⟨r, hr⟩ := Option.isSome_iff_exists.mp hgen
                obtain ⟨x, rfl, -⟩ := find?_generation hr
                exact Option.isSome_iff_exists.mpr ⟨x, generation?_eq_some.mpr hr⟩
              · obtain ⟨k, hk⟩ := htarget w hw
                exact absurd (hk.symm.trans he) (by simp)
            · have hasset := href (.asset i, .cascade) (List.mem_cons_of_mem _
                (List.mem_map.mpr ⟨i, by simp [hi], rfl⟩))
              rw [find?_applyAll_ne fun w hw he => ?_] at hasset
              · obtain ⟨r, hr⟩ := Option.isSome_iff_exists.mp hasset
                obtain ⟨x, rfl, -⟩ := find?_asset hr
                exact Option.isSome_iff_exists.mpr ⟨x, asset?_eq_some.mpr hr⟩
              · obtain ⟨k, hk⟩ := htarget w hw
                exact absurd (hk.symm.trans he) (by simp)
  · show TxThrows now d _ (if _ then _ else _) _
    have hdb : ∀ f, raise f = budgetExhausted ∧ maximumAttempts cfg operation
        ≤ (scopeAttempts g operation assetId d).length ∨ ∃ f', raise f = Error.db f' :=
      fun f => Or.inr ⟨f, rfl⟩
    split
    next hlive =>
        obtain ⟨x, hx, hstarted⟩ := List.any_eq_true.mp hlive
        simp only [Bool.and_eq_true, decide_eq_true_eq] at hstarted
        exact absurd (hlease x hx hstarted.1) (not_le.mpr hstarted.2)
    next =>
        refine TxThrows.bind (TxThrows.closeStale hdb) fun _ ws => ?_
        split
        next hbudget => exact TxThrows.throw (Or.inl ⟨rfl, hbudget⟩)
        next => exact TxThrows.clock (TxThrows.insertRow hdb fun ws => TxThrows.pure)

/-- Starting an attempt is paid with its commit, which a call of the provider
needs. -/
theorem Triple.startAttempt {operation : GenerationProviderOperation}
    {provider model : String} {leaseExpiresAt : Time} {assetId : Option Id}
    (hbusy : Busy P g tok) (hscope : ∀ S, P.holds S → Scoped S g operation assetId) :
    Triple (contract cfg start) P
      (startAttempt cfg g operation provider model tok leaseExpiresAt assetId)
      (fun id => (P.and (Paid g tok operation assetId)).and
        (Started g tok operation assetId id)) (fun _ => P) := by
  have hallow : Allows P (.startAttempt g tok operation assetId) :=
    hbusy.allows (by simp [Site.ofRun])
  obtain ⟨body, hbody, hends⟩ := startAttempt_body cfg g tok operation provider model
    leaseExpiresAt assetId
  rw [hbody]
  refine Triple.serializable (fun S hP => ?_) fun _ _ hP => P.lasts Later.rollback hP
  refine (hends S.clock S.db).1.mono ?_
  rintro id ws ⟨y, hws, hopen, hbudget, hid, hstatus, htok, hnew, hgen, hasset, rfl⟩
  refine ⟨⟨⟨y, hws, hopen, hbudget, hid, hstatus, htok, hnew, hgen, hasset, hscope S hP⟩,
    hallow S hP⟩, ⟨P.lasts (Later.commit rfl) hP, ?_⟩, ⟨by rw [hid], by rw [hid], by rw [hid]⟩, ?_⟩
  · show (Shared.entered marking (S.commit t _ ws) t).count _ < _
    rw [Shared.entered_commit, Shared.committedBy_commit, List.count_cons_self]
    exact Nat.lt_succ_of_le (hbusy.budget S operation assetId hP)
  · exact ⟨⟨t, .commit _ ws, S.toScene⟩, List.mem_cons_self, rfl, ws, y, rfl,
      hws ▸ List.mem_append_right _ (List.mem_singleton.mpr rfl), rfl⟩

end Serial

-- ========================================================= transcriptions

section Transcribing

variable {β : Type} {F : β → List (Write Row Key) → RState → Prop} {assetId : Id}

/-- An update of a transcription that must exist. -/
theorem TxSafe.updateTranscription {ws : List (Write Row Key)}
    {f : ReportAssetTranscription → ReportAssetTranscription} {k : Unit → InTransaction β}
    (hws : ∀ w ∈ ws, w.target ≠ Key.transcription assetId)
    (hid : ∀ x, (f x).assetId = x.assetId)
    (h : ∀ S' x, Within C t s S S' → x.assetId = assetId →
      (∀ S'', Within C t s S' S'' → transcription? S''.db assetId = some x) →
      TxSafe C t s F (k ()) (ws ++ [.update (.transcription (f x))]) S') :
    TxSafe C t s F (updateOrThrow (.transcription assetId) (setTranscription f) >>= k)
      ws S := by
  refine TxSafe.updateOrThrow fun S₁ r _ hW₁ hfind _ => ?_
  rw [find?_applyAll_ne hws] at hfind
  obtain ⟨x, rfl, hxid⟩ := find?_transcription hfind
  refine h _ x hW₁ hxid fun S' hW => ?_
  rw [transcription?_eq_some, ← hxid, ← hid x]
  refine (Within.find?_of_write (w := .update (Row.transcription (f x))) hW).trans ?_
  show S₁.db.find? (Key.transcription (f x).assetId) = _
  rw [hid, hxid]
  exact hfind

/-- What a run knows once it began a transcription. -/
def Began (assetId : Id) : Knows t where
  holds := fun S => Begun S t assetId
  lasts := fun h ⟨newer, e, older, htr, ht, hev, hquiet⟩ => by
    obtain ⟨more, hmore⟩ := h.trace
    refine ⟨more ++ newer, e, older, ?_, ht, hev,
      hquiet.append (Uncounted.of_later h hmore.symm)⟩
    rw [← hmore, htr, List.append_assoc]

/-- Beginning a transcription is a commit of a run that has found none
finished. -/
theorem Triple.beginTranscription (hallow : Allows P (.beginTranscription assetId))
    (hfound : ∀ S, P.holds S → ∃ g tok a m, S.asked t = [.process g a m] ∧
      FoundUnfinished S t g tok assetId ∧ Scoped S g .transcription (some assetId)) :
    Triple (contract cfg start) P (beginTranscription cfg assetId)
      (fun _ => P.and (Began assetId)) (fun _ => P) := by
  refine Triple.transaction (F := fun _ ws S' => Transcribes assetId .processing ws S' ∨
    ∃ y, transcription? S'.db assetId = none ∧ y.assetId = assetId ∧ y.status = .processing ∧
      ws = [.insert (.transcription y)]) (fun S _ _ => ?_) (fun _ ws S hP hF => ?_)
    fun _ _ hP => P.lasts Later.rollback hP
  · refine TxSafe.upsertRow (fun S₁ _ hW₁ _ hnone _ => ?_) fun S₁ r _ hW₁ hr => ?_
    · refine TxSafe.pure fun S₂ hS₂ => Or.inr ⟨_, ?_, rfl, rfl, rfl⟩
      rw [transcription?_eq_none]
      exact (hS₂.within.find?_of_write).trans hnone
    · have hkey := List.find?_some hr
      simp only [decide_eq_true_eq] at hkey
      have hfind : S₁.db.find? (Key.transcription assetId) = some r :=
        Db.find?_eq_some_iff.mpr ⟨List.mem_of_find?_eq_some hr, hkey⟩
      obtain ⟨x, rfl, hid⟩ := find?_transcription hfind
      refine TxSafe.pure fun S₂ hS₂ => Or.inl ⟨x, _, ?_, ?_, ?_, rfl⟩
      · rw [transcription?_eq_some, ← hfind, ← hid]
        exact Within.find?_of_write (w := .update (Row.transcription _)) hS₂.within
      · exact hid
      · rfl
  · refine ⟨⟨⟨hF, hfound S hP⟩, hallow S hP⟩, P.lasts (Later.commit rfl) hP, ?_⟩
    exact ⟨[], _, S.trace, rfl, rfl, ⟨ws, rfl⟩, fun _ h => by cases h⟩

/-- A transcription is completed with the text the provider answered. -/
theorem Triple.completeTranscription {R : Knows t} {asset : GenerationSnapshotAsset}
    {language : String}
    {attempt : AttemptKey} {result : ProviderResult ProviderTranscription}
    (hallow : Allows P (.completeTranscription g tok asset.id))
    (hscope : ∀ S, P.holds S → Scoped S g .transcription (some asset.id))
    (hcommit : ∀ S ws, P.holds S →
      R.holds (S.commit t (.completeTranscription g tok asset.id) ws))
    (hop : attempt.operation = .transcription)
    (hcall : ∀ S, P.holds S → ∃ e ∈ S.trace, e.tid = t ∧ ∃ k fileName mimeType language,
      e.event = .call (.transcribe k fileName mimeType language) (.transcribed result)) :
    Triple (contract cfg start) P
      (completeTranscription cfg g asset language tok attempt result)
      (fun _ => R.and (Traced (Heard · t asset.id result.value.text)
        fun _ _ htr h => h.mono htr))
      (fun _ => P) := by
  refine Triple.transaction (F := fun _ ws S' => ∃ x y side,
      Closes attempt .completed side S' ∧ transcription? S'.db asset.id = some x ∧
      y.assetId = asset.id ∧ y.status = .completed ∧ y.text = some result.value.text ∧
      ws = side ++ [.update (.transcription y)])
    (fun S _ _ => ?_) ?_ fun _ _ hP => P.lasts Later.rollback hP
  · refine TxSafe.clock fun S₁ _ => TxSafe.select fun S₂ _ _ => ?_
    split
    next => exact TxSafe.throw _
    next =>
        refine TxSafe.completeAttempt fun S₃ y _ hy => TxSafe.of_bind_pure ?_
        refine TxSafe.updateTranscription (by simp [Write.target, key]) (fun _ => rfl)
          fun S₄ x hW₄ hid hx => TxSafe.pure fun S₅ hS₅ => ?_
        refine ⟨x, _, _, hy S₅ (hW₄.trans hS₅.within), hx S₅ hS₅.within, ?_, ?_, ?_, rfl⟩
        · exact hid
        · rfl
        · rfl
  · rintro _ ws S hP ⟨x, y, side, hclose, hx, hid, hstatus, htext, rfl⟩
    obtain ⟨e, he, ht, k, fileName, mimeType, language, hev⟩ := hcall S hP
    refine ⟨⟨⟨hscope S hP, attempt, x, y, side, hop, hclose, hx, hid, hstatus, rfl, e, he, ht, k,
      fileName, mimeType, language, result, hev, htext⟩, hallow S hP⟩, hcommit S _ hP, ?_⟩
    exact ⟨⟨t, .commit _ _, S.toScene⟩, List.mem_cons_self, rfl, Or.inr ⟨g, tok, _, y, rfl,
      List.mem_append_right _ (List.mem_singleton.mpr rfl), hid, hstatus, htext⟩⟩

/-- What follows a failed transcription is a throw. -/
theorem Triple.failTranscription {attempt : AttemptKey} {error : Error} {Q : String → Knows t}
    (hread : Allows P (.ownedTranscription g tok)) (hclose : Allows P (.failAttempt attempt))
    (hallow : Allows P (.failTranscription assetId))
    (hbegun : ∀ S, P.holds S → Begun S t assetId) :
    Triple (contract cfg start) P (failTranscription g assetId tok attempt error) Q
      (fun _ => P) := by
  unfold Reports.failTranscription
  extract_lets providerError
  clear_value providerError
  have hthrow : ∀ e : Error, Triple (contract cfg start) P (.throw e : Async String) Q
      (fun _ => P) := fun _ => Triple.throw fun _ hP => hP
  split
  next => exact hthrow _
  next =>
      refine Triple.bind (R := fun _ => P) (Keeps.read rfl hread fun _ => rfl) fun owned => ?_
      split
      next => exact hthrow _
      next =>
          refine Triple.bind (R := fun _ => P) (Keeps.failAttempt hclose) fun _ => ?_
          refine Triple.bind (R := fun _ => P) ?_ fun _ => hthrow _
          refine Keeps.transaction (F := fun ws S' => Transcribes assetId .failed ws S') rfl
            (fun S _ => TxSafe.of_bind_pure ?_) fun ws S hP hF =>
              ⟨⟨hF, hbegun S hP⟩, hallow S hP⟩
          refine TxSafe.updateTranscription (by simp) (fun _ => rfl) fun S₁ x _ hid hx => ?_
          refine TxSafe.pure fun S₂ hS₂ => ⟨x, _, hx S₂ hS₂.within, ?_, ?_, rfl⟩
          · exact hid
          · rfl

end Transcribing

end FastRep.Reports
