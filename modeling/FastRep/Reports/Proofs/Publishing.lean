/-
A whole run of the worker keeps the contract.

A run uploads one object and then either publishes it, schedules its
cleanup, or throws the error of the scheduling that failed (`TidyBut`). The
catch block ends in one of three ways, each of them seen in the trace: the run
settled the generation, it found the generation not PROCESSING, or a
transaction of its own rolled back.

# The knowledge of a run

`Owner` is a run in the middle: it has claimed its generation, and has
uploaded under one key or none. `Over` is a run that may have settled its
generation already, and may commit only what needs no claim. The try block
takes a run from the first to the second if it publishes (`Triple.tryBlock`);
the catch block takes over from either (`Triple.settleError`).

`Triple.process` puts the parts together: the claim, the heartbeat's lease
apart, the try block, its handlers, and the deletion of the temporary files,
which changes nothing that is known.
-/
import FastRep.Reports.Proofs.Running
import FastRep.Reports.Proofs.Starting

namespace FastRep.Reports

open FastRep.Txn

variable {cfg : Config} {start : RState} {t : Tid} {S : RState} {P : Knows t}
  {g tok a m : Id}

-- ============================================================= ownership

/-- A run that owns its generation, with the key it uploaded under. -/
def Owner (g tok a m : Id) (k : Option StorageKey) : Knows t :=
  (OnRun g tok a m).and ((Claimant g tok).and (Uploads k))

/-- A run that may have settled its generation already. -/
def Over (g tok a m : Id) : Knows t := (OnRun g tok a m).and Tidy

/-- A run that has claimed may commit at its sites. -/
theorem Owner.allows {s : Site} {k : Option StorageKey} (hs : s.ofRun g tok = true) :
    Allows (Owner (t := t) g tok a m k) s :=
  Busy.base.allows hs

/-- A run that is over may commit at those of its sites that do no work. -/
theorem Over.allows {s : Site} (hs : s.ofRun g tok = true) (hw : s.working = false) :
    Allows (Over (t := t) g tok a m) s :=
  Allows.of_run hs hw fun _ hS => OnRun.serves hS.1

/-- A run that uploaded nothing has nothing to account for. -/
theorem Uploads.tidy (h : (Uploads (t := t) none).holds S) : (Tidy (t := t)).holds S :=
  fun k hk => absurd (h k hk) (by simp)

/-- What a run publishes or schedules for cleanup is accounted for. -/
theorem Uploads.tidy_of {k : StorageKey} (h : (Uploads (t := t) (some k)).holds S)
    (hk : Uploaded t k S) : (Tidy (t := t)).holds S := by
  intro k' hk'
  cases h k' hk'
  exact hk

-- ================================================================ upload

/-- Whatever the upload ends in, its key is remembered. -/
theorem Triple.uploadObject {u r : Id} {bytes : Bytes} {K : Knows t}
    (hK : ∀ S S', S.trace <:+ S'.trace → K.holds S → K.holds S') :
    Triple (contract cfg start) ((Owner g tok a m none).and K)
      (uploadObject (.output u r g tok) bytes)
      (fun _ => (Owner g tok a m (some (.output u r g tok))).and K)
      (fun _ => (Owner g tok a m (some (.output u r g tok))).and K) := by
  refine Triple.enter (K := (Owner g tok a m (some (.output u r g tok))).and K)
    (fun S hS => ⟨u, r, g, tok, rfl, Busy.base.working S hS.1, fun k' hk' => ?_⟩)
    (fun S ⟨⟨hrun, hclaim, hup⟩, hk⟩ => ⟨⟨hrun, ?_, fun k' hk' => ?_⟩,
      hK _ _ (List.suffix_cons _ _) hk⟩) ?_
  · exact absurd (hS.1.2.2 k' hk') (by simp)
  · obtain ⟨hmarks, ⟨now, hclaim⟩, hbudget⟩ := hclaim
    refine ⟨hmarks, ⟨now, hclaim.mono (List.suffix_cons _ _)⟩, fun operation assetId => ?_⟩
    rw [metered_log rfl, List.count_cons_of_ne (by simp)]
    exact hbudget operation assetId
  · rw [metered_log rfl] at hk'
    rcases List.mem_cons.mp hk' with h | h
    · cases h
      rfl
    · exact absurd (hup k' h) (by simp)
  · refine Keeps.bind (Keeps.call fun _ _ => ⟨u, r, g, tok, rfl⟩) fun _ => ?_
    refine Keeps.bind Keeps.headObject fun metadata => ?_
    split
    next => exact Keeps.pure
    next => exact Keeps.throw

-- ============================================================== its endings

/-- The run returns `completed` for a reason seen in the trace. -/
def Ended (generationId a m : Id) : Knows t :=
  .entry fun e => e.tid = t ∧ (t, Req.process generationId a m) ∈ e.before.live ∧
    ((∃ tok ws, e.event = .commit (.finalizeSuccess generationId tok) ws) ∨
      (∃ tok ws, e.event = .commit (.failGeneration generationId tok) ws ∧ ws ≠ []) ∨
      (e.event = .statement (.resultAfterClaimLoss generationId) ∧
        ∀ x, generation? e.before.db generationId = some x → x.status ≠ .processing))

/-- What a run knows when it returns a result. -/
def Returned (P : Knows t) (g a m : Id) (r : GenerationProcessResult) : Knows t :=
  P.and (match r with
    | .completed => Ended g a m
    | .deferred _ => .top)

/-- What a run knows when it throws: it had attempts left, or the failure
of one of its own transactions surfaced. -/
def Thrown (P : Knows t) (g a m : Id) (e : Error) : Knows t :=
  P.and ((TidyBut e).and (Traced (fun S => a < m ∨ Surfaced t g S) fun _ _ htr h =>
    h.imp_right fun ⟨e, he, hp⟩ => ⟨e, htr.subset he, hp⟩))

/-- A rollback of one of these transactions surfaces. -/
theorem Thrown.of_rollback {s : Site} {e : Error} (hs : s.surfaces g = true)
    (hP : P.holds (S.rollback t s e)) (htidy : (TidyBut (t := t) e).holds (S.rollback t s e)) :
    (Thrown P g a m e).holds (S.rollback t s e) :=
  ⟨hP, htidy, Or.inr ⟨⟨t, .rollback s e, S.toScene⟩, List.mem_cons_self, rfl, s, e, rfl, hs⟩⟩

/-- So does one of a run with nothing left to account for. -/
theorem Over.thrown {s : Site} {e : Error} (hs : s.surfaces g = true)
    (h : (Over (t := t) g tok a m).holds S) :
    (Thrown (OnRun (t := t) g tok a m) g a m e).holds (S.rollback t s e) :=
  Thrown.of_rollback hs ((OnRun g tok a m).lasts Later.rollback h.1)
    (Tidy.but (Tidy.lasts Later.rollback h.2))

/-- A run that has lost its claim returns what it finds. -/
theorem Triple.resultAfterClaimLoss :
    Triple (contract cfg start) (Over g tok a m) (resultAfterClaimLoss g)
      (Returned (Over (t := t) g tok a m) g a m) (Thrown (OnRun g tok a m) g a m) := by
  have hended : ∀ (r : Option ReportGeneration), (∀ x, r = some x → x.status ≠ .processing) →
      ∀ S, ((Over g tok a m).and (Found (Over (t := t) g tok a m) (.resultAfterClaimLoss g)
        fun d => generation? d g = r)).holds S →
      (Returned (Over (t := t) g tok a m) g a m .completed).holds S := by
    rintro r hr S ⟨hP, e, he, ht, hev, hread, hreq⟩
    exact ⟨hP, e, he, ht, hreq _ fun S hS => hS.1.1.2, Or.inr (Or.inr ⟨hev, fun x hx =>
      hr x (hread.symm.trans hx)⟩)⟩
  refine Triple.bind (Triple.read rfl (Over.allows (by simp [Site.ofRun]) rfl) (fun _ => rfl)
    fun e S hP => Over.thrown (by simp [Site.surfaces]) hP) fun generation => ?_
  cases generation with
  | none => exact Triple.pure (hended none (by simp))
  | some x =>
      show Triple _ _ (if _ then _ else _) _ _
      split
      next hx => exact Triple.pure (hended (some x) (by simpa using hx))
      next =>
          exact Triple.bind Triple.clock fun now => Triple.pure fun S hS => ⟨hS.1, trivial⟩

/-- After the orphan is scheduled nothing is left unaccounted for. -/
theorem Triple.cleanupOrphan {k : Option StorageKey}
    (hk : ∀ i, k = some i → ∃ u r, i = .output u r g tok) :
    Triple (contract cfg start) (Owner g tok a m k) (cleanupOrphan k)
      (fun _ => (Over g tok a m).and (Claimed g tok))
      (Thrown (OnRun (t := t) g tok a m) g a m) := by
  cases k with
  | none =>
      exact Triple.pure fun S hS => ⟨⟨hS.1, Uploads.tidy hS.2.2⟩, Claimant.claimed hS.2.1⟩
  | some i =>
      obtain ⟨u, r, hi⟩ := hk i rfl
      -- the run gives its upload up with this commit
      let R : Knows t := (OnRun g tok a m).and ((Claimed g tok).and (Uploads (some i)))
      refine Triple.bind (R := fun _ => R.and (HasTask i)) (Triple.writeTask
        (Owner.allows rfl) (fun S ws hS => ⟨OnRun.commit hS.1, ?_, Uploads.commit hS.2.2⟩)
        (fun S w hS hw => ⟨w, u, r, g, tok, rfl, hw, hi, hS.1.2, (Claimant.claimed hS.2.1).1⟩)
        fun e S hS => Thrown.of_rollback rfl ((OnRun g tok a m).lasts Later.rollback hS.1)
          fun k' hk' => ?_) fun _ => ?_
      · obtain ⟨hmarks, now, hclaim⟩ := Claimant.claimed hS.2.1
        refine ⟨fun s hs => ?_, now, hclaim.mono (List.suffix_cons _ _)⟩
        rw [marks, Shared.marks_commit rfl] at hs
        rcases List.mem_cons.mp hs with rfl | hs
        · rfl
        · exact hmarks s hs
      · cases (Uploads (some i)).lasts Later.rollback hS.2.2 k' hk'
        exact Or.inr ⟨⟨t, .rollback _ e, S.toScene⟩, List.mem_cons_self, rfl, rfl⟩
      have hallow : ∀ s : Site, s.ofRun g tok = true → s.working = false →
          Allows (R.and (HasTask i)) s :=
        fun s hs hw => Allows.of_run hs hw fun _ hS => OnRun.serves hS.1.1
      have hcleanup : Keeps (contract cfg start) (R.and (HasTask i)) (attemptMany [i]) :=
        Keeps.attemptMany (fun k => ⟨hallow _ rfl rfl, hallow _ rfl rfl⟩)
          fun k hk S hS => by
            cases List.mem_singleton.mp hk
            exact hS.2
      refine Triple.bind (R := fun _ => R.and (HasTask i)) (Triple.attempt hcleanup) fun _ => ?_
      exact Triple.pure fun S hS => ⟨⟨hS.1.1, Uploads.tidy_of hS.1.2.2 (Or.inr hS.2)⟩,
        hS.1.2.1⟩

/-- The catch block: it rethrows only with attempts left. -/
theorem Triple.settleError (hstart : start.trace = []) {k : Option StorageKey}
    (hk : ∀ i, k = some i → ∃ u r, i = .output u r g tok) {error : Error} :
    Triple (contract cfg start) (Owner g tok a m k) (settleError cfg g tok a m k error)
      (Returned (Over (t := t) g tok a m) g a m) (Thrown (OnRun g tok a m) g a m) := by
  have hlost : ∀ {K : Knows t}, Triple (contract cfg start) ((Over g tok a m).and K)
      (Reports.resultAfterClaimLoss g) (Returned (Over (t := t) g tok a m) g a m)
      (Thrown (OnRun g tok a m) g a m) :=
    Triple.resultAfterClaimLoss.conseq (fun _ h => h.1) (fun _ _ h => h) fun _ _ h => h
  have hworking : ∀ s : Site, s.ofRun g tok = true → (∀ g tok, s ≠ .finalizeSuccess g tok) →
      Allows ((Over (t := t) g tok a m).and (Claimed g tok)) s :=
    fun s hs hne => Allows.of_working hs (fun S hS =>
      { OnRun.serves hS.1.1 with unsettled := hS.2.1, claimed := hS.2.2 })
      fun g tok heq => absurd heq (hne g tok)
  have hcommit : ∀ s S ws, ((Over (t := t) g tok a m).and (Claimed g tok)).holds S →
      (Over (t := t) g tok a m).holds (S.commit t s ws) :=
    fun s S ws hS => ⟨OnRun.commit hS.1.1, Tidy.commit hS.1.2⟩
  refine Triple.bind (Triple.cleanupOrphan hk) fun _ => ?_
  split
  next => exact hlost
  next =>
      split
      next hretry =>
          have hleft : a < m := by
            simp only [Bool.and_eq_true, decide_eq_true_eq] at hretry
            exact hretry.2
          have hthrown : ∀ {e : Error} {S}, (Over (t := t) g tok a m).holds S →
              (Thrown (OnRun g tok a m) g a m e).holds S :=
            fun h => ⟨h.1, Tidy.but h.2, Or.inl hleft⟩
          refine Triple.bind (Triple.prepareRetry (R := Over g tok a m)
            (hworking _ (by simp [Site.ofRun]) (by simp)) (hcommit _)
            fun e S hS => hthrown ((Over g tok a m).lasts Later.rollback hS.1))
            fun prepared => ?_
          split
          next => exact Triple.throw fun S hS => hthrown hS
          next => exact Triple.resultAfterClaimLoss
      next =>
          refine Triple.bind (Triple.failGeneration (R := Over g tok a m) hstart
            (hworking _ (by simp [Site.ofRun]) (by simp)) (fun S hS => hS.1.1.1.2)
            (fun S hS => hS.2.2) (hcommit _)
            fun e S hS => Over.thrown (by simp [Site.surfaces]) hS.1) fun failed => ?_
          cases failed with
          | true =>
              refine Triple.pure fun S hS => ?_
              obtain ⟨hP, e, he, ht, hreq, hev⟩ := hS
              exact ⟨hP, e, he, ht, hreq, Or.inr (Or.inl hev)⟩
          | false => exact hlost

-- ============================================================ the try block

/-- What the try block leaves behind. -/
def Tried (g tok a m : Id) (o : TryOutcome) : Knows t :=
  match o.result with
  | .ok _ => (Over g tok a m).and (Ended g a m)
  | .error _ => (Owner g tok a m o.uploadedOutputKey).and
      (.prop (∀ i, o.uploadedOutputKey = some i → ∃ u r, i = .output u r g tok))

/-- The try block succeeds by publishing. Its errors are in its outcome. -/
theorem Triple.tryBlock {deadline : Time} {E : Error → Knows t} :
    Triple (contract cfg start) (Owner g tok a m none) (tryBlock cfg g tok deadline)
      (Tried g tok a m) E := by
  have hbare : ∀ {files : List Nat} {e : Error} {K : Knows t},
      (∀ S, K.holds S → (Owner (t := t) g tok a m none).holds S) →
      Triple (contract cfg start) K (Pure.pure ⟨files, none, .error e⟩) (Tried g tok a m) E :=
    fun hK => Triple.pure fun S hS => ⟨hK S hS, fun _ h => by cases h⟩
  refine Triple.bind (Triple.attempt (R := fun r => match r with
    | .ok r => (Owner g tok a m none).and (Analyzed g tok r)
    | .error _ => Owner g tok a m none) (Triple.analyze Transcriber.base)) fun analyzed => ?_
  rcases analyzed with e | r
  · exact hbare fun _ h => h
  · refine Triple.of_known fun S _ hS => ⟨_, hS, ?_⟩
    obtain ⟨hg, htok, hstored⟩ : r.1.generationId = g ∧ r.1.processingToken = tok ∧
        ∀ result ∈ r.2.2, Parsed result := hS.2.1
    have hbusy : Busy ((Owner (t := t) g tok a m none).and (Analyzed g tok r)) g tok :=
      Busy.base.analyzed
    refine Triple.bind (Triple.generateContent hbusy (fun S hS => hS.2) hstored)
      fun content => ?_
    obtain ⟨files, e | structuredResult⟩ := content
    · exact hbare fun _ h => h.1.1
    · refine Triple.of_known fun S _ hS =>
        ⟨(Owner g tok a m none).and (Analyzed g tok r), hS.1, ?_⟩
      have hparsed : Parsed structuredResult := hS.2 structuredResult rfl
      refine Triple.bind (Triple.attempt (R := fun _ =>
        (Owner g tok a m none).and (Analyzed g tok r))
        (Keeps.renderOutput hbusy hg htok hparsed)) fun rendered => ?_
      rcases rendered with e | pdfBytes
      · exact hbare fun _ h => h.1
      · let key := StorageKey.output r.1.generation.userId r.1.generation.reportId g tok
        refine Triple.bind (Triple.attempt (R := fun o => match o with
          | .ok _ => (Over g tok a m).and (Ended g a m)
          | .error _ => Owner g tok a m (some key)) ?_) fun published => ?_
        · refine Triple.bind ((Triple.uploadObject (K := Loads r.1.generation g)
            fun _ _ htr ⟨e, he, hp⟩ => ⟨e, htr.subset he, hp⟩).conseq
            (fun S hS => ⟨hS.1, hS.2.2.1⟩) (fun _ _ h => h) fun _ _ h => h.1) fun _ => ?_
          refine (Triple.finalizeSuccess (a := a) (m := m)
            (P := (Owner g tok a m (some key)).and (Loads r.1.generation g))
            (R := (OnRun g tok a m).and (Uploads (some key)))
            (fun S hS => Owner.allows (by simp [Site.ofRun]) S hS.1) (fun S hS => hS.1.1.1.2)
            (fun S hS => ?_) fun S ws hS => ⟨OnRun.commit hS.1.1, Uploads.commit hS.1.2.2⟩).conseq
            (fun _ h => h) (fun _ S hS => ?_) fun _ _ h => h.1
          · obtain ⟨e, he, hload⟩ := hS.2
            exact ⟨e, he, _, hload, rfl⟩
          · obtain ⟨⟨hrun, hup⟩, e, he, ht, hreq, ws, o, hev, ho, hkey⟩ := hS
            exact ⟨⟨hrun, Uploads.tidy_of hup (Or.inl ⟨e, he, ht, g, tok, ws, o, hev, ho, hkey⟩)⟩,
              e, he, ht, hreq, Or.inl ⟨tok, ws, hev⟩⟩
        · rcases published with e | _
          · refine Triple.pure fun S hS => ⟨hS, fun k hk => ?_⟩
            cases hk
            exact ⟨_, _, rfl⟩
          · exact Triple.pure fun S hS => hS

-- ================================================================= requests

/-- A request whose thread has entered nothing that counts. -/
def Unmetered : Knows t where
  holds := fun S => metered S t = []
  lasts := fun h hS => h.entered.trans hS

/-- What is known after an attempt, of its value or its error. -/
def Ran (Q : α → Knows t) (E : Error → Knows t) : Except Error α → Knows t
  | .ok a => Q a
  | .error e => E e

/-- A delivery returns or throws for one of the reasons of the contract, and
leaves no object behind. -/
theorem Triple.process (hstart : start.trace = []) :
    Triple (contract cfg start) ((Fresh (.process g a m)).and Unmetered : Knows t)
      (process cfg g a m)
      (Returned ((Known.serving (.process g a m)).and Tidy) g a m)
      (Thrown (Known.serving (.process g a m)) g a m) := by
  refine Triple.bind (R := fun i => (OnRun g i a m).and ((Known.drew [i] []).and Unmetered))
    (Triple.randomUUID fun S _ hS => ?_) fun tok => ?_
  · obtain ⟨hserve, hdrew⟩ := Known.drew_drawn hS.1
    exact ⟨⟨hserve, hdrew.1⟩, hdrew, hS.2⟩
  have hover : ∀ S, ((OnRun g tok a m).and ((Known.drew [tok] []).and
      (Unmetered (t := t)))).holds S → (Over (t := t) g tok a m).holds S :=
    fun S hS => ⟨hS.1, fun k hk => by rw [hS.2.2] at hk; cases hk⟩
  refine Triple.conseq (Q := Returned (Over g tok a m) g a m)
    (E := Thrown (OnRun g tok a m) g a m) ?_ (fun _ h => h)
    (fun r S hS => ⟨⟨hS.1.1.1, hS.1.2⟩, hS.2⟩) fun _ _ hS => ⟨hS.1.1, hS.2⟩
  refine Triple.bind (Triple.claim (fun S hS => Over.allows (by simp [Site.ofRun]) rfl S
    (hover S hS)) (fun S hS => ⟨a, m, hS.1.1.1⟩)
    fun e S hS => Over.thrown (by simp [Site.surfaces]) (hover S hS)) fun claimed => ?_
  cases claimed with
  | false =>
      exact Triple.resultAfterClaimLoss.conseq (fun S hS => hover S hS.1) (fun _ _ h => h)
        fun _ _ h => h
  | true =>
      refine Triple.conseq (P := Owner g tok a m none) ?_ (fun S hS => ?_) (fun _ _ h => h)
        fun _ _ h => h
      · refine Triple.bind Triple.clock fun startedAt => ?_
        refine Triple.bind Triple.tryBlock fun outcome => ?_
        refine Triple.bind (R := Ran (Returned (Over g tok a m) g a m)
          (Thrown (OnRun g tok a m) g a m)) (Triple.attempt ?_) fun result => ?_
        · obtain ⟨files, k, e | _⟩ := outcome
          · refine Triple.of_known fun S _ hS => ⟨Owner g tok a m k, hS.1, ?_⟩
            exact Triple.settleError hstart hS.2
          · exact Triple.pure fun S hS => hS
        · refine Triple.bind (Triple.deleteTemporaryFiles _) fun _ => ?_
          refine Triple.settle (fun r S he hS => ?_) fun e S he hS => ?_
          · subst he
            exact hS
          · subst he
            exact hS
      · obtain ⟨⟨hrun, hdrew, hmetered⟩, e, he, ht, hev⟩ := hS
        refine ⟨hrun, ⟨fun s hs => ?_, ⟨_, e, he, ht, hev, Nat.le_refl _⟩, fun operation assetId => ?_⟩,
          fun k hk => ?_⟩
        · rw [marks, hdrew.2] at hs
          cases hs
        · rw [hmetered]
          exact Nat.zero_le _
        · rw [hmetered] at hk
          cases hk

end FastRep.Reports
