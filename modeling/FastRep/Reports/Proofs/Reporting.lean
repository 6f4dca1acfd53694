/-
What creating, changing and deleting a report commit, and what a grant of
credits commits.

`deleteReport` runs in a serializable transaction that is retried on a
conflict: it reads the keys of everything the report stores, writes a cleanup
task for each, and removes the report. The keys are those of the rows the
cascade removes (`TxEnds.deleteReport`), and no cascade reaches a task
(`Removes.not_task`). Objects are deleted behind the commit only, each on
behalf of its task.

The two grants differ in what they find. The command line's grant is always
new; a monthly one is an upsert by its period, so its GRANT entry may be that
of a grant which is already stored.
-/
import FastRep.Reports.Proofs.Cleanup
import FastRep.Reports.Proofs.Starting

namespace FastRep.Reports

open FastRep.Txn

variable {cfg : Config} {start : RState} {t : Tid} {s : Site} {S : RState} {P : Knows t}
  {q : Req} {α : Type}

-- ============================================================== requests

/-- A client request may commit wherever no claim is needed. -/
theorem Allows.serving (hs : s.working = false) (hq : q.ofClient = true) :
    Allows (Known.serving q : Knows t) s :=
  Allows.of_client hs hq fun _ hS => hS

/-- A transaction that is retried on a conflict ends as one of its
attempts does. -/
theorem Triple.retryOnConflict {body : InTransaction α} {conflicted : Error}
    {Q : α → Knows t} (left : Nat)
    (h : Triple (contract cfg start) P (serializable s body) Q (fun _ => P)) :
    Triple (contract cfg start) P (retryOnConflict s body conflicted left) Q (fun _ => P) := by
  induction left with
  | zero => exact Triple.throw fun _ hP => hP
  | succ left ih =>
      refine Triple.catch h fun e => ?_
      split
      next =>
          split
          next => exact ih
          next => exact Triple.throw fun _ hP => hP
      next => exact Triple.throw fun _ hP => hP

-- =============================================================== reports

/-- `createReport` commits with the one id it has drawn. -/
theorem Triple.createReport {userId : Id} {title : String} {notes : Option String}
    (hq : q.ofClient = true) :
    Triple (contract cfg start) (Fresh q : Knows t) (createReport userId title notes)
      (fun _ => Known.serving q) (fun _ => Known.serving q) := by
  refine Triple.bind (R := fun i => Drawn q i) (Triple.randomUUID
    fun S _ hS => Known.drew_drawn hS) fun id => Triple.bind Triple.clock fun createdAt => ?_
  refine Triple.transaction (F := fun _ ws S' => ws = [.insert (.report
      (newReport id userId title notes createdAt))] ∧ report? S'.db id = none)
    (fun S _ _ => TxSafe.insertRow fun S₁ _ _ hnone _ => TxSafe.pure fun S₂ hS₂ => ⟨rfl, ?_⟩)
    (fun _ ws S hS hF => ?_) fun _ S hS => (Known.serving q).lasts Later.rollback hS.1
  · rw [report?_eq_none]
    exact (Within.find?_of_write (w := .insert (Row.report _)) hS₂.within).trans hnone
  · exact ⟨⟨⟨userId, title, notes, createdAt, hF.1, hF.2, hS.2.1, hS.2.2⟩,
      Allows.drew rfl hq S hS⟩, Known.serving_commit hS.1⟩

theorem Keeps.updateReport {userId id : Id} {title : Option String}
    {notes : Option (Option String)} (hallow : Allows P (.updateReport id))
    (hfind : Allows P (.findReport id)) :
    Keeps (contract cfg start) P (updateReport userId id title notes) := by
  refine Keeps.bind ?_ fun count => ?_
  · refine Keeps.effect rfl hallow fun S _ => TxSafe.of_bind_pure ?_
    refine TxSafe.updateReport (by simp) (fun _ => rfl)
      (fun S₁ _ _ => TxSafe.pure fun _ _ => Or.inl rfl) fun S₁ r _ hp hr => ?_
    simp only [Bool.and_eq_true, Bool.or_eq_true, decide_eq_true_eq] at hp
    refine TxSafe.pure fun S₂ hS₂ => Or.inr ⟨r, title, notes, ?_, hp.2, rfl⟩
    exact hr S₂ hS₂.within
  · have hread : Keeps (contract cfg start) P (query (.findReport id) (ownedReport userId id)) :=
      Keeps.read rfl hfind fun _ => rfl
    split
    next =>
        refine Keeps.bind hread fun owned => ?_
        cases owned with
        | none => exact Keeps.throw
        | some owned =>
            dsimp only
            split
            next => exact Keeps.throw
            next => exact Keeps.throw
    next =>
        refine Keeps.bind hread fun report => ?_
        cases report with
        | none => exact Keeps.throw
        | some _ => exact Keeps.pure

/-- The tasks of a list of keys, with one for another key. -/
theorem tasks_cons {side : List (Write Row Key)} {w : Write Row Key} {k : StorageKey}
    {keys : List StorageKey} (hw : TaskWrite k w)
    (hall : ∀ w ∈ side, ∃ k ∈ keys, TaskWrite k w)
    (hevery : ∀ k ∈ keys, ∃ w ∈ side, TaskWrite k w) :
    (∀ w' ∈ w :: side, ∃ k' ∈ k :: keys, TaskWrite k' w') ∧
      ∀ k' ∈ k :: keys, ∃ w' ∈ w :: side, TaskWrite k' w' := by
  constructor
  · intro w' hw'
    rcases List.mem_cons.mp hw' with rfl | hw'
    · exact ⟨k, List.mem_cons_self, hw⟩
    · obtain ⟨k', hk', htask⟩ := hall w' hw'
      exact ⟨k', List.mem_cons_of_mem _ hk', htask⟩
  · intro k' hk'
    rcases List.mem_cons.mp hk' with rfl | hk'
    · exact ⟨w, List.mem_cons_self, hw⟩
    · obtain ⟨w', hw', htask⟩ := hevery k' hk'
      exact ⟨w', List.mem_cons_of_mem _ hw', htask⟩

/-- Tasks are written for exactly the listed keys. -/
theorem TxEnds.createCleanupTasks {n : Nat} {d : Db Row} {ws : List (Write Row Key)}
    {reason : StorageCleanupReason} (keys : List StorageKey) :
    TxEnds n d (fun _ ws' => ∃ side, ws' = ws ++ side ∧
      (∀ w ∈ side, ∃ k ∈ keys, TaskWrite k w) ∧ ∀ k ∈ keys, ∃ w ∈ side, TaskWrite k w)
      (Reports.createCleanupTasks reason keys) ws := by
  induction keys generalizing ws with
  | nil => exact TxEnds.pure ⟨[], by simp, by simp, by simp⟩
  | cons k ks ih =>
      have hnext : ∀ w, TaskWrite k w → TxEnds n d (fun _ ws' => ∃ side, ws' = ws ++ side ∧
          (∀ w ∈ side, ∃ k' ∈ k :: ks, TaskWrite k' w) ∧
          ∀ k' ∈ k :: ks, ∃ w ∈ side, TaskWrite k' w)
          (Reports.createCleanupTasks reason ks) (ws ++ [w]) := by
        intro w hw
        refine ih.mono fun _ ws' ⟨side, hws, hall, hevery⟩ =>
          ⟨w :: side, ?_, tasks_cons hw hall hevery⟩
        rw [hws, List.append_assoc]
        rfl
      refine TxEnds.clock (TxEnds.upsertRow (fun _ => hnext _ ⟨_, rfl, Or.inl rfl⟩)
        fun x hx => hnext _ ?_)
      have hkey := List.find?_some hx
      simp only [decide_eq_true_eq] at hkey
      cases x with
      | cleanupTask r =>
          cases hkey
          exact TaskWrite.update rfl
      | _ => cases hkey

/-- Writes of cleanup tasks leave every other row alone. -/
theorem find?_applyAll_tasks {side : List (Write Row Key)} {d : Db Row} {k : Key}
    (hside : ∀ w ∈ side, ∃ i, TaskWrite i w) (hk : ∀ i, k ≠ .cleanupTask i) :
    (applyAll side d).find? k = d.find? k := by
  refine find?_applyAll_ne (fun w hw he => ?_) d
  obtain ⟨i, r, rfl, rfl | rfl⟩ := hside w hw
  · exact hk _ he.symm
  · exact hk _ he.symm

/-- No deletion of a report removes a cleanup task. -/
theorem Removes.not_task {gone reports : Id → Prop} {d : Db Row} {ws : List (Write Row Key)}
    (h : Removes gone reports d ws) {w : Write Row Key} (hw : w ∈ ws) (k : StorageKey) :
    w.target ≠ .cleanupTask k := by
  rcases h.writes w hw with ⟨x, -, -, rfl⟩ | ⟨x, -, -, rfl⟩ | ⟨a, -, rfl⟩ | ⟨r, -, rfl⟩ |
    ⟨g, -, rfl⟩ | ⟨o, -, -, rfl⟩ | ⟨l, g, -, -, -, rfl⟩ <;> simp [Write.target, key]

/-- The keys of a report, and its deletion with the tasks of all of
them. -/
theorem TxEnds.deleteReport {userId id : Id} :
    TxEnds S.clock S.db (fun keys ws => Deletes id ws S ∧
      ∀ k ∈ keys, ∃ w ∈ ws, TaskWrite k w) (deleteReportTransaction userId id) [] := by
  refine TxEnds.select ?_
  split
  next => exact TxEnds.throw _
  next report hreport =>
      obtain ⟨hreport, -⟩ := Option.filter_eq_some_iff.mp hreport
      rw [applyAll_nil] at hreport
      have hid := report?_id hreport
      split
      next => exact TxEnds.throw _
      next hactive =>
          refine TxEnds.select (TxEnds.bind (TxEnds.createCleanupTasks _)
            fun _ ws hF => ?_)
          obtain ⟨side, hws, hall, hevery⟩ := hF
          cases hws
          rw [applyAll_nil] at hall hevery
          rw [List.nil_append]
          refine TxEnds.deleteOrThrow fun r hr => TxEnds.pure ?_
          have hsame : ∀ {k : Key}, (∀ i, k ≠ .cleanupTask i) →
              (applyAll side S.db).find? k = S.db.find? k :=
            fun hk => find?_applyAll_tasks (fun w hw => (hall w hw).imp fun _ h => h.2) hk
          have hmem : ∀ {r : Row}, (∀ i, key r ≠ Key.cleanupTask i) → r ∈ S.db.rows →
              r ∈ (applyAll side S.db).rows :=
            fun hk hr => Db.mem_of_find? ((hsame hk).trans (Db.find?_of_mem hr))
          refine ⟨⟨report, side, _, hreport, ?_, ?_, hall, hevery, rfl, ?_, fun o ho hrep => ?_,
            fun x hx hrep => ?_, ?_⟩, fun k hk => ?_⟩
          · exact fun h => hactive (Or.inl h)
          · exact fun h => hactive (Or.inr h)
          · rw [← hid]
            exact erase_self_mem_deletion (hmem (r := Row.report report) (by simp [key])
              (Db.mem_of_find? (report?_eq_some.mp (hid ▸ hreport))))
          · refine erase_mem_deletion (r := Row.output o) (hmem (by simp [key]) ?_) ?_
            · exact Db.mem_of_find? (output?_eq_some.mp (mem_outputs.mp ho))
            · rw [hid, ← hrep]
              exact List.mem_cons_self
          · refine erase_mem_deletion (r := Row.asset x) (hmem (by simp [key]) ?_) ?_
            · exact Db.mem_of_find? (asset?_eq_some.mp (mem_assets.mp hx))
            · rw [hid, ← hrep]
              exact List.mem_cons_self
          · have hgen : ∀ g, generation? (applyAll side S.db) g = generation? S.db g :=
              fun g => generation?_congr (hsame (by simp))
            have hremoves := Removes.report (d := applyAll side S.db) (i := report.id)
            simp only [hgen, hid] at hremoves ⊢
            refine hremoves.congr (fun x hx _ => ?_) fun w hw => ?_
            · rw [← asset?_congr (hsame (k := .asset x.id) (by simp))]
              exact hx
            · exact (hsame fun i hi => hremoves.not_task hw i hi).symm
          · obtain ⟨w, hw, htask⟩ := hevery k hk
            exact ⟨w, List.mem_append_left _ hw, htask⟩

/-- `deleteReport` neither, and deletes objects only behind its commit. -/
theorem Triple.deleteReport {userId id : Id} (hq : q.ofClient = true) :
    Keeps (contract cfg start) (Known.serving q : Knows t) (deleteReport userId id) := by
  refine Triple.bind (Triple.retryOnConflict (Q := fun keys => (Known.serving q).and
    (Traced (fun S => ∀ k ∈ keys, Tasked S k) fun _ _ htr h k hk => (h k hk).mono htr)) 3
    (Triple.serializable (fun S hS => ?_) fun _ S hS => (Known.serving q).lasts Later.rollback hS))
    fun keys => ?_
  · refine TxEnds.deleteReport.mono fun keys ws ⟨hdel, htasks⟩ => ?_
    refine ⟨⟨hdel, Allows.serving rfl hq S hS⟩, Known.serving_commit hS, fun k hk => ?_⟩
    obtain ⟨w, hw, htask⟩ := htasks k hk
    exact ⟨⟨t, .commit _ ws, S.toScene⟩, List.mem_cons_self, _, ws, rfl, w, hw, htask⟩
  · refine Triple.bind (R := fun _ => (Known.serving q).and (Traced _ _))
      (Triple.attempt (Keeps.attemptMany (fun k => ⟨Allows.and (Allows.serving rfl hq),
        Allows.and (Allows.serving rfl hq)⟩) fun k hk S hS => hS.2 k hk)) fun _ => ?_
    exact Triple.pure fun S hS => hS.1

-- =============================================================== credits

/-- The upsert of a monthly grant leaves a grant of the period. -/
theorem Triple.allocateMonthly {userId : Id} {subscriptionPeriodKey : String}
    {totalCredits : Int} {validFrom expiresAt : Time} (hq : q.ofClient = true) :
    Triple (contract cfg start) (Fresh q : Knows t)
      (allocateMonthly userId subscriptionPeriodKey totalCredits validFrom expiresAt)
      (fun _ => Known.serving q) (fun _ => Known.serving q) := by
  unfold Reports.allocateMonthly
  split
  next => exact Triple.throw fun _ h => h.1
  next =>
      refine Triple.bind (R := fun i => Drawn q i) (Triple.randomUUID
        fun S _ hS => Known.drew_drawn hS) fun id => ?_
      refine (Keeps.effect rfl (Allows.drew rfl hq) fun S _ => ?_).conseq (fun _ h => h)
        (fun _ _ h => h.1) fun _ _ h => h.1
      refine TxSafe.select fun S₁ _ _ => ?_
      split
      next => exact TxSafe.pure fun _ _ => Or.inl rfl
      next =>
          refine TxSafe.clock fun S₂ _ => TxSafe.upsertRow (fun S₃ _ hW₃ _ hnone hviol => ?_)
            fun S₃ x _ hW₃ hx => ?_
          · refine TxSafe.clock fun S₄ hS₄ => TxSafe.of_bind_pure (TxSafe.insertRow
              fun S₅ hS₅ hW₅ hnone₅ _ => TxSafe.pure fun S₆ hS₆ => ?_)
            exact Grants.of_insert ⟨rfl, rfl⟩ rfl rfl rfl rfl rfl rfl hnone hviol
              (hS₄.within.trans (hW₅.trans hS₆.within)) hnone₅ hS₆.within
          · obtain ⟨hmem, hperiod⟩ := (⟨List.mem_of_find?_eq_some hx, List.find?_some hx⟩ : _ ∧ _)
            cases x with
            | grant x =>
                simp only [onGrant, Bool.and_eq_true, decide_eq_true_eq] at hperiod
                refine TxSafe.clock fun S₄ hS₄ => TxSafe.of_bind_pure (TxSafe.insertRow
                  fun S₅ hS₅ hW₅ hnone₅ _ => TxSafe.pure fun S₆ hS₆ => ?_)
                exact Grants.of_update hperiod rfl rfl rfl rfl hmem
                  (hS₄.within.trans (hW₅.trans hS₆.within)) hnone₅ hS₆.within
            | _ => cases hperiod

/-- The command line's grant commits with the ids it has drawn. -/
theorem Triple.grantGenerationCredits {email : String} {amount : Nat} {requestKey : String}
    (hq : q.ofClient = true) :
    Triple (contract cfg start) (Fresh q : Knows t)
      (grantGenerationCredits cfg email amount requestKey)
      (fun _ => Known.serving q) (fun _ => Known.serving q) := by
  unfold Reports.grantGenerationCredits
  split
  next => exact Triple.throw fun _ h => h.1
  next =>
      have henabled : Triple (contract cfg start) (Fresh q : Knows t)
          (assertCreditGrantEnabled cfg) (fun _ => Fresh q) (fun _ => Known.serving q) := by
        unfold assertCreditGrantEnabled
        split
        next => exact Triple.throw fun _ h => h.1
        next =>
            split
            next => exact Triple.throw fun _ h => h.1
            next => exact Triple.pure fun _ h => h
      refine Triple.bind henabled fun _ => ?_
      have hread : ∀ S, Effect cfg t (.grantGenerationCredits requestKey) [] S :=
        fun _ => Or.inl rfl
      refine Triple.bind (R := fun _ => Fresh q) ((Keeps.read rfl (Allows.drew rfl hq)
        hread).conseq (fun _ h => h) (fun _ _ h => h) fun _ _ h => h.1) fun user => ?_
      split
      next => exact Triple.throw fun _ h => h.1
      next =>
          refine Triple.bind (R := fun i => Drawn q i) (Triple.randomUUID
            fun S _ hS => Known.drew_drawn hS) fun id => ?_
          refine (Keeps.effect rfl (Allows.drew rfl hq) fun S _ => ?_).conseq (fun _ h => h)
            (fun _ _ h => h.1) fun _ _ h => h.1
          refine TxSafe.select fun S₁ _ _ => ?_
          split
          next => exact TxSafe.pure fun _ _ => Or.inl rfl
          next =>
              refine TxSafe.clock fun S₂ _ => TxSafe.insertRow fun S₃ _ hW₃ hnone hviol => ?_
              refine TxSafe.clock fun S₄ hS₄ => TxSafe.of_bind_pure (TxSafe.insertRow
                fun S₅ hS₅ hW₅ hnone₅ _ => TxSafe.pure fun S₆ hS₆ => ?_)
              have hW := hS₄.within.trans (hW₅.trans hS₆.within)
              refine Grants.of_insert ⟨rfl, ?_⟩ rfl rfl rfl rfl rfl rfl hnone hviol hW hnone₅
                hS₆.within
              rw [grant?_eq_none]
              exact (Within.find?_of_write (w := .insert (Row.grant _)) hW).trans hnone

end FastRep.Reports
