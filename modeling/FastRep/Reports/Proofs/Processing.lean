/-
What the transactions of a run commit.

Each begins with a guarded update or a read of the generation. The update
locks the row, so what its guard found holds until the commit; a read
does not, and the guard is asked again by the update that follows it.

`Pinned` is the first of the two: from the update on, the transaction sees the
generation as committed with its version. Each statement of a transaction has
its rule here in terms of generations and reports (`TxSafe.updateGeneration`,
`TxSafe.follows`), so the proofs of the five transactions read like their
source: a claim, a retry, a failure, a publication, and the fenced updates of
a run, which leave the lifecycle alone.

A commit that counts is known afterwards: after a claim the run may work on
its generation, and after an ending it may not.
-/
import FastRep.Reports.Proofs.Knowledge

namespace FastRep.Reports

open FastRep.Txn

variable {cfg : Config} {start : RState} {t : Tid} {s : Site} {C : RContract}
  {S S' : RState} {P : Knows t} {g tok : Id}

-- =================================================== rows of a lifecycle

/-- The row under a generation's key that passes a guard. -/
theorem generation_of_find? {d : Db Row} {r : Row} {p : ReportGeneration → Bool}
    (hfind : d.find? (.generation g) = some r) (hp : onGeneration p r = true) :
    ∃ x, r = .generation x ∧ generation? d g = some x ∧ p x = true := by
  obtain ⟨x, rfl, -⟩ := find?_generation hfind
  exact ⟨x, rfl, generation?_eq_some.mpr hfind, hp⟩

/-- A report that satisfies a condition on rows. -/
theorem report_of_find? {d : Db Row} {i : Id} {r : Row} {p : Report → Bool}
    (hfind : d.find? (.report i) = some r) (hp : onReport p r = true) :
    ∃ x, r = .report x ∧ report? d i = some x ∧ p x = true := by
  obtain ⟨x, rfl, -⟩ := find?_report hfind
  exact ⟨x, rfl, report?_eq_some.mpr hfind, hp⟩

/-- Until its end a transaction sees the generation as committed with this
version. -/
def Pinned (C : RContract) (t : Tid) (s : Site) (S : RState) (x : ReportGeneration) :
    Prop :=
  ∀ S', Within C t s S S' → generation? S'.db x.id = some x

/-- A pinned generation stays pinned while its transaction is open. -/
theorem Pinned.within {x : ReportGeneration} (h : Pinned C t s S x)
    (hW : Within C t s S S') : Pinned C t s S' x :=
  fun S'' hW' => h S'' (hW.trans hW')

/-- The view of a transaction that has changed one generation. -/
theorem generation?_view {d : Db Row} {y : ReportGeneration} :
    generation? (applyAll [.update (.generation y)] d) y.id = some y :=
  generation?_eq_some.mpr (Db.find?_put_self d (Row.generation y))

/-- A report is read behind an update of a generation. -/
theorem report?_view {d : Db Row} {y : ReportGeneration} {i : Id} :
    report? (applyAll [.update (.generation y)] d) i = report? d i :=
  report?_put_of_ne (by simp)

-- ============================================================= statements

section Statements

variable {β : Type} {F : β → List (Write Row Key) → RState → Prop}
  {ws : List (Write Row Key)}

/-- A guarded update of a generation not changed before. -/
theorem TxSafe.updateGeneration {p : ReportGeneration → Bool}
    {f : ReportGeneration → ReportGeneration} {k : Nat → InTransaction β}
    (hws : ∀ w ∈ ws, w.target ≠ Key.generation g) (hid : ∀ x, (f x).id = x.id)
    (h₀ : ∀ S', Within C t s S S' → TxSafe C t s F (k 0) ws S')
    (h₁ : ∀ S' x, Within C t s S S' → x.id = g → p x = true → Pinned C t s S' x →
      TxSafe C t s F (k 1) (ws ++ [.update (.generation (f x))]) S') :
    TxSafe C t s F
      (updateRow (.generation g) (onGeneration p) (setGeneration f) >>= k) ws S := by
  refine TxSafe.updateRow (fun S₁ _ hW₁ _ => h₀ _ hW₁) fun S₁ r _ hW₁ hfind hp _ => ?_
  rw [find?_applyAll_ne hws] at hfind
  obtain ⟨x, rfl, hx, hpx⟩ := generation_of_find? hfind hp
  have hxid := generation?_id hx
  refine h₁ _ x hW₁ hxid hpx fun S' hW => ?_
  rw [generation?_eq_some, ← hid x]
  refine (Within.find?_of_write (w := .update (Row.generation (f x))) hW).trans ?_
  show S₁.db.find? (Key.generation (f x).id) = _
  rw [hid, hxid]
  exact hfind

/-- A read of a generation the transaction has changed. -/
theorem TxSafe.readGeneration {y : ReportGeneration} {k : ReportGeneration → InTransaction β}
    (hid : y.id = g)
    (h : ∀ S', Within C t s S S' → TxSafe C t s F (k y) [.update (.generation y)] S') :
    TxSafe C t s F (selectOrThrow (fun d => generation? d g) >>= k)
      [.update (.generation y)] S := by
  subst hid
  refine TxSafe.selectOrThrow fun S₁ z _ hW₁ hz => ?_
  rw [generation?_view] at hz
  cases hz
  exact h _ hW₁

/-- A guarded update of a report not changed before. -/
theorem TxSafe.updateReport {i : Id} {p : Report → Bool} {f : Report → Report}
    {k : Nat → InTransaction β}
    (hws : ∀ w ∈ ws, w.target ≠ Key.report i) (hid : ∀ r, (f r).id = r.id)
    (h₀ : ∀ S₁, Within C t s S S₁ → (∀ r, report? S₁.db i = some r → p r = false) →
      TxSafe C t s F (k 0) ws (S₁.ran t s []))
    (h₁ : ∀ S' r, Within C t s S S' → p r = true →
      (∀ S'', Within C t s S' S'' → report? S''.db i = some r) →
      TxSafe C t s F (k 1) (ws ++ [.update (.report (f r))]) S') :
    TxSafe C t s F
      (updateRow (.report i) (onReport p) (setReport f) >>= k) ws S := by
  refine TxSafe.updateRow (fun S₁ hS₁ _ hnone => ?_) fun S₁ r _ hW₁ hfind hp _ => ?_
  · refine h₀ S₁ hS₁.within fun r hr => ?_
    rw [find?_applyAll_ne hws, report?_eq_some.mp hr, Option.filter_some] at hnone
    cases hpr : p r with
    | false => rfl
    | true => simp [onReport, hpr] at hnone
  · rw [find?_applyAll_ne hws] at hfind
    obtain ⟨x, rfl, hx, hpx⟩ := report_of_find? hfind hp
    refine h₁ _ x hW₁ hpx fun S' hW => ?_
    rw [report?_eq_some, ← report?_id hx, ← hid x]
    refine (Within.find?_of_write (w := .update (Row.report (f x))) hW).trans ?_
    show S₁.db.find? (Key.report (f x).id) = _
    rw [hid, report?_id hx]
    exact hfind

/-- An update of a report that must exist. -/
theorem TxSafe.updateReportOrThrow {i : Id} {f : Report → Report}
    {k : Unit → InTransaction β}
    (hws : ∀ w ∈ ws, w.target ≠ Key.report i) (hid : ∀ r, (f r).id = r.id)
    (h : ∀ S' r, Within C t s S S' →
      (∀ S'', Within C t s S' S'' → report? S''.db i = some r) →
      TxSafe C t s F (k ()) (ws ++ [.update (.report (f r))]) S') :
    TxSafe C t s F (updateOrThrow (.report i) (setReport f) >>= k) ws S := by
  refine TxSafe.updateOrThrow fun S₁ r _ hW₁ hfind _ => ?_
  rw [find?_applyAll_ne hws] at hfind
  obtain ⟨x, rfl, hx, -⟩ := report_of_find? (p := fun _ => true) hfind
    (by obtain ⟨x, rfl, -⟩ := find?_report hfind; rfl)
  refine h _ x hW₁ fun S' hW => ?_
  rw [report?_eq_some, ← report?_id hx, ← hid x]
  refine (Within.find?_of_write (w := .update (Row.report (f x))) hW).trans ?_
  show S₁.db.find? (Key.report (f x).id) = _
  rw [hid, report?_id hx]
  exact hfind

/-- The guarded change of the report's status that follows a change of
the generation. -/
theorem TxSafe.follows {x y : ReportGeneration} {p : Report → Bool}
    {status : ReportStatus} {b : β} (hpin : Pinned C t s S x)
    (hF : ∀ follow S', Within C t s S S' → Follows x p status follow S' →
      F b (.update (.generation y) :: follow) S') :
    TxSafe C t s F
      (updateRow (.report x.reportId) (onReport p)
        (setReport fun r => { r with status }) >>= fun _ => pure b)
      [.update (.generation y)] S := by
  refine TxSafe.updateReport (by simp [Write.target, key]) (fun _ => rfl)
    (fun S₁ hW₁ hnone => ?_) fun S₁ r hW₁ hp hr => ?_
  · refine TxSafe.pure fun S₂ hS₂ => hF [] S₂ (hW₁.trans ?_) (Or.inr ⟨rfl, ?_⟩)
    · exact (Within.ran (by simp)).trans hS₂.within
    · exact Since.ran (q := fun d => generation? d x.id = some x) hnone
        (fun S' hW => hpin S' (hW₁.trans hW)) (by simp) hS₂.within
  · refine TxSafe.pure fun S₂ hS₂ => hF [_] S₂ (hW₁.trans hS₂.within) ?_
    exact Or.inl ⟨r, hr S₂ hS₂.within, hp, rfl⟩

end Statements

-- ================================================================= claim

/-- A claim that succeeds has committed a change. -/
theorem Triple.claim {E : Error → Knows t} (hallow : Allows P (.claim g tok))
    (hserves : ∀ S, P.holds S → ∃ a m, S.asked t = [.process g a m])
    (hfail : ∀ e S, P.holds S → (E e).holds (S.rollback t (.claim g tok) e)) :
    Triple (contract cfg start) P (claim cfg g tok)
      (fun claimed => P.and (if claimed then .entry (fun e => e.tid = t ∧ ∃ ws,
        e.event = .commit (.claim g tok) ws ∧ ws ≠ []) else .top)) E := by
  refine Triple.bind Triple.clock fun now => Triple.transaction
    (F := fun claimed ws S' => Claims g tok ws S' ∧ (claimed = true → ws ≠ []))
    (fun S _ _ => ?_) (fun claimed ws S hP hF => ?_) hfail
  · refine TxSafe.updateGeneration (by simp) (fun _ => rfl)
      (fun S₁ _ => TxSafe.pure fun _ _ => ⟨Or.inl rfl, by simp⟩)
      fun S₁ x _ hid hclaim hpin => ?_
    refine TxSafe.readGeneration hid fun S₂ hW₂ => ?_
    refine TxSafe.follows (x := x) (hpin.within hW₂) fun follow S' hW hfollow => ?_
    refine ⟨Or.inr ⟨x, now, _, follow, ?_, hclaim, rfl, hfollow⟩, by simp⟩
    rw [← hid]
    exact hpin S' (hW₂.trans hW)
  · refine ⟨⟨⟨hF.1, hserves S hP⟩, hallow S hP⟩, P.lasts (Later.commit rfl) hP, ?_⟩
    split
    next hclaimed =>
        exact ⟨⟨t, .commit _ ws, S.toScene⟩, List.mem_cons_self, rfl, ws, rfl, hF.2 hclaimed⟩
    next => trivial

-- ======================================================== fenced updates

/-- What is held under a lease is owned. -/
theorem ownedBy_of_heldBy {x : ReportGeneration} {now : Time}
    (h : x.heldBy tok now = true) : x.ownedBy tok = true := by
  simp only [ReportGeneration.heldBy, Bool.and_eq_true] at h
  exact h.1

/-- A guarded update of a held generation that leaves the core alone. -/
theorem TxSafe.fenced {now : Time} {f : ReportGeneration → ReportGeneration}
    (hf : ∀ x, SameCore x (f x)) :
    TxSafe C t s (fun _ ws S' => Fenced g tok ws S')
      (updateRow (.generation g) (onGeneration (·.heldBy tok now)) (setGeneration f))
      [] S := by
  refine TxSafe.of_bind_pure (TxSafe.updateGeneration (by simp) (fun x => (hf x).id)
    (fun S₁ _ => TxSafe.pure fun _ _ => Or.inl rfl) fun S₁ x _ hid hheld hpin => ?_)
  refine TxSafe.pure fun S₂ hS₂ => Or.inr ⟨x, f x, [], ?_, ownedBy_of_heldBy hheld,
    hf x, Or.inl rfl, rfl⟩
  rw [← hid]
  exact hpin S₂ hS₂.within

/-- A report of progress keeps what is known of the run. -/
theorem Keeps.updateProgress {stage : ReportGenerationStage} {progress : Nat}
    (hallow : Allows P (.updateProgress g tok)) :
    Keeps (contract cfg start) P (updateProgress cfg g stage progress tok) := by
  refine Keeps.bind Keeps.clock fun now => Keeps.bind Keeps.clock fun leaseStart => ?_
  refine Keeps.bind (Keeps.effect rfl hallow fun S _ => TxSafe.fenced fun x =>
    ⟨rfl, rfl, rfl, rfl, rfl, rfl, rfl, rfl, rfl, rfl⟩) fun count => ?_
  split
  next => exact Keeps.throw
  next => exact Keeps.pure

theorem Keeps.renewLease (hallow : Allows P (.renewLease g tok)) :
    Keeps (contract cfg start) P (renewLease cfg g tok) := by
  refine Keeps.bind Keeps.clock fun now => Keeps.bind Keeps.clock fun leaseStart => ?_
  refine Keeps.bind (Keeps.effect rfl hallow fun S _ => TxSafe.fenced fun x =>
    ⟨rfl, rfl, rfl, rfl, rfl, rfl, rfl, rfl, rfl, rfl⟩) fun count => Keeps.pure

theorem Keeps.assertOwnership (hallow : Allows P (.renewLease g tok)) :
    Keeps (contract cfg start) P (assertOwnership cfg g tok) := by
  refine Keeps.bind (Keeps.renewLease hallow) fun renewed => ?_
  split
  next => exact Keeps.pure
  next => exact Keeps.throw

-- ================================================================ endings

/-- The commit of an ending counts: the run knows less after it. -/
theorem Triple.prepareRetry {R : Knows t} {errorCode : String} {E : Error → Knows t}
    (hallow : Allows P (.prepareRetry g tok))
    (hR : ∀ S ws, P.holds S → R.holds (S.commit t (.prepareRetry g tok) ws))
    (hfail : ∀ e S, P.holds S → (E e).holds (S.rollback t (.prepareRetry g tok) e)) :
    Triple (contract cfg start) P (prepareRetry g tok errorCode) (fun _ => R) E := by
  refine Triple.transaction (F := fun _ ws S' => Requeues g tok ws S')
    (fun S _ _ => ?_) (fun _ ws S hP hF => ⟨⟨hF, hallow S hP⟩, hR S ws hP⟩) hfail
  refine TxSafe.clock fun S₀ _ => ?_
  refine TxSafe.updateGeneration (by simp) (fun _ => rfl)
    (fun S₁ _ => TxSafe.pure fun _ _ => Or.inl rfl) fun S₁ x _ hid hheld hpin => ?_
  refine TxSafe.readGeneration hid fun S₂ hW₂ => ?_
  refine TxSafe.follows (x := x) (hpin.within hW₂) fun follow S' hW hfollow => ?_
  refine Or.inr ⟨x, errorCode, follow, ?_, ownedBy_of_heldBy hheld, rfl, hfollow⟩
  rw [← hid]
  exact hpin S' (hW₂.trans hW)

/-- A failed report is the same report. -/
theorem Report.failedAt_id (cfg : Config) (now : Time) (hasOutput : Bool)
    (r read : Report) : (r.failedAt cfg now hasOutput read).id = r.id := rfl

/-- A change of a generation changes no output. -/
theorem reportWithOutput_view {d : Db Row} {y : ReportGeneration} {i : Id} :
    reportWithOutput i (applyAll [.update (.generation y)] d) = reportWithOutput i d := by
  have hout : ∀ o, o ∈ outputs (applyAll [.update (.generation y)] d) ↔ o ∈ outputs d := by
    intro o
    rw [mem_outputs, mem_outputs]
    exact Eq.congr_left (output?_put_of_ne (by simp))
  have hany : (outputs (applyAll [.update (.generation y)] d)).any
      (fun o => o.reportId = i) = (outputs d).any fun o => o.reportId = i := by
    rw [Bool.eq_iff_iff, List.any_eq_true, List.any_eq_true]
    simp only [hout]
  rw [reportWithOutput, reportWithOutput, report?_view, hany]

/-- A change of a generation and its report leaves the ledger alone. -/
theorem OffLedger.generation_report (y : ReportGeneration) (r : Report) :
    OffLedger [.update (.generation y), .update (.report r)] := by
  intro w hw
  rcases List.mem_cons.mp hw with rfl | hw
  · simp [Write.target, key]
  · cases List.mem_singleton.mp hw
    simp [Write.target, key]

/-- A claim made before is no later than the present. -/
theorem ClaimedBefore.now (hstart : start.trace = []) (hS : Runs (contract cfg start) S)
    {now : Time} (h : ClaimedBefore S t g tok now) : ClaimedBefore S t g tok S.clock := by
  obtain ⟨e, he, ht, hev, -⟩ := h
  exact ⟨e, he, ht, hev, hS.clock_le hstart he⟩

/-- A failure that succeeds has committed a change, for the delivery in
progress. -/
theorem Triple.failGeneration {a m : Nat} {R : Knows t} {errorCode message : String}
    {E : Error → Knows t} (hstart : start.trace = [])
    (hallow : Allows P (.failGeneration g tok))
    (hlive : ∀ S, P.holds S → (t, Req.process g a m) ∈ S.live)
    (hclaim : ∀ S, P.holds S → ∃ now, ClaimedBefore S t g tok now)
    (hR : ∀ S ws, P.holds S → R.holds (S.commit t (.failGeneration g tok) ws))
    (hfail : ∀ e S, P.holds S → (E e).holds (S.rollback t (.failGeneration g tok) e)) :
    Triple (contract cfg start) P (failGeneration cfg g tok errorCode message)
      (fun failed => R.and (if failed then .entry (fun e => e.tid = t ∧
        (t, Req.process g a m) ∈ e.before.live ∧ ∃ tok ws,
          e.event = .commit (.failGeneration g tok) ws ∧ ws ≠ []) else .top)) E := by
  refine Triple.transaction
    (F := fun failed ws S' => Fails cfg t g tok ws S' ∧ (failed = true → ws ≠ []))
    (fun S hP _ => ?_) (fun failed ws S hP hF => ?_) hfail
  · refine TxSafe.clock fun S₀ hS₀ => TxSafe.clock fun S₁ hS₁ => ?_
    obtain ⟨now, hnow⟩ := hclaim S₀ (P.lasts hS₀.later hP)
    have hclaimed := hnow.now hstart hS₀.runs
    refine TxSafe.updateGeneration (by simp) (fun _ => rfl) (fun S₂ _ => TxSafe.pure
      fun _ _ => ⟨Or.inl rfl, by simp⟩) fun S₂ x hW₂ hid hheld hpin => ?_
    refine TxSafe.readGeneration hid fun S₃ hW₃ => ?_
    refine TxSafe.selectOrThrow fun S₄ report hS₄ hW₄ hreport => ?_
    have hpin₄ : ∀ S', Within (contract cfg start) t (.failGeneration g tok) S₄ S' →
        generation? S'.db g = some x := by
      intro S' hW
      rw [← hid]
      exact hpin S' (hW₃.trans (hS₄.within.trans hW))
    refine TxSafe.updateReportOrThrow (by simp [Write.target, key])
      (fun r => Report.failedAt_id ..) fun S₅ r hW₅ hr => ?_
    refine TxSafe.bind (TxSafe.release (OffLedger.generation_report _ _))
      fun _ ws S₆ hW₆ hF => ?_
    obtain ⟨credit, hws, hrel⟩ := hF
    refine TxSafe.pure fun S₇ hS₇ => ?_
    have hW := hW₆.trans hS₇.within
    have hran : Within (contract cfg start) t (.failGeneration g tok) S₄
        (S₄.ran t (.failGeneration g tok) []) := Within.ran (by simp)
    have hW₀ := hS₁.within.trans (hW₂.trans (hW₃.trans (hW₄.trans (hW₅.trans hW))))
    refine ⟨Or.inr ⟨x, r, errorCode, message, S₀.clock, report.1, report.2, credit,
      hpin₄ S₇ (hran.trans (hW₅.trans hW)), ownedBy_of_heldBy hheld, hr S₇ hW,
      Since.ran (reportWithOutput_view.symm.trans hreport) hpin₄ (by simp) (hW₅.trans hW),
      hclaimed.mono hW₀.trace_suffix, hW₀.clock_le, hws, hrel S₇ hS₇.within⟩, ?_⟩
    simp [hws]
  · refine ⟨⟨hF.1, hallow S hP⟩, hR S ws hP, ?_⟩
    split
    next hfailed =>
        exact ⟨⟨t, .commit _ ws, S.toScene⟩, List.mem_cons_self, rfl, hlive S hP, tok, ws,
          rfl, hF.2 hfailed⟩
    next => trivial

/-- The update of the user's own report, which must exist. -/
theorem TxSafe.updateOwnedReport {β : Type} {F : β → List (Write Row Key) → RState → Prop}
    {ws : List (Write Row Key)} {i : Id} {p : Report → Bool} {f : Report → Report}
    {k : Unit → InTransaction β} (hws : ∀ w ∈ ws, w.target ≠ Key.report i)
    (hid : ∀ r, (f r).id = r.id)
    (h : ∀ S' r, Within C t s S S' →
      (∀ S'', Within C t s S' S'' → report? S''.db i = some r) →
      TxSafe C t s F (k ()) (ws ++ [.update (.report (f r))]) S') :
    TxSafe C t s F (updateOwnedOrThrow (.report i) (onReport p) (setReport f) >>= k)
      ws S := by
  show TxSafe C t s F (updateRow (.report i) (onReport p) (setReport f) >>= fun count =>
    (if count = 1 then Pure.pure () else .throw (raise .recordNotFound)) >>= k) ws S
  exact TxSafe.updateReport hws hid (fun _ _ _ => TxSafe.throw _)
    fun S₁ r hW₁ _ hr => h S₁ r hW₁ hr

/-- A publication has committed the output under the key of its run. -/
theorem Triple.finalizeSuccess {a m reportId userId size : Nat} {R : Knows t}
    (hallow : Allows P (.finalizeSuccess g tok))
    (hlive : ∀ S, P.holds S → (t, Req.process g a m) ∈ S.live)
    (hload : ∀ S, P.holds S → Once S fun d =>
      ∃ y, generation? d g = some y ∧ y.reportId = reportId)
    (hR : ∀ S ws, P.holds S → R.holds (S.commit t (.finalizeSuccess g tok) ws)) :
    Triple (contract cfg start) P
      (finalizeSuccess g reportId userId tok (.output userId reportId g tok) size)
      (fun _ => R.and (.entry fun e => e.tid = t ∧ (t, Req.process g a m) ∈ e.before.live ∧
        ∃ ws o, e.event = .commit (.finalizeSuccess g tok) ws ∧ .insert (.output o) ∈ ws ∧
          o.storageKey = .output userId reportId g tok))
      (fun _ => P) := by
  refine Triple.transaction (F := fun _ ws S' => P.holds S' → Finalizes g tok ws S' ∧
      ∃ o, .insert (.output o) ∈ ws ∧ o.storageKey = .output userId reportId g tok)
    (fun S _ _ => ?_) (fun _ ws S hP hF => ?_) fun _ _ hP => P.lasts Later.rollback hP
  · refine TxSafe.clock fun S₀ _ => TxSafe.select fun S₁ _ _ => ?_
    split
    next => exact TxSafe.throw _
    next =>
        refine TxSafe.clock fun S₂ _ => TxSafe.insertRow fun S₃ _ hW₃ hnone hviol => ?_
        refine TxSafe.clock fun S₄ hS₄ => ?_
        refine TxSafe.updateGeneration (by simp [Write.target, key]) (fun _ => rfl)
          (fun S₅ _ => TxSafe.throw _) fun S₅ x hW₅ hid hown hpin => ?_
        simp only [Bool.and_eq_true] at hown
        refine TxSafe.updateOwnedReport (by simp [Write.target, key]) (fun _ => rfl)
          fun S₆ r hW₆ hr => ?_
        refine TxSafe.of_bind_pure (TxSafe.bind (TxSafe.consume ?_)
          fun _ ws S₇ hW₇ hF => TxSafe.pure fun S₈ hS₈ hP => ?_)
        · intro w hw
          simp only [List.nil_append, List.cons_append, List.mem_cons, List.not_mem_nil,
            or_false] at hw
          rcases hw with rfl | rfl | rfl <;> simp [Write.target, key]
        · obtain ⟨credit, hws, hcons⟩ := hF
          have hW₈ := hW₇.trans hS₈.within
          have hWo := hS₄.within.trans (hW₅.trans (hW₆.trans hW₈))
          have hrid := report?_id (hr S₈ hW₈)
          refine ⟨⟨x, r, _, _, credit, ?_, hown.2, hrid ▸ hr S₈ hW₈, rfl, hrid.symm,
            ⟨userId, hrid ▸ rfl⟩, ?_, fun o' ho' hrep => ?_, hrid ▸ hload S₈ hP, hws,
            hcons S₈ hS₈.within⟩, ?_⟩
          · rw [← hid]
            exact hpin S₈ (hW₆.trans hW₈)
          · rw [output?_eq_none]
            exact hWo.find?_of_write.trans hnone
          · rw [mem_outputs, output?_eq_some] at ho'
            refine hWo.index_free (i := .outputReport reportId) (by simp) hnone hviol
              List.mem_cons_self (Db.mem_of_find? ho') ?_
            rw [← hrid, ← hrep]
            exact List.mem_cons_self
          · rw [hws]
            exact ⟨_, List.mem_cons_self, rfl⟩
  · obtain ⟨hfin, o, ho, hkey⟩ := hF hP
    refine ⟨⟨hfin, hallow S hP⟩, hR S ws hP, ?_⟩
    exact ⟨⟨t, .commit _ ws, S.toScene⟩, List.mem_cons_self, rfl, hlive S hP, ws, o, rfl, ho,
      hkey⟩

end FastRep.Reports
