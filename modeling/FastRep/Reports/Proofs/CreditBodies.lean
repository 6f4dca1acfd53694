/-
The transactions that move credits keep their promise.

A release reads the reservation and the entry that settles it without a
lock. What it commits is therefore tied to what was stored when it read:
the reservation it copies, or the settlement that left it nothing to do
(`GivenBack`). The grant it puts the credit back to is updated, and so locked.

There is one lemma for each of the three operations (`TxSafe.giveBack`,
`TxSafe.settle`, `TxEnds.draw`), and one for each transaction that calls them.
`reserve` runs at one moment, so the grant it draws on is usable then.
`main_credited` goes through the requests: a transaction of any other site
promises nothing (`Credited.free`), and `Reached.credited` is the soundness.
-/
import FastRep.Reports.Proofs.Reservations
import FastRep.Reports.Proofs.Starting
import FastRep.Reports.Proofs.Transactions

namespace FastRep.Reports

open FastRep.Txn

variable {cfg : Config} {C : RContract} {t : Tid} {s : Site} {S S' : RState}
  {ws : List (Write Row Key)} {g : Id}

-- ============================================================= vocabulary

/-- What a release adds to a commit, with what it read. -/
def GivenBack (generationId : Id) (ws : List (Write Row Key)) (S : RState) : Prop :=
  (ws = [] ∧ SettledSince S generationId) ∨
  ∃ (x : GenerationCreditGrant) (l : GenerationCreditTransaction),
    ws = [.update (.grant x), .insert (.ledger l)] ∧ Matches generationId l S

/-- What an entry matches in a state, it matches later. -/
theorem Matches.mono {l : GenerationCreditTransaction} (h : Matches g l S)
    (htr : S.trace <:+ S'.trace) : Matches g l S' :=
  Once.mono h htr

theorem SettledSince.mono (h : SettledSince S g) (htr : S.trace <:+ S'.trace) :
    SettledSince S' g := by
  obtain ⟨newer, e, older, he, hset, hseen⟩ := h
  obtain ⟨added, hadded⟩ := htr
  refine ⟨added ++ newer, e, older, ?_, hset, hseen⟩
  rw [← hadded, he, List.append_assoc]

theorem GivenBack.mono (h : GivenBack g ws S) (htr : S.trace <:+ S'.trace) :
    GivenBack g ws S' := by
  rcases h with ⟨hnil, hset⟩ | ⟨x, l, hws, hmatch⟩
  · exact Or.inl ⟨hnil, hset.mono htr⟩
  · exact Or.inr ⟨x, l, hws, hmatch.mono htr⟩

/-- The writes insert no ledger entry. -/
def NoEntry (ws : List (Write Row Key)) : Prop :=
  ∀ l, .insert (.ledger l) ∉ ws

/-- The release is the only part of the commit that adds an entry. -/
theorem GivenBack.givesBack {pre rel post : List (Write Row Key)} (h : GivenBack g rel S)
    (hpre : NoEntry pre) (hpost : NoEntry post) : GivesBack g (pre ++ rel ++ post) S := by
  rcases h with ⟨rfl, hset⟩ | ⟨x, l, rfl, hmatch⟩
  · refine ⟨fun l hl => ?_, fun _ _ => hset⟩
    rw [List.append_nil, List.mem_append] at hl
    exact absurd hl (not_or.mpr ⟨hpre l, hpost l⟩)
  · refine ⟨fun l' hl => ?_, fun _ hnone => ?_⟩
    · have hl' : l' = l := by
        simpa [hpre l', hpost l'] using hl
      rw [hl']
      exact hmatch
    · exact absurd (by simp) (hnone l)

theorem NoEntry.nil : NoEntry [] := by
  intro l hl
  cases hl

/-- Writes before that make no entry change nothing about what is given back.
-/
theorem GivenBack.givesBack_end {pre rel : List (Write Row Key)} (h : GivenBack g rel S)
    (hpre : NoEntry pre) : GivesBack g (pre ++ rel) S := by
  simpa using h.givesBack hpre NoEntry.nil

-- ================================================================ release

/-- `releaseInTransaction`, behind writes that leave the ledger alone, gives
the reserved credit back or finds it settled. -/
theorem TxSafe.giveBack {reason : String} (hws : OffLedger ws)
    (hseen : Once S fun d => (generation? d g).isSome = true) :
    TxSafe C t s (fun _ ws' S' => ∃ rel, ws' = ws ++ rel ∧ GivenBack g rel S')
      (releaseInTransaction g reason) ws S := by
  -- where nothing is written, nothing was left to release at the read
  have hidle : ∀ {S₁ : RState}, S.trace <:+ S₁.trace → Settled g (applyAll ws S₁.db) →
      TxSafe C t s (fun _ ws' S' => ∃ rel, ws' = ws ++ rel ∧ GivenBack g rel S')
        (Pure.pure () : InTransaction Unit) ws (S₁.ran t s []) := by
    intro S₁ htr hset
    apply TxSafe.pure
    intro S₂ hS₂
    refine ⟨[], by simp, Or.inl ⟨rfl, ?_⟩⟩
    have hsince : SettledSince (S₁.ran t s []) g := by
      refine ⟨[], ⟨t, .statement s, S₁.toScene⟩, S₁.trace, rfl, hws.settled hset, ?_⟩
      exact hseen.mono htr
    exact hsince.mono hS₂.rely.trace_suffix
  unfold releaseInTransaction findReservation findTerminal
  refine TxSafe.select fun S₁ hS₁ hW₁ => ?_
  split
  next hnone =>
      apply hidle hS₁.rely.trace_suffix
      refine Or.inl fun l hl => ?_
      rw [hnone] at hl
      cases hl
  next reservation hres =>
      split
      next hgrant =>
          apply hidle hS₁.rely.trace_suffix
          refine Or.inl fun l hl => ?_
          rw [hres] at hl
          cases hl
          exact hgrant
      next grantId hgrant =>
          have hread : Once (S₁.ran t s []) fun d =>
              ledger? d (.generation g .reserve) = some reservation := by
            apply Once.ran
            rw [← ledger?_congr (hws.find?_ledger _)]
            exact hres
          refine TxSafe.select fun S₂ hS₂ hW₂ => ?_
          split
          next hsome =>
              obtain ⟨l, hl⟩ := Option.isSome_iff_exists.mp hsome
              apply hidle ((hW₁.trans hS₂.within).trace_suffix)
              refine Or.inr ⟨l, List.mem_of_find?_eq_some hl, ?_⟩
              simpa using List.find?_some hl
          next =>
              refine TxSafe.updateOrThrow fun S₃ r hS₃ hW₃ hfind hviol => ?_
              rw [hws.find?_grant] at hfind
              obtain ⟨x, rfl, rfl⟩ := find?_grant hfind
              refine TxSafe.clock fun S₄ hS₄ => ?_
              refine TxSafe.of_bind_pure (TxSafe.insertRow fun S₅ hS₅ hW₅ _ _ => ?_)
              apply TxSafe.pure
              intro S₆ hS₆
              refine ⟨_, List.append_assoc _ _ _, Or.inr ⟨_, _, rfl, ?_⟩⟩
              have hlater := (hW₂.trans (hW₃.trans (hS₄.within.trans
                (hW₅.trans hS₆.within)))).trace_suffix
              refine (hread.mono hlater).imp fun d hd => ⟨reservation, hd, rfl, ?_⟩
              exact hgrant.symm

-- ================================================================ consume

/-- The entry a consumption adds names the user and the grant of the
reservation. -/
theorem TxSafe.settle (hws : OffLedger ws) (hnone : NoEntry ws) :
    TxSafe C t s (fun _ ws' S' => ∀ l, .insert (.ledger l) ∈ ws' → Matches g l S')
      (consumeInTransaction g) ws S := by
  unfold consumeInTransaction findReservation findTerminal
  refine TxSafe.select fun S₁ hS₁ hW₁ => ?_
  split
  next => exact TxSafe.throw _
  next reservation hres =>
      have hread : Once (S₁.ran t s []) fun d =>
          ledger? d (.generation g .reserve) = some reservation := by
        apply Once.ran
        rw [← ledger?_congr (hws.find?_ledger _)]
        exact hres
      refine TxSafe.select fun S₂ hS₂ hW₂ => ?_
      split
      next terminal _ =>
          split
          next => exact TxSafe.pure fun _ _ l hl => absurd hl (hnone l)
          next => exact TxSafe.throw _
      next =>
          refine TxSafe.clock fun S₃ hS₃ => ?_
          refine TxSafe.of_bind_pure (TxSafe.insertRow fun S₄ hS₄ hW₄ _ _ => ?_)
          apply TxSafe.pure
          intro S₅ hS₅ l hl
          have hlater := (hW₂.trans (hS₃.within.trans (hW₄.trans hS₅.within))).trace_suffix
          have hread' := hread.mono hlater
          rcases List.mem_append.mp hl with hl | hl
          · exact absurd hl (hnone l)
          · cases List.mem_singleton.mp hl
            exact hread'.imp fun d hd => ⟨reservation, hd, rfl, rfl⟩

-- ================================================================ reserve

section Reserve

variable {n : Nat} {d : Db Row} {userId : Id}

/-- Trying one grant after another draws on one of them. -/
theorem TxEnds.drawFrom (hnone : NoEntry ws) (candidates : List GenerationCreditGrant) :
    TxEnds n d (fun reserved ws' => (reserved = false → ws' = ws) ∧
        ∀ l, .insert (.ledger l) ∈ ws' →
          ∃ x ∈ candidates, l.grantId = some x.id ∧ l.userId = userId)
      (Reports.reserveFrom userId g candidates) ws := by
  induction candidates with
  | nil => exact ⟨fun _ => rfl, fun l hl => absurd hl (hnone l)⟩
  | cons grant rest ih =>
      unfold Reports.reserveFrom
      refine TxEnds.updateRow (fun _ => ?_) fun r _ _ _ => ?_
      · refine ih.mono fun reserved ws' h => ⟨h.1, fun l hl => ?_⟩
        obtain ⟨x, hx, hdraw⟩ := h.2 l hl
        exact ⟨x, List.mem_cons_of_mem _ hx, hdraw⟩
      · rw [if_neg (by simp)]
        refine TxEnds.clock (TxEnds.insertRow fun _ _ => TxEnds.pure ⟨by simp, fun l hl => ?_⟩)
        rcases List.mem_append.mp hl with hl | hl
        · rcases List.mem_append.mp hl with hl | hl
          · exact absurd hl (hnone l)
          · cases List.mem_singleton.mp hl
        · cases List.mem_singleton.mp hl
          exact ⟨grant, List.mem_cons_self, rfl, rfl⟩

/-- `reserve` makes its entry on a grant that is usable at that time. -/
theorem TxEnds.draw (hws : OffLedger ws) (hnone : NoEntry ws) :
    TxEnds n d (fun _ ws' => ∀ l, .insert (.ledger l) ∈ ws' →
        ∃ x, grant? d x.id = some x ∧ l.grantId = some x.id ∧ l.userId = userId ∧
          x.usable userId n = true)
      (Reports.reserve userId g) ws := by
  unfold Reports.reserve
  refine TxEnds.select ?_
  split
  next => exact TxEnds.pure fun l hl => absurd hl (hnone l)
  next =>
      refine TxEnds.clock (TxEnds.select ?_)
      refine TxEnds.bind (TxEnds.drawFrom hnone _) fun reserved ws' hdraw => ?_
      split
      next =>
          apply TxEnds.pure
          intro l hl
          obtain ⟨x, hx, hgrant, huser⟩ := hdraw.2 l hl
          obtain ⟨hmem, husable⟩ := mem_candidates.mp hx
          refine ⟨x, ?_, hgrant, huser, husable⟩
          rw [mem_grants, grant?_congr (hws.find?_grant _)] at hmem
          exact hmem
      next =>
          refine TxEnds.select (TxEnds.select ?_)
          split <;> exact TxEnds.throw _

end Reserve

-- ================================================================= grants

/-- An entry written last, at the time the clock says. -/
theorem TxSafe.lastEntry {f : Time → GenerationCreditTransaction} :
    TxSafe C t s (fun _ ws' _ => ∃ n, ws' = ws ++ [.insert (.ledger (f n))])
      (Tx.clock >>= fun n => insertRow (.ledger (f n))) ws S :=
  TxSafe.clock fun S₁ _ => TxSafe.of_bind_pure (TxSafe.insertRow fun _ _ _ _ _ =>
    TxSafe.pure fun _ _ => ⟨S₁.clock, rfl⟩)

/-- The only entry of writes that end in it. -/
theorem entry_of_grant {w : Write Row Key} {l l' : GenerationCreditTransaction}
    (hw : ∀ l, w ≠ .insert (.ledger l)) (h : .insert (.ledger l) ∈ [w, .insert (.ledger l')]) :
    l = l' := by
  rcases List.mem_cons.mp h with h | h
  · exact absurd h.symm (hw l)
  · simpa using h

-- ====================================================== the transactions

section Transactions

variable {start : RState}

/-- The contract of the promise alone. -/
abbrev crediting (cfg : Config) (start : RState) : RContract :=
  (app cfg).promising Credited start

/-- An update of a generation and its report makes no entry. -/
theorem NoEntry.generation_report (x : ReportGeneration) (r : Report) :
    NoEntry [.update (.generation x), .update (.report r)] := by
  intro l hl
  simp at hl

/-- A site that moves no credits promises nothing. -/
theorem Credited.free {β : Type} {i : Isolation} {body : Tx Row Error β}
    (hs : s.movesCredits = false) : (crediting cfg start).Honours β i s body := by
  apply Contract.Honours.of_forall
  intro t ws S
  cases s <;> first | exact trivial | cases hs

/-- A cancellation gives the credit back. -/
theorem Credited.cancel {userId reportId : Id} :
    (crediting cfg start).Honours _ .readCommitted (.cancel g)
      (cancelTransaction userId reportId g) := by
  intro t S _
  refine TxSafe.select fun S₁ hS₁ hW₁ => ?_
  split
  next => exact TxSafe.throw _
  next current hcurrent =>
      obtain ⟨hread, -⟩ := Option.filter_eq_some_iff.mp hcurrent
      have hseen : Once (S₁.ran t (.cancel g) []) fun d => (generation? d g).isSome = true := by
        apply Once.ran
        rw [show generation? S₁.db g = _ from hread]
        rfl
      refine TxSafe.clock fun S₂ hS₂ => ?_
      refine TxSafe.updateGeneration (by simp) (fun _ => rfl) (fun S₃ _ => TxSafe.throw _)
        fun S₃ x hW₃ hid hguard hpin => ?_
      refine TxSafe.updateReportOrThrow (by simp [Write.target, key]) (fun _ => rfl)
        fun S₄ r hW₄ hr => ?_
      refine TxSafe.bind (TxSafe.giveBack (OffLedger.generation_report _ _)
        (hseen.mono (hS₂.within.trans (hW₃.trans hW₄)).trace_suffix)) fun _ ws S₅ hW₅ hF => ?_
      obtain ⟨rel, rfl, hrel⟩ := hF
      refine TxSafe.selectOrThrow fun S₆ z hS₆ hW₆ _ => TxSafe.pure fun S₇ hS₇ => ?_
      exact (hrel.mono (hW₆.trans hS₇.within).trace_suffix).givesBack_end
        (NoEntry.generation_report _ _)

/-- A compensation gives the credit back. -/
theorem Credited.compensateQueueFailure :
    (compensateQueueFailure g).Transacts (crediting cfg start).Honours := by
  apply Prog.Transacts.transaction
  intro t S _
  refine TxSafe.select fun S₁ hS₁ hW₁ => ?_
  have hnil : ∀ {S' : RState}, TxSafe (crediting cfg start) t (.compensateQueueFailure g)
      (fun _ ws S'' => (crediting cfg start).commits t (.compensateQueueFailure g) ws S'')
      (Pure.pure () : InTransaction Unit) [] S' := by
    intro S'
    apply TxSafe.pure
    intro S'' _
    exact ⟨fun l hl => absurd hl (NoEntry.nil l), fun hne => absurd rfl hne⟩
  split
  next => exact hnil
  next x hx =>
      split
      next => exact hnil
      next =>
          have hid : x.id = g := generation?_id hx
          have hseen : Once (S₁.ran t (.compensateQueueFailure g) []) fun d =>
              (generation? d x.id).isSome = true := by
            apply Once.ran
            rw [hid, show generation? S₁.db g = _ from hx]
            rfl
          refine TxSafe.bind (TxSafe.giveBack OffLedger.nil hseen) fun _ ws S₂ hW₂ hF => ?_
          obtain ⟨rel, hws, hrel⟩ := hF
          cases hws
          rw [hid] at hrel
          -- the deletion changes entries, but adds none
          have hdelete : ∀ {S₃ : RState} {post : List (Write Row Key)},
              Within (crediting cfg start) t (.compensateQueueFailure g) S₂ S₃ → NoEntry post →
              TxSafe (crediting cfg start) t (.compensateQueueFailure g)
                (fun _ ws S'' => (crediting cfg start).commits t (.compensateQueueFailure g) ws S'')
                (deleteOrThrow (.generation x.id)) (rel ++ post) S₃ := by
            intro S₃ post hW₃ hpost
            refine TxSafe.of_bind_pure (TxSafe.deleteOrThrow fun S₄ r hS₄ hW₄ _ => ?_)
            apply TxSafe.pure
            intro S₅ hS₅
            rw [List.append_assoc]
            refine (hrel.mono (hW₃.trans (hW₄.trans hS₅.within)).trace_suffix).givesBack
              NoEntry.nil ?_
            intro l hl
            rcases List.mem_append.mp hl with hl | hl
            · exact hpost l hl
            · obtain ⟨_, _, _, h⟩ | ⟨_, _, _, _, h⟩ := Db.mem_deletion.mp hl <;> cases h
          refine TxSafe.updateRow (fun S₃ hS₃ hW₃ _ => ?_) fun S₃ r hS₃ hW₃ _ _ _ => ?_
          · rw [← List.append_nil rel]
            exact hdelete hW₃ NoEntry.nil
          · apply hdelete hW₃
            intro l hl
            cases List.mem_singleton.mp hl

/-- A failure gives the credit back. -/
theorem Credited.failGeneration {tok : Id} {errorCode message : String} :
    (failGeneration cfg g tok errorCode message).Transacts (crediting cfg start).Honours := by
  apply Prog.Transacts.transaction
  intro t S _
  have hnil : ∀ {S' : RState}, TxSafe (crediting cfg start) t (.failGeneration g tok)
      (fun _ ws S'' => (crediting cfg start).commits t (.failGeneration g tok) ws S'')
      (Pure.pure false : InTransaction Bool) [] S' := by
    intro S'
    apply TxSafe.pure
    intro S'' _
    exact ⟨fun l hl => absurd hl (NoEntry.nil l), fun hne => absurd rfl hne⟩
  refine TxSafe.clock fun S₀ _ => TxSafe.clock fun S₁ _ => ?_
  refine TxSafe.updateGeneration (by simp) (fun _ => rfl) (fun S₂ _ => hnil)
    fun S₂ x _ hid _ hpin => ?_
  refine TxSafe.readGeneration hid fun S₃ hW₃ => ?_
  refine TxSafe.selectOrThrow fun S₄ report hS₄ hW₄ _ => ?_
  have hseen : Once (S₄.ran t (.failGeneration g tok) []) fun d =>
      (generation? d g).isSome = true := by
    apply Once.ran
    rw [← hid, hpin S₄ (hW₃.trans hS₄.within)]
    rfl
  refine TxSafe.updateReportOrThrow (by simp [Write.target, key])
    (fun r => Report.failedAt_id ..) fun S₅ r hW₅ _ => ?_
  refine TxSafe.bind (TxSafe.giveBack (OffLedger.generation_report _ _)
    (hseen.mono hW₅.trace_suffix)) fun _ ws S₆ _ hF => ?_
  obtain ⟨rel, rfl, hrel⟩ := hF
  apply TxSafe.pure
  intro S₇ hS₇
  exact (hrel.mono hS₇.rely.trace_suffix).givesBack_end (NoEntry.generation_report _ _)

/-- A publication consumes the credit. -/
theorem Credited.finalizeSuccess {reportId userId tok size : Nat} {k : StorageKey} :
    (finalizeSuccess g reportId userId tok k size).Transacts (crediting cfg start).Honours := by
  apply Prog.Transacts.transaction
  intro t S _
  refine TxSafe.clock fun S₀ _ => TxSafe.select fun S₁ _ _ => ?_
  split
  next => exact TxSafe.throw _
  next =>
      refine TxSafe.clock fun S₂ _ => TxSafe.insertRow fun S₃ _ _ _ _ => ?_
      refine TxSafe.clock fun S₄ _ => ?_
      refine TxSafe.updateGeneration (by simp [Write.target, key]) (fun _ => rfl)
        (fun S₅ _ => TxSafe.throw _) fun S₅ x _ _ _ _ => ?_
      refine TxSafe.updateOwnedReport (by simp [Write.target, key]) (fun _ => rfl)
        fun S₆ r _ _ => ?_
      refine TxSafe.settle ?_ ?_
      · intro w hw
        simp only [List.nil_append, List.cons_append, List.mem_cons, List.not_mem_nil,
          or_false] at hw
        rcases hw with rfl | rfl | rfl <;> simp [Write.target, key]
      · intro l hl
        simp at hl

/-- A start draws on a usable grant. -/
theorem Credited.startTransaction {userId reportId : Id} {idempotencyKey : String} :
    (crediting cfg start).Honours _ .serializable (.start userId reportId idempotencyKey g)
      (startTransaction cfg userId reportId idempotencyKey g) := by
  intro t S _
  refine TxEnds.select ?_
  split
  next => exact TxEnds.pure fun l hl => absurd hl (NoEntry.nil l)
  next =>
      refine TxEnds.select ?_
      split
      next => exact TxEnds.throw _
      next report _ =>
          refine TxEnds.selectOrThrow fun user _ => TxEnds.select ?_
          repeat' split
          all_goals try exact TxEnds.throw _
          refine TxEnds.bind TxEnds.assertReportUnlocked fun _ ws hF => ?_
          cases hF.1
          refine TxEnds.bind TxEnds.validateSources fun _ ws hF => ?_
          cases hF.1
          refine TxEnds.bind TxEnds.enforceStartLimits fun _ ws hF => ?_
          cases hF.1
          refine TxEnds.clock (TxEnds.insertRow fun _ _ => ?_)
          refine TxEnds.bind (TxEnds.draw ?_ ?_) fun _ ws hdraw => ?_
          · simp [OffLedger, Write.target, key]
          · intro l hl
            simp at hl
          refine TxEnds.updateOrThrow fun r hr _ => TxEnds.selectOrThrow fun x _ => ?_
          apply TxEnds.pure
          intro l hl
          rcases List.mem_append.mp hl with hl | hl
          · exact hdraw l hl
          · cases List.mem_singleton.mp hl

/-- A monthly allocation grants credits to its user. -/
theorem Credited.allocateMonthly {userId : Id} {subscriptionPeriodKey : String}
    {totalCredits : Int} {validFrom expiresAt : Time} :
    (allocateMonthly userId subscriptionPeriodKey totalCredits validFrom expiresAt).Transacts
      (crediting cfg start).Honours := by
  unfold Reports.allocateMonthly
  split
  next => exact Prog.Transacts.throw
  next =>
      refine Prog.Transacts.bind Prog.Transacts.randomUUID fun i => ?_
      apply Prog.Transacts.transaction
      intro t S _
      refine TxSafe.select fun S₁ _ _ => ?_
      split
      next => exact TxSafe.pure fun _ _ l hl => absurd hl (NoEntry.nil l)
      next =>
          refine TxSafe.clock fun S₂ _ => TxSafe.upsertRow (fun S₃ _ _ _ _ _ => ?_)
            fun S₃ x _ _ _ => ?_
          · refine TxSafe.lastEntry.mono fun _ ws S' h l hl => ?_
            obtain ⟨n, rfl⟩ := h
            rw [entry_of_grant (by simp) hl]
          · refine TxSafe.lastEntry.mono fun _ ws S' h l hl => ?_
            obtain ⟨n, rfl⟩ := h
            rw [entry_of_grant (by simp) hl]

theorem Credited.grantGenerationCredits {email : String} {amount : Nat} {requestKey : String} :
    (grantGenerationCredits cfg email amount requestKey).Transacts
      (crediting cfg start).Honours := by
  unfold Reports.grantGenerationCredits
  split
  next => exact Prog.Transacts.throw
  next =>
      refine Prog.Transacts.bind ?_ fun _ => Prog.Transacts.bind ?_ fun user => ?_
      · unfold assertCreditGrantEnabled
        split
        next => exact Prog.Transacts.throw
        next =>
            split
            next => exact Prog.Transacts.throw
            next => exact Prog.Transacts.pure
      · apply Prog.Transacts.transaction
        intro t S _
        refine TxSafe.of_bind_pure (TxSafe.select fun S₁ _ _ => TxSafe.pure fun _ _ l x hl => ?_)
        exact absurd hl (NoEntry.nil l)
      · split
        next => exact Prog.Transacts.throw
        next userId _ =>
            refine Prog.Transacts.bind Prog.Transacts.randomUUID fun i => ?_
            apply Prog.Transacts.transaction
            intro t S _
            refine TxSafe.select fun S₁ _ _ => ?_
            split
            next => exact TxSafe.pure fun _ _ l x hl => absurd hl (NoEntry.nil l)
            next =>
                refine TxSafe.clock fun S₂ _ => TxSafe.insertRow fun S₃ _ _ _ _ => ?_
                refine TxSafe.lastEntry.mono fun _ ws S' h l x hl hx => ?_
                obtain ⟨n, rfl⟩ := h
                have hx' : x.userId = userId := by
                  rcases List.mem_append.mp hx with hx | hx
                  · rw [Row.grant.inj (Write.insert.inj (List.mem_singleton.mp hx))]
                  · cases Write.insert.inj (List.mem_singleton.mp hx)
                rw [entry_of_grant (by simp) hl, hx']

/-- Every transaction of a request keeps the promise about credits. -/
theorem main_credited (q : Req) : (main cfg q).Transacts (crediting cfg start).Honours := by
  apply main_transacts
  · intro β i s body hs
    exact Credited.free hs
  · exact fun _ _ _ _ _ _ => Credited.finalizeSuccess
  · exact fun _ _ _ _ => Credited.failGeneration
  · exact fun _ => Credited.compensateQueueFailure
  · exact fun _ _ _ _ => Credited.startTransaction
  · exact fun _ _ _ => Credited.cancel
  · exact fun _ _ _ _ _ => Credited.allocateMonthly
  · exact fun _ _ _ => Credited.grantGenerationCredits

end Transactions

/-- In every reached state every commit kept the promise about credits. -/
theorem Reached.credited {w : RWorld} (h : Reached cfg w) : w.shared.Keeps Credited := by
  obtain ⟨db, clock, nextId, -, hreach⟩ := h
  have hmain : ∀ q, ((app cfg).main q).Transacts (crediting cfg
      (World.init db ⟨[], [], []⟩ clock nextId : RWorld).shared).Honours := main_credited
  exact Reachable.keeps hmain hreach

end FastRep.Reports
