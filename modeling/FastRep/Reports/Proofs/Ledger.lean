/-
What the operations of `CreditsService` commit.

A read of the ledger is as good as its locks. The row of the grant is
locked by its update, the idempotency key and the terminal entry of the
generation are claimed by the insert, so all three hold at the commit
(`TxSafe.release`, `TxSafe.consume`). Where nothing is written the reads
are facts of the moment they were made in (`Once`, `Since`).

The operations run behind other writes of the same transaction, which are
`OffLedger`: what a query of the ledger sees through them is what is
committed. `NoTerminal.of_insert` is the step from the insert to the commit:
where the row of a settling entry could be inserted, none is stored, and none
gets stored as long as its unique entry is claimed.

`reserve` runs in a serializable transaction, where one moment is all there
is (`TxEnds.reserve`).
-/
import FastRep.Reports.Effects
import FastRep.Reports.Proofs.Lookups
import FastRep.Txn.Proofs.Serial

namespace FastRep.Reports

open FastRep.Txn

variable {C : RContract} {t : Tid} {s : Site} {S S' : RState}
  {ws : List (Write Row Key)} {g : Id} {d : Db Row}

-- ================================================================= once

theorem Once.mono {p : Db Row → Prop} (h : Once S p)
    (htr : S.trace <:+ S'.trace) : Once S' p := by
  obtain ⟨e, he, hp⟩ := h
  exact ⟨e, htr.subset he, hp⟩

/-- What a statement finds was true once. -/
theorem Once.ran {p : Db Row → Prop} {ls : List (Lock Key Index)} (h : p S.db) :
    Once (S.ran t s ls) p :=
  ⟨⟨t, .statement s, S.toScene⟩, List.mem_cons_self, h⟩

/-- What was seen was seen as anything weaker. -/
theorem Once.imp {p q : Db Row → Prop} (h : Once S p) (hpq : ∀ d, p d → q d) :
    Once S q := by
  obtain ⟨e, he, hp⟩ := h
  exact ⟨e, he, hpq _ hp⟩

/-- What a statement of a transaction found, with a fact that the
transaction keeps up from there. -/
theorem Since.ran {p q : Db Row → Prop} {ls : List (Lock Key Index)} (hp : p S.db)
    (hq : ∀ S', Within C t s S S' → q S'.db) (hls : ∀ l ∈ ls, S.free t l = true)
    (hW : Within C t s (S.ran t s ls) S') : Since S' q p := by
  obtain ⟨newer, htr, hall⟩ := hW.scenes
  refine ⟨newer, ⟨t, .statement s, S.toScene⟩, S.trace, htr, hp, fun e he => ?_⟩
  rcases List.mem_append.mp he with he | he
  · obtain ⟨S₁, hS₁, hscene⟩ := hall e he
    rw [← hscene]
    exact hq S₁ ((Within.ran hls).trans hS₁)
  · cases List.mem_singleton.mp he
    exact hq S Within.refl

-- =========================================================== the ledger

/-- Writes of neither grants nor ledger entries. -/
def OffLedger (ws : List (Write Row Key)) : Prop :=
  ∀ w ∈ ws, (∀ i, w.target ≠ .grant i) ∧ ∀ k, w.target ≠ .ledger k

theorem OffLedger.nil : OffLedger [] := by
  intro w hw
  cases hw

/-- Writes off the ledger leave the grants. -/
theorem OffLedger.find?_grant (h : OffLedger ws) (i : Id) :
    (applyAll ws d).find? (.grant i) = d.find? (.grant i) :=
  find?_applyAll_ne (fun w hw => (h w hw).1 i) d

theorem OffLedger.find?_ledger (h : OffLedger ws) (k : LedgerKey) :
    (applyAll ws d).find? (.ledger k) = d.find? (.ledger k) :=
  find?_applyAll_ne (fun w hw => (h w hw).2 k) d

theorem OffLedger.mem_ledger (h : OffLedger ws) {l : GenerationCreditTransaction} :
    l ∈ ledger (applyAll ws d) ↔ l ∈ ledger d := by
  rw [Reports.mem_ledger, Reports.mem_ledger, ledger?_congr (h.find?_ledger _)]

/-- A change of a grant keeps the entries out of reach. -/
theorem OffLedger.then_grant (h : OffLedger ws) (x : GenerationCreditGrant) :
    ∀ w ∈ ws ++ [.update (.grant x)], ∀ k, w.target ≠ Key.ledger k := by
  intro w hw k
  rcases List.mem_append.mp hw with hw | hw
  · exact (h w hw).2 k
  · cases List.mem_singleton.mp hw
    simp [Write.target, key]

/-- The grants and entries a view adds to are those committed. -/
theorem OffLedger.settled (h : OffLedger ws)
    (hset : Settled g (applyAll ws d)) : Settled g d := by
  rcases hset with hnone | ⟨l, hl, hlg⟩
  · refine Or.inl fun l hl => hnone l ?_
    rw [ledger?_congr (h.find?_ledger _)]
    exact hl
  · exact Or.inr ⟨l, h.mem_ledger.mp hl, hlg⟩

/-- A new entry that settles the generation claims its terminal index. -/
theorem GenerationCreditTransaction.IsEntry.terminal_index
    {l : GenerationCreditTransaction} {a : CreditAction}
    {type : GenerationCreditTransactionType} (h : l.IsEntry g a type)
    (hterm : type.terminal = true) : Index.terminalOf g ∈ Schema.indexes (Row.ledger l) := by
  show Index.terminalOf g ∈ l.indexes
  simp [GenerationCreditTransaction.indexes, h.generationId, h.type, hterm]

/-- Where the row of a settling entry could be inserted, no settled entry
is stored, and none gets stored before the commit. -/
theorem NoTerminal.of_insert {l : GenerationCreditTransaction} {a : CreditAction}
    {type : GenerationCreditTransactionType} {S'' : RState}
    (hl : l.IsEntry g a type) (hterm : type.terminal = true)
    (hws : ∀ w ∈ ws, ∀ k, w.target ≠ Key.ledger k)
    (hnone : (applyAll ws S'.db).find? (key (Row.ledger l)) = none)
    (hviol : (applyAll ws S'.db).violation (Row.ledger l) = none)
    (hW : Within C t s (S'.ran t s (Write.insert (Row.ledger l)).locks) S'') :
    NoTerminal g S''.db := by
  intro x hx hgen
  by_contra hxterm
  have hxindex : Index.terminalOf g ∈ Schema.indexes (Row.ledger x) := by
    show Index.terminalOf g ∈ x.indexes
    simp [GenerationCreditTransaction.indexes, hgen, Bool.eq_true_of_not_eq_false hxterm]
  have hstored : Row.ledger x ∈ S''.db.rows := by
    rw [Reports.mem_ledger] at hx
    exact Db.mem_of_find? (ledger?_eq_some.mp hx)
  exact hW.index_free (fun w hw => hws w hw _) hnone hviol (hl.terminal_index hterm)
    hstored hxindex

-- ============================================================== release

/-- `releaseInTransaction` puts a reserved credit back with its entry, or
finds that nothing is left to release. -/
theorem TxSafe.release {reason : String} (hws : OffLedger ws) :
    TxSafe C t s (fun _ ws' S' => ∃ rel, ws' = ws ++ rel ∧
      ∀ S'', Within C t s S' S'' → Releases g rel S'')
      (releaseInTransaction g reason) ws S := by
  -- where nothing is written, what was read was true once
  have hidle : ∀ {S₁ S₂ : RState}, Settled g (applyAll ws S₁.db) →
      (S₁.ran t s []).trace <:+ S₂.trace →
      TxSafe C t s (fun _ ws' S' => ∃ rel, ws' = ws ++ rel ∧
        ∀ S'', Within C t s S' S'' → Releases g rel S'')
        (Pure.pure () : InTransaction Unit) ws S₂ := by
    intro S₁ S₂ hset htr
    refine TxSafe.pure fun S₃ hS₃ => ⟨[], by simp, fun S₄ hW => Or.inl ⟨rfl, ?_⟩⟩
    exact (Once.ran (hws.settled hset)).mono
      ((htr.trans hS₃.rely.trace_suffix).trans hW.trace_suffix)
  unfold releaseInTransaction findReservation findTerminal
  refine TxSafe.select fun S₁ hS₁ hW₁ => ?_
  split
  next hnone =>
      exact hidle (Or.inl fun l hl => by rw [hnone] at hl; cases hl) (List.suffix_refl _)
  next reservation hres =>
      split
      next hgrant =>
          refine hidle (Or.inl fun l hl => ?_) (List.suffix_refl _)
          rw [hres] at hl
          cases hl
          exact hgrant
      next grantId hgrant =>
          refine TxSafe.select fun S₂ hS₂ hW₂ => ?_
          split
          next hsome =>
              obtain ⟨l, hl⟩ := Option.isSome_iff_exists.mp hsome
              refine hidle (Or.inr ⟨l, List.mem_of_find?_eq_some hl, ?_⟩)
                (List.suffix_refl _)
              simpa using List.find?_some hl
          next =>
              refine TxSafe.updateOrThrow fun S₃ r hS₃ hW₃ hfind hviol => ?_
              rw [hws.find?_grant] at hfind
              obtain ⟨x, rfl, rfl⟩ := find?_grant hfind
              refine TxSafe.clock fun S₄ hS₄ => ?_
              refine TxSafe.of_bind_pure (TxSafe.insertRow fun S₅ hS₅ hW₅ hnone hviol' => ?_)
              refine TxSafe.pure fun S₆ hS₆ => ⟨_, List.append_assoc _ _ _, fun S₇ hW₇ => ?_⟩
              -- from the two statements that write to the commit
              have hWi := hS₆.within.trans hW₇
              have hWu := hS₄.within.trans (hW₅.trans hWi)
              have hoff := hws.then_grant { x with remainingCredits := x.remainingCredits + 1 }
              refine Or.inr ⟨x, _, rfl, ?_, ?_, ⟨rfl, rfl, rfl, rfl⟩, rfl, ?_, ?_⟩
              · rw [grant?_eq_some]
                exact hWu.find?_of_write.trans hfind
              · have hcheck := (Db.violation_eq_none hviol).2.1
                simp only [setGrant, Schema.check, Bool.and_eq_true, decide_eq_true_eq] at hcheck
                exact hcheck.2
              · rw [ledger?_eq_none]
                exact (hWi.find?_of_view fun w hw => hoff w hw _).trans hnone
              · exact NoTerminal.of_insert ⟨rfl, rfl, rfl, rfl⟩ rfl hoff hnone hviol' hWi

-- ============================================================== consume

/-- The grant an entry refers to is stored when the entry is committed. -/
theorem Within.grant_of_insert {l : GenerationCreditTransaction} {S'' : RState}
    (hws : OffLedger ws)
    (hviol : (applyAll ws S'.db).violation (Row.ledger l) = none)
    (hW : Within C t s (S'.ran t s (Write.insert (Row.ledger l)).locks) S'') {i : Id}
    (hi : l.grantId = some i) : (grant? S''.db i).isSome = true := by
  have href : (Key.grant i, OnDelete.setNull) ∈ Schema.references (Row.ledger l) := by
    simp [Schema.references, hi]
  have hstored := (Db.violation_eq_none hviol).2.2 _ href
  rw [hws.find?_grant] at hstored
  have hlock : (t, Lock.share (Key.grant i)) ∈
      (S'.ran t s (Write.insert (Row.ledger l)).locks).locks := by
    refine List.mem_append_left _ (List.mem_map_of_mem ?_)
    exact List.mem_cons_of_mem _ (List.mem_append_right _ (List.mem_map.mpr ⟨_, href, rfl⟩))
  obtain ⟨r, hr⟩ := Option.isSome_iff_exists.mp (hW.isSome_of_share hlock hstored)
  obtain ⟨x, rfl, -⟩ := find?_grant hr
  rw [grant?_eq_some.mpr hr]
  rfl

/-- `consumeInTransaction` makes its entry, or finds it. -/
theorem TxSafe.consume (hws : OffLedger ws) :
    TxSafe C t s (fun _ ws' S' => ∃ rel, ws' = ws ++ rel ∧
      ∀ S'', Within C t s S' S'' → Consumes g rel S'')
      (consumeInTransaction g) ws S := by
  unfold consumeInTransaction findReservation findTerminal
  refine TxSafe.select fun S₁ hS₁ hW₁ => ?_
  split
  next => exact TxSafe.throw _
  next reservation hres =>
      refine TxSafe.select fun S₂ hS₂ hW₂ => ?_
      split
      next terminal hterminal =>
          split
          next hconsume =>
              refine TxSafe.pure fun S₃ hS₃ => ⟨[], by simp, fun S₄ hW => Or.inl ⟨rfl, ?_⟩⟩
              have hmem := hws.mem_ledger.mp (List.mem_of_find?_eq_some hterminal)
              have hcond := List.find?_some hterminal
              simp only [Bool.and_eq_true, decide_eq_true_eq] at hcond
              have honce : Once (S₂.ran t s []) fun d => ∃ l ∈ ledger d,
                  l.generationId = some g ∧ l.type = .consume :=
                Once.ran ⟨terminal, hmem, hcond.1, hconsume⟩
              exact honce.mono (hS₃.rely.trace_suffix.trans hW.trace_suffix)
          next => exact TxSafe.throw _
      next =>
          refine TxSafe.clock fun S₃ hS₃ => ?_
          refine TxSafe.of_bind_pure (TxSafe.insertRow fun S₄ hS₄ hW₄ hnone hviol => ?_)
          refine TxSafe.pure fun S₅ hS₅ => ⟨_, rfl, fun S₆ hW₆ => ?_⟩
          have hW := hS₅.within.trans hW₆
          refine Or.inr ⟨_, rfl, ⟨rfl, rfl, rfl, rfl⟩, ?_, ?_, ?_⟩
          · exact fun i hi => Within.grant_of_insert hws hviol hW hi
          · rw [ledger?_eq_none]
            exact (hW.find?_of_view fun w hw => (hws w hw).2 _).trans hnone
          · exact NoTerminal.of_insert ⟨rfl, rfl, rfl, rfl⟩ rfl
              (fun w hw => (hws w hw).2) hnone hviol hW

-- ============================================================== reserve

/-- Trying one grant after another: nothing is written before one is
drawn on. -/
theorem TxEnds.reserveFrom {n : Nat} {userId : Id} (hws : OffLedger ws)
    (candidates : List GenerationCreditGrant) :
    TxEnds n d (fun reserved ws' => (reserved = false ∧ ws' = ws) ∨
        ∃ rel, ws' = ws ++ rel ∧ Reserves g rel d)
      (reserveFrom userId g candidates) ws := by
  induction candidates with
  | nil => exact Or.inl ⟨rfl, rfl⟩
  | cons grant rest ih =>
      unfold Reports.reserveFrom
      refine TxEnds.updateRow (fun _ => ih) fun r hfind hp _ => ?_
      rw [hws.find?_grant] at hfind
      obtain ⟨x, rfl, hx⟩ := find?_grant hfind
      rw [if_neg (by simp)]
      refine TxEnds.clock (TxEnds.insertRow fun hnone _ => TxEnds.pure (Or.inr ?_))
      refine ⟨_, List.append_assoc _ _ _, Or.inr ⟨x, _, rfl, ?_, ?_, ⟨rfl, rfl, rfl, rfl⟩, ?_, ?_⟩⟩
      · rw [hx, grant?_eq_some]
        exact hfind
      · simpa [onGrant] using hp
      · rw [hx]
      · rw [ledger?_eq_none, ← hnone]
        exact (find?_applyAll_ne (fun w hw => hws.then_grant _ w hw _) d).symm

/-- `reserve` draws a credit with its entry, or finds the entry. -/
theorem TxEnds.reserve {n : Nat} {userId : Id} (hws : OffLedger ws) :
    TxEnds n d (fun _ ws' => ∃ rel, ws' = ws ++ rel ∧ Reserves g rel d)
      (reserve userId g) ws := by
  unfold Reports.reserve
  refine TxEnds.select ?_
  split
  next hsome =>
      rw [ledger?_congr (hws.find?_ledger _)] at hsome
      exact TxEnds.pure ⟨[], by simp, Or.inl ⟨rfl, hsome⟩⟩
  next =>
      refine TxEnds.clock (TxEnds.select ?_)
      refine TxEnds.bind (TxEnds.reserveFrom hws _) fun reserved ws' hres => ?_
      split
      next htrue =>
          refine TxEnds.pure (hres.resolve_left fun hfalse => ?_)
          rw [htrue] at hfalse
          cases hfalse.1
      next =>
          refine TxEnds.select (TxEnds.select ?_)
          split <;> exact TxEnds.throw _

-- ================================================================ grants

section Grants

variable {k : LedgerKey} {p : GenerationCreditGrant → Prop} {x : GenerationCreditGrant}
  {l : GenerationCreditTransaction}

/-- The GRANT entry of a new grant, from the two statements to the
commit. -/
theorem Grants.of_insert {S₁ S₂ S₃ : RState} (hp : p x) (hk : l.idempotencyKey = k)
    (hgen : l.generationId = none) (htype : l.type = .grant)
    (hid : l.grantId = some x.id) (hamount : l.amount = x.totalCredits)
    (hrem : x.remainingCredits = x.totalCredits)
    (hnew : S₁.db.find? (key (Row.grant x)) = none)
    (hviol : S₁.db.violation (Row.grant x) = none)
    (hW₁ : Within C t s (S₁.ran t s (Write.insert (Row.grant x)).locks) S₃)
    (hnone : (applyAll [.insert (.grant x)] S₂.db).find? (key (Row.ledger l)) = none)
    (hW₂ : Within C t s (S₂.ran t s (Write.insert (Row.ledger l)).locks) S₃) :
    Grants k p [.insert (.grant x), .insert (.ledger l)] S₃ := by
  have hoff : ∀ w ∈ [Write.insert (Row.grant x)], w.target ≠ key (Row.ledger l) := by
    intro w hw
    cases List.mem_singleton.mp hw
    simp [Write.target, key]
  refine Or.inr ⟨x, l, hp, hk, hgen, htype, hid, ?_, Or.inl ⟨rfl, ?_, ?_, hrem, hamount⟩⟩
  · rw [ledger?_eq_none, ← hk]
    exact (hW₂.find?_of_view hoff).trans hnone
  · rw [grant?_eq_none]
    exact hW₁.find?_of_write.trans hnew
  · have hcheck := (Db.violation_eq_none hviol).2.1
    simp only [Schema.check, Bool.and_eq_true, decide_eq_true_eq] at hcheck
    exact hcheck.1.1

/-- The GRANT entry of a grant that is already stored. -/
theorem Grants.of_update {S₁ S₂ S₃ : RState} (hp : p x) (hk : l.idempotencyKey = k)
    (hgen : l.generationId = none) (htype : l.type = .grant)
    (hid : l.grantId = some x.id) (hold : Row.grant x ∈ S₁.db.rows)
    (hW₁ : Within C t s (S₁.ran t s (Write.update (Row.grant x)).locks) S₃)
    (hnone : (applyAll [.update (.grant x)] S₂.db).find? (key (Row.ledger l)) = none)
    (hW₂ : Within C t s (S₂.ran t s (Write.insert (Row.ledger l)).locks) S₃) :
    Grants k p [.update (.grant x), .insert (.ledger l)] S₃ := by
  refine Or.inr ⟨x, l, hp, hk, hgen, htype, hid, ?_, Or.inr ⟨rfl, ?_⟩⟩
  · rw [ledger?_eq_none, ← hk]
    exact (hW₂.find?_of_view fun w hw => OffLedger.nil.then_grant x w hw _).trans hnone
  · rw [grant?_eq_some]
    exact hW₁.find?_of_write.trans (Db.find?_of_mem hold)

end Grants

end FastRep.Reports
