/-
The balance of a grant, counted in its ledger entries.

`Balanced` counts jobs; the ledger has rows. A RESERVE row of a grant is a
job with a reservation of it, and a RELEASE row is one of these that gave
its credit back, so the two counts agree (`Honest.length_reserve`,
`Honest.length_release`).

Two facts make rows and jobs the same. Every entry of a type other than GRANT
stands under a key of a generation, as the action of its type, and no two
entries share a key (`Honest.key_of_type`, `nodup_entriesOf`). And a stored
grant has one GRANT entry, of all its credits (`Honest.opened`): a monthly one
under the key of its period, so that it is not made again.
-/
import FastRep.Reports.Proofs.CreditBooks
import Mathlib.Data.Set.Card

namespace FastRep.Reports

open FastRep.Txn FastRep.Accounts

variable {cfg : Config} {start S : RState} {d : Db Row} {g i : Id}

-- =========================================================== grant entries

/-- Entries under the keys of no generation grant credits. -/
theorem Honest.granting (hstart : Begins start) (h : Honest cfg start S) :
    ∀ k l, posting? S.db k = some l → (∀ g a, k ≠ .generation g a) → l.type = .grant := by
  refine h.invariant (I := fun S => ∀ k l, posting? S.db k = some l →
    (∀ g a, k ≠ .generation g a) → l.type = .grant) ?_ ?_ ?_
  · intro k l hl
    rw [posting?, hstart.ledger?_eq_none] at hl
    cases hl
  · intro t s ws credit S _ ih _ _ hmove hidle k l hl hk
    change posting? (applyAll ws S.db) k = _ at hl
    rw [hidle.posting?_eq, posting?] at hl
    rcases hmove.ledger_cases k with hsame | ⟨l₁, hl₁, hkey, -, hmem⟩
    · rw [hsame] at hl
      exact ih k l hl hk
    · rw [hl₁] at hl
      cases hl
      cases hmove with
      | granted _ _ _ _ htype _ _ _ _ _ _ _ =>
          rw [entry_of_grant (by simp) hmem]
          exact htype
      | entered _ htype _ _ _ _ _ _ =>
          rw [entry_of_grant (by simp) hmem]
          exact htype
      | reserved _ _ _ _ hentry _ _ _ =>
          rw [entry_of_grant (by simp) hmem, hentry.idempotencyKey] at hkey
          exact absurd hkey.symm (hk _ _)
      | consumed _ hentry _ _ _ =>
          rw [entry_of_one hmem, hentry.idempotencyKey] at hkey
          exact absurd hkey.symm (hk _ _)
      | released _ _ _ _ _ hentry _ _ _ _ =>
          rw [entry_of_grant (by simp) hmem, hentry.idempotencyKey] at hkey
          exact absurd hkey.symm (hk _ _)
      | _ => cases hmem
  · intro j S S' ih _ hdb
    rw [hdb]
    exact ih

/-- A grant that is stored after a commit was stored before, or is granted
by it. -/
theorem CreditMove.grant_after {s : Site} {ws credit : List (Write Row Key)} {d' : Db Row}
    (h : CreditMove S s ws credit) (hidle : Idle (applyAll credit S.db) d')
    {y : GenerationCreditGrant} (hy : grant? d' i = some y) :
    (∃ x n, grant? S.db i = some x ∧ y = { x with remainingCredits := n }) ∨
      (grant? S.db i = none ∧ y.id = i ∧
        ∃ l, credit = [.insert (.grant y), .insert (.ledger l)]) := by
  cases hx : grant? S.db i with
  | some x =>
      obtain ⟨n, hn⟩ := h.grant_kept hidle hx
      rw [hn] at hy
      cases hy
      exact Or.inl ⟨x, n, rfl, rfl⟩
  | none =>
      refine Or.inr ⟨rfl, grant?_id hy, ?_⟩
      rw [hidle.grant] at hy
      have hother : ∀ (z z' : GenerationCreditGrant), grant? S.db z.id = some z' →
          (if z.id = i then some z else grant? S.db i) = some y → False := by
        intro z z' hz hif
        by_cases hi : z.id = i
        · rw [hi, hx] at hz
          cases hz
        · rw [if_neg hi, hx] at hif
          cases hif
      cases h with
      | @granted _ _ z l =>
          rw [grant?_granted] at hy
          by_cases hi : z.id = i
          · rw [if_pos hi] at hy
            cases hy
            exact ⟨l, rfl⟩
          · rw [if_neg hi, hx] at hy
            cases hy
      | entered hz _ _ _ _ _ _ _ =>
          rw [grant?_drawn] at hy
          exact (hother _ _ hz hy).elim
      | @reserved _ _ _ _ _ z _ _ hz =>
          rw [grant?_drawn] at hy
          exact (hother { z with remainingCredits := z.remainingCredits - 1 } z hz hy).elim
      | consumed _ _ _ _ _ =>
          rw [grant?_entered, hx] at hy
          cases hy
      | @released _ _ _ z _ _ _ _ hz =>
          rw [grant?_drawn] at hy
          exact (hother { z with remainingCredits := z.remainingCredits + 1 } z hz hy).elim
      | _ =>
          rw [show grant? S.db i = _ from hy] at hx
          cases hx

/-- Every entry with a grant refers to a stored one. -/
theorem Honest.refers (hstart : Begins start) (h : Honest cfg start S) :
    ∀ k l i, posting? S.db k = some l → l.grantId = some i → (grant? S.db i).isSome = true := by
  refine h.invariant (I := fun S => ∀ k l i, posting? S.db k = some l → l.grantId = some i →
    (grant? S.db i).isSome = true) ?_ ?_ ?_
  · intro k l i hl
    rw [posting?, hstart.ledger?_eq_none] at hl
    cases hl
  · intro t s ws credit S hS ih heff hm hmove hidle k l i hl hi
    have hkept : (grant? S.db i).isSome = true → (grant? (applyAll ws S.db) i).isSome = true := by
      intro hsome
      obtain ⟨x, hx⟩ := Option.isSome_iff_exists.mp hsome
      obtain ⟨n, hn⟩ := hmove.grant_kept hidle hx
      rw [hn]
      rfl
    have hl₀ := hl
    change posting? (applyAll ws S.db) k = _ at hl
    rw [hidle.posting?_eq, posting?] at hl
    rcases hmove.ledger_cases k with hsame | ⟨l₁, hl₁, hkey, -, hmem⟩
    · rw [hsame] at hl
      exact hkept (ih k l i hl hi)
    · rw [hl₁] at hl
      cases hl
      change l₁.grantId = some i at hi
      cases hmove with
      | granted _ _ _ _ _ _ hgrant _ _ _ _ _ =>
          rw [entry_of_grant (by simp) hmem, hgrant] at hi
          cases hi
          show (grant? (applyAll ws S.db) _).isSome = true
          rw [hidle.grant, grant?_granted, if_pos rfl]
          rfl
      | entered hx _ _ hgrant _ _ _ _ =>
          rw [entry_of_grant (by simp) hmem, hgrant] at hi
          cases hi
          exact hkept (by rw [hx]; rfl)
      | reserved _ hx _ _ _ hgrant _ _ =>
          rw [entry_of_grant (by simp) hmem, hgrant] at hi
          cases hi
          exact hkept (by rw [hx]; rfl)
      | consumed _ _ hmatch _ _ =>
          obtain ⟨e, he, r, hr, -, hsame⟩ := hmatch
          have hread := hS.entry_kept hstart he (posting?_eq_some.mpr ⟨r, hr, rfl⟩)
          obtain ⟨j, x, hj, hx, -⟩ := hS.drawn hstart _ _ hread
          rw [entry_of_one hmem, hsame, show r.grantId = _ from hj] at hi
          cases hi
          exact hkept (by rw [hx]; rfl)
      | released _ _ _ hx _ _ hgrant _ _ _ =>
          rw [entry_of_grant (by simp) hmem, hgrant] at hi
          cases hi
          exact hkept (by rw [hx]; rfl)
      | _ => cases hmem
  · intro j S S' ih _ hdb
    rw [hdb]
    exact ih

/-- A stored grant has one GRANT entry, of all its credits. A monthly one
has it under the key of its period, so no second one is entered. -/
theorem Honest.opened (hstart : Begins start) (h : Honest cfg start S) :
    ∀ i x, grant? S.db i = some x → ∃ k l, posting? S.db k = some l ∧ l.type = .grant ∧
      l.grantId = some i ∧ l.amount = x.totalCredits ∧ l.userId = x.userId ∧
      (∀ p, x.subscriptionPeriodKey = some p → k = .subscriptionPeriod x.userId p) ∧
      ∀ k' l', posting? S.db k' = some l' → l'.type = .grant → l'.grantId = some i → k' = k := by
  refine h.invariant (I := fun S => ∀ i x, grant? S.db i = some x → ∃ k l,
    posting? S.db k = some l ∧ l.type = .grant ∧ l.grantId = some i ∧ l.amount = x.totalCredits ∧
      l.userId = x.userId ∧
      (∀ p, x.subscriptionPeriodKey = some p → k = .subscriptionPeriod x.userId p) ∧
      ∀ k' l', posting? S.db k' = some l' → l'.type = .grant → l'.grantId = some i → k' = k)
    ?_ ?_ ?_
  · intro i x hx
    rw [hstart.grant?_eq_none] at hx
    cases hx
  · intro t s ws credit S hS ih _ _ hmove hidle i y hy
    change grant? (applyAll ws S.db) i = some y at hy
    rcases hmove.grant_after hidle hy with ⟨x, n, hx, rfl⟩ | ⟨hnone, rfl, l, rfl⟩
    · obtain ⟨k, l, hl, htype, hgrant, hamount, huser, hperiod, hone⟩ := ih i x hx
      refine ⟨k, l, hmove.entry_kept hidle hl, htype, hgrant, hamount, huser, hperiod, ?_⟩
      intro k' l' hl' htype' hgrant'
      change posting? (applyAll ws S.db) k' = _ at hl'
      rw [hidle.posting?_eq, posting?] at hl'
      rcases hmove.ledger_cases k' with hsame | ⟨l₁, hl₁, hkey, hnew, hmem⟩
      · rw [hsame] at hl'
        exact hone k' l' hl' htype' hgrant'
      rw [hl₁] at hl'
      cases hl'
      change l₁.type = .grant at htype'
      change l₁.grantId = some i at hgrant'
      cases hmove with
      | granted _ hnone _ _ _ _ hof _ _ _ _ _ =>
          rw [entry_of_grant (by simp) hmem, hof] at hgrant'
          cases hgrant'
          rw [hnone] at hx
          cases hx
      | @entered u p _ z _ hz _ _ hof hzuser hzperiod hzkey hznone =>
          rw [entry_of_grant (by simp) hmem, hof] at hgrant'
          cases hgrant'
          rw [hz] at hx
          cases hx
          -- the period of a stored grant has its entry
          rw [hperiod p hzperiod, hzuser, ← hzkey, posting?, hznone] at hl
          cases hl
      | reserved _ _ _ _ hentry _ _ _ =>
          rw [entry_of_grant (by simp) hmem, hentry.type] at htype'
          cases htype'
      | consumed _ hentry _ _ _ =>
          rw [entry_of_one hmem, hentry.type] at htype'
          cases htype'
      | released _ _ _ _ _ hentry _ _ _ _ =>
          rw [entry_of_grant (by simp) hmem, hentry.type] at htype'
          cases htype'
      | _ => cases hmem
    · have hledger : ∀ k, posting? (applyAll ws S.db) k
          = if l.idempotencyKey = k then some l.unlinked else posting? S.db k := by
        intro k
        rw [hidle.posting?_eq, posting?, ledger?_granted]
        by_cases hk : l.idempotencyKey = k
        · rw [if_pos hk, if_pos hk]
          rfl
        · rw [if_neg hk, if_neg hk]
          rfl
      cases hmove with
      | granted _ _ _ _ htype _ hof hamount huser _ hperiod _ =>
          refine ⟨l.idempotencyKey, l.unlinked, (hledger _).trans (if_pos rfl), htype, hof, hamount,
            huser, hperiod, ?_⟩
          intro k' l' hl' _ hof'
          by_contra hk
          change posting? (applyAll ws S.db) k' = _ at hl'
          rw [hledger, if_neg (Ne.symm hk)] at hl'
          have hstored := hS.refers hstart k' l' _ hl' hof'
          rw [hnone] at hstored
          cases hstored
  · intro j S S' ih _ hdb
    rw [hdb]
    exact ih

-- ================================================================ counting

/-- No two entries have the same key. -/
theorem nodup_ledger (d : Db Row) : ((ledger d).map (·.idempotencyKey)).Nodup := by
  refine nodup_table (k := Key.ledger) ?_ d
  intro r x hr
  split at hr
  next r => cases hr; rfl
  next => cases hr

theorem nodup_entriesOf (type : GenerationCreditTransactionType) (i : Id) (d : Db Row) :
    (entriesOf type i d).Nodup :=
  (List.Nodup.of_map _ (nodup_ledger d)).filter _

/-- The entries of a type on a grant, as rows. -/
theorem mem_entriesOf {type : GenerationCreditTransactionType} {l : GenerationCreditTransaction} :
    l ∈ entriesOf type i d ↔
      ledger? d l.idempotencyKey = some l ∧ l.type = type ∧ l.grantId = some i := by
  simp [entriesOf, mem_ledger]

/-- Entries of a type on a grant that all stand under keys of the jobs are
as many as these jobs. -/
theorem length_entriesOf {type : GenerationCreditTransactionType} {a : CreditAction}
    {jobs : Set Id}
    (hkey : ∀ l ∈ entriesOf type i d, ∃ g, l.idempotencyKey = .generation g a)
    (hjobs : ∀ g, g ∈ jobs ↔ ∃ l ∈ entriesOf type i d, l.idempotencyKey = .generation g a) :
    (entriesOf type i d).length = jobs.ncard := by
  -- both are as many as the keys
  have hkeys : (fun l : GenerationCreditTransaction => l.idempotencyKey) ''
      {l | l ∈ entriesOf type i d} = (fun g => LedgerKey.generation g a) '' jobs := by
    ext k
    constructor
    · rintro ⟨l, hl, rfl⟩
      obtain ⟨g, hg⟩ := hkey l hl
      exact ⟨g, (hjobs g).mpr ⟨l, hl, hg⟩, hg.symm⟩
    · rintro ⟨g, hg, rfl⟩
      obtain ⟨l, hl, hk⟩ := (hjobs g).mp hg
      exact ⟨l, hl, hk⟩
  have hentries : Set.InjOn (fun l : GenerationCreditTransaction => l.idempotencyKey)
      {l | l ∈ entriesOf type i d} := by
    intro l hl l' hl' heq
    have hl₁ := (mem_entriesOf.mp hl).1
    have hl₂ := (mem_entriesOf.mp hl').1
    rw [show l.idempotencyKey = l'.idempotencyKey from heq, hl₂] at hl₁
    exact (Option.some.inj hl₁).symm
  have hinj : Function.Injective (fun g => LedgerKey.generation g a) := by
    intro g g' heq
    cases heq
    rfl
  calc (entriesOf type i d).length
      = (entriesOf type i d).toFinset.card :=
        (List.toFinset_card_of_nodup (nodup_entriesOf type i d)).symm
    _ = Set.ncard {l | l ∈ entriesOf type i d} := by
        rw [← Set.ncard_coe_finset]
        congr 1
        ext l
        simp
    _ = ((fun l : GenerationCreditTransaction => l.idempotencyKey) ''
          {l | l ∈ entriesOf type i d}).ncard := hentries.ncard_image.symm
    _ = jobs.ncard := by rw [hkeys, Set.ncard_image_of_injective jobs hinj]

/-- An entry of a type other than GRANT stands under a key of a generation,
as the action of the type. -/
theorem Honest.key_of_type (hstart : Begins start) (h : Honest cfg start S) {a : CreditAction}
    {l : GenerationCreditTransaction} (hl : ledger? S.db l.idempotencyKey = some l)
    (htype : l.type = a.type) : ∃ g, l.idempotencyKey = .generation g a := by
  by_cases hkey : ∃ g b, l.idempotencyKey = .generation g b
  · obtain ⟨g, b, hkey⟩ := hkey
    rw [hkey] at hl
    have hsame := (h.typed hstart g b l hl).1
    rw [htype] at hsame
    refine ⟨g, hkey.trans ?_⟩
    cases a <;> cases b <;> first | rfl | cases hsame
  · have hgrant := h.granting hstart l.idempotencyKey l.unlinked
      (posting?_eq_some.mpr ⟨l, hl, rfl⟩) fun g b heq => hkey ⟨g, b, heq⟩
    rw [show l.unlinked.type = l.type from rfl, htype] at hgrant
    cases a <;> cases hgrant

/-- The RESERVE entries of a grant are its jobs. -/
theorem Honest.length_reserve (hstart : Begins start) (h : Honest cfg start S) (i : Id) :
    (entriesOf .reserve i S.db).length = {g | (books S.db).reserved g = some i}.ncard := by
  refine length_entriesOf (a := .reserve) ?_ ?_
  · intro l hl
    exact h.key_of_type hstart (mem_entriesOf.mp hl).1 (mem_entriesOf.mp hl).2.1
  · intro g
    constructor
    · intro hg
      obtain ⟨l, hl, hof⟩ := Option.bind_eq_some_iff.mp hg
      have hkey := ledger?_key hl
      refine ⟨l, mem_entriesOf.mpr ⟨?_, (h.typed hstart g .reserve l hl).1, hof⟩, hkey⟩
      rw [hkey]
      exact hl
    · rintro ⟨l, hl, hkey⟩
      obtain ⟨hl, -, hof⟩ := mem_entriesOf.mp hl
      rw [hkey] at hl
      exact Option.bind_eq_some_iff.mpr ⟨l, hl, hof⟩

/-- The RELEASE entries of a grant are those of its jobs that gave their
credit back. -/
theorem Honest.length_release (hstart : Begins start) (h : Honest cfg start S) (i : Id) :
    (entriesOf .release i S.db).length
      = {g | (books S.db).reserved g = some i ∧
          (books S.db).settled g = some .released}.ncard := by
  have hof : ∀ g l, ledger? S.db (.generation g .release) = some l →
      (books S.db).reserved g = l.grantId := by
    intro g l hl
    obtain ⟨r, hr, -, hgrant⟩ := h.matched hstart g .release _ (posting?_eq_some.mpr ⟨l, hl, rfl⟩)
    obtain ⟨r', hr', rfl⟩ := posting?_eq_some.mp hr
    simp only [books, hr', Option.bind_some]
    exact hgrant.symm
  refine length_entriesOf (a := .release) ?_ ?_
  · intro l hl
    exact h.key_of_type hstart (mem_entriesOf.mp hl).1 (mem_entriesOf.mp hl).2.1
  · intro g
    constructor
    · rintro ⟨hg, hsettled⟩
      obtain ⟨l, hl⟩ : ∃ l, ledger? S.db (.generation g .release) = some l := by
        by_contra hnone
        rw [← Option.isSome_iff_exists] at hnone
        simp only [books, hnone] at hsettled
        split at hsettled <;> cases hsettled
      have hkey := ledger?_key hl
      refine ⟨l, mem_entriesOf.mpr ⟨?_, (h.typed hstart g .release l hl).1, ?_⟩, hkey⟩
      · rw [hkey]
        exact hl
      · rw [← hof g l hl]
        exact hg
    · rintro ⟨l, hl, hkey⟩
      obtain ⟨hl, -, hgrant⟩ := mem_entriesOf.mp hl
      rw [hkey] at hl
      refine ⟨(hof g l hl).trans hgrant, ?_⟩
      have hconsume : ledger? S.db (.generation g .consume) = none := by
        rcases h.single hstart g with hnone | hnone
        · exact hnone
        · rw [hnone] at hl
          cases hl
      simp [books, hconsume, hl]

/-- What remains of a grant is what was granted, less its reservations, and
the ones given back again; and what was granted is in the ledger. -/
structure Conserved (d : Db Row) (i : Id) (x : GenerationCreditGrant) : Prop where
  nonneg : 0 ≤ x.remainingCredits
  le : x.remainingCredits ≤ x.totalCredits
  balance : x.remainingCredits + (entriesOf .reserve i d).length
    = x.totalCredits + (entriesOf .release i d).length
  granted : ∃ l, entriesOf .grant i d = [l] ∧ l.amount = x.totalCredits ∧ l.userId = x.userId

/-- The balance of a grant holds in every reached state. -/
theorem Reached.conserved (h : Reached cfg w) {i : Id} {x : GenerationCreditGrant}
    (hx : grant? w.shared.db i = some x) : Conserved w.shared.db i x := by
  obtain ⟨start, hstart, hS⟩ := h.honest
  have hbal := h.books_balanced
  have htotal : (books w.shared.db).total i = some x.totalCredits := by simp [books, hx]
  have hrem : (books w.shared.db).remaining i = x.remainingCredits := by simp [books, hx]
  refine ⟨hrem ▸ hbal.nonneg i _ htotal, hrem ▸ hbal.le htotal, ?_, ?_⟩
  · have hbalance := hbal.balance i _ htotal
    have hheld := hbal.held_add_released i
    rw [hS.length_reserve hstart, hS.length_release hstart]
    omega
  · obtain ⟨k, l, hl, htype, hof, hamount, huser, -, hone⟩ := hS.opened hstart i x hx
    obtain ⟨l₁, hl₁, rfl⟩ := posting?_eq_some.mp hl
    have hkey := ledger?_key hl₁
    have hmem : l₁ ∈ entriesOf .grant i w.shared.db := by
      refine mem_entriesOf.mpr ⟨?_, htype, hof⟩
      rw [hkey]
      exact hl₁
    have hall : ∀ l ∈ entriesOf .grant i w.shared.db, l = l₁ := by
      intro l hl
      obtain ⟨hl, hltype, hlof⟩ := mem_entriesOf.mp hl
      have hk := hone l.idempotencyKey l.unlinked (posting?_eq_some.mpr ⟨l, hl, rfl⟩) hltype hlof
      rw [hk, hl₁] at hl
      exact (Option.some.inj hl).symm
    refine ⟨l₁, ?_, hamount, huser⟩
    have hrep := List.eq_replicate_of_mem hall
    have hnodup := nodup_entriesOf .grant i w.shared.db
    have hpos := List.length_pos_of_mem hmem
    rw [hrep, List.nodup_replicate] at hnodup
    rw [hrep, show (entriesOf .grant i w.shared.db).length = 1 by omega]
    rfl

/-- No credit of a grant is lost or made. -/
theorem credits_conserved (cfg : Config) (w : RWorld) (h : Reached cfg w) (i : Id)
    (x : GenerationCreditGrant) (hx : grant? w.shared.db i = some x) :
    0 ≤ x.remainingCredits ∧ x.remainingCredits ≤ x.totalCredits ∧
      x.remainingCredits + (entriesOf .reserve i w.shared.db).length
        = x.totalCredits + (entriesOf .release i w.shared.db).length ∧
      ∃ l, entriesOf .grant i w.shared.db = [l] ∧ l.amount = x.totalCredits ∧
        l.userId = x.userId :=
  have hconserved := h.conserved hx
  ⟨hconserved.nonneg, hconserved.le, hconserved.balance, hconserved.granted⟩

/-- After one start, four of five credits remain and one is reserved. -/
theorem credits_conserved_started : ∃ w x, Reached defaults w ∧
    grant? w.shared.db 11 = some x ∧ x.remainingCredits = 4 ∧ x.totalCredits = 5 ∧
    x.remainingCredits + (entriesOf .reserve 11 w.shared.db).length
      = x.totalCredits + (entriesOf .release 11 w.shared.db).length := by
  have hrun : (sampleWorld.runAll (app defaults) generationStarted).any (fun w =>
      (grant? w.shared.db 11).any fun x => x.remainingCredits = 4 && x.totalCredits = 5)
        = true := by
    decide +kernel
  obtain ⟨w, hw, hp⟩ := exists_reached hrun
  simp only [Option.any_eq_true, Bool.and_eq_true, decide_eq_true_eq] at hp
  obtain ⟨x, hx, hremaining, htotal⟩ := hp
  exact ⟨w, x, hw, hx, hremaining, htotal, (credits_conserved defaults w hw 11 x hx).2.2.1⟩

end FastRep.Reports
