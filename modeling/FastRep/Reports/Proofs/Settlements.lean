/-
A generation and its credit are settled together.

While a generation is active its reservation is unsettled, and the commit
that ends it also settles the credit: it is consumed by the completion and
given back by everything else. The transactions do not check the one
against the other. A release that finds nothing left to give back writes
nothing, and that this never happens to an active generation is an
invariant of the whole system (`Honest.settled_of_since`).

# The invariant

`Honest.settlement`: the status of a stored generation tells how its credit is
settled. A commit that does not end the generation does not settle its credit
either (`CreditMove.settled_cases`); a completion consumes it
(`Honest.consumed_after`), and an ending of another kind releases it
(`Honest.released_after`).

# The ledger

`ledger_append_only` is about all entries: none is removed or changed, but for
the name of a generation that is gone, and each entry of a generation was made
by a commit of the operation its type names (`Makes`).

# Once

The entries of a generation stay in the ledger after it is gone.
`Honest.settled_once` counts them, for every generation that was ever started:
one reservation, and at most one entry that settles it. Which one it is, the
history tells: a completion has consumed the credit
(`Honest.consumed_of_finalizes`), and without one whatever gave it back has
released it (`Honest.settled_of_givesBack`).
-/
import FastRep.Reports.Proofs.CreditBalance
import FastRep.Reports.Proofs.Endings

namespace FastRep.Reports

open FastRep.Txn FastRep.Accounts

variable {cfg : Config} {start S : RState} {t : Tid} {s : Site}
  {ws credit : List (Write Row Key)} {w : RWorld} {d d' : Db Row} {g tok : Id}

-- ========================================================== what was read

/-- An entry that settles a generation is never lost. -/
theorem Honest.settled_of_read (hstart : Begins start) (h : Honest cfg start S) {e : REntry}
    (he : e ∈ S.trace) {l : GenerationCreditTransaction} (hl : l ∈ ledger e.before.db)
    (hname : l.generationId = some g) (hterm : l.type.terminal = true) :
    (books S.db).settled g ≠ none := by
  obtain ⟨newer, older, htr⟩ := List.append_of_mem he
  obtain ⟨S₀, hS₀, hscene, -⟩ := h.at hstart htr
  have hdb : S₀.db = e.before.db := by rw [← hscene]
  rw [mem_ledger] at hl
  obtain ⟨a, hkey⟩ := hS₀.keyed hstart l.idempotencyKey l g (hdb ▸ hl) hname
  have htype := (hS₀.typed hstart g a l (by rw [← hkey, hdb]; exact hl)).1
  rw [hkey] at hl
  obtain ⟨l', hl', -⟩ := posting?_eq_some.mp
    (h.entry_kept hstart he (posting?_eq_some.mpr ⟨l, hl, rfl⟩))
  rw [Ne, books_settled_eq_none]
  rintro ⟨hconsume, hrelease⟩
  cases a with
  | reserve =>
      rw [htype] at hterm
      cases hterm
  | consume =>
      rw [hconsume] at hl'
      cases hl'
  | release =>
      rw [hrelease] at hl'
      cases hl'

/-- What had nothing left to release is settled. -/
theorem Honest.settled_of_since (hstart : Begins start) (h : Honest cfg start S)
    (hsince : SettledSince S g) : (books S.db).settled g ≠ none := by
  obtain ⟨newer, e, older, htr, hsettled, e', he', hgen⟩ := hsince
  have he : e ∈ S.trace := by simp [htr]
  rcases hsettled with hnogrant | ⟨l, hl, hname, hterm⟩
  · exfalso
    -- the reservation of a stored generation is on a grant, and it stays
    obtain ⟨newer', older', htr'⟩ := List.append_of_mem he'
    obtain ⟨S₀, hS₀, hscene, holder⟩ := h.at hstart htr
    rw [← holder] at he'
    obtain ⟨n', o', htr₀⟩ := List.append_of_mem he'
    obtain ⟨S₁, hS₁, hscene₁, -⟩ := hS₀.at hstart htr₀
    have hdb₁ : S₁.db = e'.before.db := by rw [← hscene₁]
    have hdb₀ : S₀.db = e.before.db := by rw [← hscene]
    obtain ⟨x, hx⟩ := Option.isSome_iff_exists.mp hgen
    obtain ⟨r, hr, -⟩ := hS₁.reserved hstart g x (hdb₁ ▸ hx)
    obtain ⟨i, y, hgrant, -, -⟩ := hS₁.drawn hstart g r hr
    obtain ⟨l, hl, rfl⟩ := posting?_eq_some.mp (hS₀.entry_kept hstart he' (hdb₁ ▸ hr))
    have hnone := hnogrant l (hdb₀ ▸ hl)
    rw [show l.grantId = _ from hgrant] at hnone
    cases hnone
  · exact h.settled_of_read hstart he hl hname hterm

-- ============================================================= one commit

/-- Only completing a generation or giving its reservation back settles its
credit. -/
theorem CreditMove.settled_cases (h : CreditMove S s ws credit) (g : Id) :
    (books (applyAll credit S.db)).settled g = (books S.db).settled g ∨
      s.enters g .consume = true ∨ (s.enters g .release = true ∧ ws ≠ []) := by
  rcases h.ledger_cases (.generation g .consume) with hconsume | ⟨l, -, hkey, -, hmem⟩
  · rcases h.ledger_cases (.generation g .release) with hrelease | ⟨l, -, hkey, -, hmem⟩
    · refine Or.inl ?_
      simp only [books, hconsume, hrelease]
    · obtain ⟨hs, hne⟩ := h.added_site hmem hkey
      exact Or.inr (Or.inr ⟨hs, hne rfl⟩)
  · exact Or.inr (Or.inl (h.added_site hmem hkey).1)

/-- A generation that completes unsettled has its credit consumed. -/
theorem Honest.consumed_after (hstart : Begins start) (hS : Honest cfg start S)
    (h : CreditMove S (.finalizeSuccess g tok) ws credit) (hne : ws ≠ [])
    (hnone : (books S.db).settled g = none) :
    (books (applyAll credit S.db)).settled g = some .consumed := by
  cases h with
  | idle hreason =>
      rcases hreason with hs | rfl
      · cases hs
      · exact absurd rfl hne
  | spent _ honce =>
      obtain ⟨e, he, l, hl, hname, htype⟩ := honce
      exact absurd hnone (hS.settled_of_read hstart he hl hname (by rw [htype]; rfl))
  | settled hs _ _ => cases hs
  | granted hs _ _ _ _ _ _ _ _ _ _ _ =>
      rcases hs with ⟨_, _, hs⟩ | ⟨_, hs⟩ <;> cases hs
  | consumed _ hentry _ _ _ =>
      simp only [books, ledger?_entered, if_pos hentry.idempotencyKey]
      rfl
  | released hs _ _ _ _ _ _ _ _ _ => cases hs

/-- A reservation that is given back unsettled is released. -/
theorem Honest.released_after (hstart : Begins start) (hS : Honest cfg start S)
    (h : CreditMove S s ws credit) (hs : s.givesBack g = true) (hne : ws ≠ [])
    (hnone : (books S.db).settled g = none) :
    (books (applyAll credit S.db)).settled g = some .released := by
  have hsame : ∀ {i}, s.givesBack i = true → i = g := by
    intro i hi
    cases s with
    | cancel _ | compensateQueueFailure _ | failGeneration _ _ =>
        simp only [Site.givesBack, decide_eq_true_eq] at hs hi
        exact hi.symm.trans hs
    | _ => cases hs
  cases h with
  | idle hreason =>
      rcases hreason with hmoves | rfl
      · cases s <;> first | cases hs | cases hmoves
      · exact absurd rfl hne
  | unspent _ _ => cases hs
  | spent _ _ => cases hs
  | settled hi _ hsince =>
      cases hsame hi
      exact absurd hnone (hS.settled_of_since hstart hsince)
  | granted hsite _ _ _ _ _ _ _ _ _ _ _ =>
      rcases hsite with ⟨_, _, rfl⟩ | ⟨_, rfl⟩ <;> cases hs
  | entered _ _ _ _ _ _ _ _ => cases hs
  | reserved _ _ _ _ _ _ _ _ => cases hs
  | consumed _ _ _ _ _ => cases hs
  | released hi _ _ _ _ hentry _ _ _ _ =>
      cases hsame hi
      have hconsume := (books_settled_eq_none.mp hnone).1
      simp only [books, ledger?_drawn, hentry.idempotencyKey]
      simp [hconsume]

-- ============================================================= all commits

theorem settlement_of_active {x : ReportGeneration} (h : x.status.active = true) :
    x.status.settlement = none := by
  cases hs : x.status <;> rw [hs] at h <;> first | rfl | cases h

/-- The status of a stored generation tells how its credit is settled. -/
theorem Honest.settlement (hstart : Begins start) (h : Honest cfg start S) :
    ∀ g x, generation? S.db g = some x → (books S.db).settled g = x.status.settlement := by
  refine h.invariant (I := fun S => ∀ g x, generation? S.db g = some x →
    (books S.db).settled g = x.status.settlement) ?_ ?_ ?_
  · intro g x hx
    have hnone : generation? start.db g = none := generation?_eq_none.mpr
      (hstart.unused.find?_eq_none (k := .generation g) (by simp [Key.table]) (by simp [Key.table]))
    rw [hnone] at hx
    cases hx
  · intro t s ws credit S hS ih heff hm hmove hidle g y hy
    change generation? (applyAll ws S.db) g = some y at hy
    change (books (applyAll ws S.db)).settled g = _
    rw [hidle.books_eq]
    -- a generation that was active before is settled by what ends it
    have hactive : ∀ {x}, generation? S.db g = some x → x.status.active = true →
        (books S.db).settled g = none := by
      intro x hx hx'
      rw [ih g x hx, settlement_of_active hx']
    rcases hmove.settled_cases g with hsame | hconsume | ⟨hrelease, hne⟩
    · rw [hsame]
      by_cases hws : ws = []
      · rw [hws] at hy
        exact ih g y hy
      rcases heff.generation g with hrow | hchange
      · rw [hrow] at hy
        exact ih g y hy
      cases hx : generation? S.db g with
      | none =>
          have hcreates := heff.creates_generation hx hy S.toScene
          rw [hx, hy] at hchange
          cases hchange with
          | started =>
              rw [books_settled_eq_none.mpr ⟨hS.fresh hstart hm hcreates .consume,
                hS.fresh hstart hm hcreates .release⟩]
              rfl
      | some x =>
          rw [hx, hy] at hchange
          have hbefore := ih g x hx
          cases hchange with
          | enqueued _ _ _ => exact hbefore
          | cancelled _ _ hqueued =>
              have hafter := hS.released_after (g := g) hstart hmove (by simp [Site.givesBack])
                heff.cancelled.1 (hactive hx (by rw [hqueued]; rfl))
              rw [← hsame, hafter]
              rfl
          | claimed _ _ _ _ hclaimable =>
              rw [hactive hx (active_of_claimable hclaimable)]
              rfl
          | fenced _ _ _ _ _ _ hcore => rw [hbefore, hcore.status]
          | requeued _ _ _ howned =>
              rw [hactive hx (active_of_owned howned)]
              rfl
          | failed _ _ _ _ _ howned =>
              have hafter := hS.released_after (g := g) hstart hmove (by simp [Site.givesBack])
                hws (hactive hx (active_of_owned howned))
              rw [← hsame, hafter]
              rfl
          | completed _ _ _ howned =>
              have hafter := hS.consumed_after hstart hmove hws
                (hactive hx (active_of_owned howned))
              rw [← hsame, hafter]
              rfl
    · cases s with
      | finalizeSuccess g' tok =>
          simp only [Site.enters, decide_eq_true_eq] at hconsume
          subst hconsume
          obtain ⟨x, r, o, now, credit', hx, howned, -, -, -, -, -, -, hws, hafter, -⟩ :=
            Runs.finalized hstart hS.runs heff
          rw [hafter] at hy
          cases hy
          rw [hS.consumed_after hstart hmove (by simp [hws]) (hactive hx (active_of_owned howned))]
          rfl
      | _ => cases hconsume
    · cases s with
      | cancel g' =>
          simp only [Site.enters, Site.givesBack, decide_eq_true_eq] at hrelease
          subst hrelease
          obtain ⟨-, x, now, hx, hqueued, hafter⟩ := heff.cancelled
          rw [hafter] at hy
          cases hy
          rw [hS.released_after hstart hmove (by simp [Site.givesBack]) hne
            (hactive hx (by rw [hqueued]; rfl))]
          rfl
      | failGeneration g' tok =>
          simp only [Site.enters, Site.givesBack, decide_eq_true_eq] at hrelease
          subst hrelease
          obtain ⟨x, r, errorCode, message, now, read, hasOutput, credit', hx, howned, -, -, -,
            -, -, hafter, -⟩ := heff.failed hne
          rw [hafter] at hy
          cases hy
          rw [hS.released_after hstart hmove (by simp [Site.givesBack]) hne
            (hactive hx (active_of_owned howned))]
          rfl
      | compensateQueueFailure g' =>
          simp only [Site.enters, Site.givesBack, decide_eq_true_eq] at hrelease
          subst hrelease
          rw [heff.compensated hne] at hy
          cases hy
      | _ => cases hrelease
  · intro j S S' ih _ hdb
    rw [hdb]
    exact ih

-- ============================================================== the ledger

/-- The status of a stored generation and its ledger agree: while it is
active only its reservation is entered, a completed one has consumed its
credit, and a failed or cancelled one has given it back. All its entries
name its user and one grant of that user, for one credit. -/
theorem settlement_follows_status (cfg : Config) (w : RWorld) (h : Reached cfg w) (g : Id)
    (x : ReportGeneration) (hx : generation? w.shared.db g = some x) :
    (books w.shared.db).settled g = x.status.settlement ∧
      ∃ i y, (books w.shared.db).reserved g = some i ∧ grant? w.shared.db i = some y ∧
        y.userId = x.userId ∧ ∀ a l, ledger? w.shared.db (.generation g a) = some l →
          l.IsEntry g a a.type ∧ l.userId = x.userId ∧ l.grantId = some i := by
  obtain ⟨start, hstart, hS⟩ := h.honest
  refine ⟨hS.settlement hstart g x hx, ?_⟩
  obtain ⟨r, hr, huser⟩ := hS.reserved hstart g x hx
  obtain ⟨i, y, hgrant, hy, hyuser⟩ := hS.drawn hstart g r hr
  obtain ⟨r', hr', rfl⟩ := posting?_eq_some.mp hr
  refine ⟨i, y, ?_, hy, hyuser.trans huser, ?_⟩
  · simp only [books, hr', Option.bind_some]
    exact hgrant
  · intro a l hl
    obtain ⟨r, hr₁, hluser, hlgrant⟩ :=
      hS.matched hstart g a _ (posting?_eq_some.mpr ⟨l, hl, rfl⟩)
    rw [hr] at hr₁
    cases hr₁
    obtain ⟨htype, hamount⟩ := hS.typed hstart g a l hl
    have hname := hS.linked hstart g a l hl (by rw [hx]; rfl)
    exact ⟨⟨ledger?_key hl, hname, htype, hamount⟩, hluser.trans huser, hlgrant.trans hgrant⟩

/-- The credit of a cancelled generation was released. -/
theorem settlement_follows_status_cancelled : ∃ w x, Reached defaults w ∧
    generation? w.shared.db 12 = some x ∧ x.status = .cancelled ∧
    (books w.shared.db).settled 12 = some .released := by
  have hrun : (sampleWorld.runAll (app defaults) generationCancelled).any (fun w =>
      (generation? w.shared.db 12).any fun x => x.status = .cancelled) = true := by
    decide +kernel
  obtain ⟨w, hw, hp⟩ := exists_reached hrun
  simp only [Option.any_eq_true, decide_eq_true_eq] at hp
  obtain ⟨x, hx, hstatus⟩ := hp
  refine ⟨w, x, hw, hx, hstatus, ?_⟩
  rw [(settlement_follows_status defaults w hw 12 x hx).1, hstatus]
  rfl

/-- The commit `e` makes the entry `l` under a key, at a site of the action. A
reservation is made on a grant its user may use at that moment. -/
structure Makes (e : REntry) (g : Id) (a : CreditAction) (l : GenerationCreditTransaction) :
    Prop where
  commit : ∃ s ws, e.event = .commit s ws ∧ s.enters g a = true ∧
    posting? (applyAll ws e.before.db) (.generation g a) = some l
  new : posting? e.before.db (.generation g a) = none
  usable : a = .reserve → ∃ x, grant? e.before.db x.id = some x ∧ l.grantId = some x.id ∧
    x.usable l.userId e.before.clock = true

/-- Every entry of a generation was made by a commit of the operation its type
names. -/
theorem Honest.made (hstart : Begins start) (h : Honest cfg start S) :
    ∀ g a l, posting? S.db (.generation g a) = some l → ∃ e ∈ S.trace, Makes e g a l := by
  refine h.invariant (I := fun S => ∀ g a l, posting? S.db (.generation g a) = some l →
    ∃ e ∈ S.trace, Makes e g a l) ?_ ?_ ?_
  · intro g a l hl
    rw [posting?, hstart.ledger?_eq_none] at hl
    cases hl
  · intro t s ws credit S hS ih _ _ hmove hidle g a l hl
    change posting? (applyAll ws S.db) _ = _ at hl
    have hafter := hl
    rw [hidle.posting?_eq, posting?] at hl
    rcases hmove.ledger_cases (.generation g a) with hsame | ⟨l₁, hl₁, hkey, hnone, hmem⟩
    · rw [hsame] at hl
      obtain ⟨e, he, hmakes⟩ := ih g a l hl
      exact ⟨e, List.mem_cons_of_mem _ he, hmakes⟩
    · rw [hl₁] at hl
      cases hl
      refine ⟨_, List.mem_cons_self, ⟨s, ws, rfl, (hmove.added_site hmem hkey).1, hafter⟩, ?_, ?_⟩
      · show posting? S.db _ = none
        rw [posting?, hnone]
        rfl
      · intro ha
        obtain ⟨-, ⟨-, u, r, k, x, -, -, hx, husable, hgrant, huser⟩ | ⟨hne, -⟩⟩ :=
          hmove.added hmem hkey
        · refine ⟨x, hx, hgrant, ?_⟩
          rw [show l₁.unlinked.userId = u from huser]
          exact husable
        · exact absurd ha hne
  · intro j S S' ih hm hdb g a l hl
    rw [hdb] at hl
    obtain ⟨e, he, hmakes⟩ := ih g a l hl
    exact ⟨e, hm.trace_suffix.subset he, hmakes⟩

/-- The ledger only grows: no step removes or changes an entry, but for the
name of a generation that is gone, and every entry of a generation was made
by the commit of the operation it records. -/
theorem ledger_append_only (cfg : Config) (w : RWorld) (h : Reached cfg w) :
    (∀ a w', w.apply (app cfg) a = some w' → ∀ k l, posting? w.shared.db k = some l →
      posting? w'.shared.db k = some l) ∧
    ∀ g a l, posting? w.shared.db (.generation g a) = some l →
      ∃ e ∈ w.shared.trace, Makes e g a l := by
  constructor
  · intro a w' happly k l hl
    rcases h.commit_or happly with hdb | ⟨start, t, s, ws, credit, -, -, hcommit, -, hmove, hidle⟩
    · rw [hdb]
      exact hl
    · rw [hcommit]
      exact hmove.entry_kept hidle hl
  · obtain ⟨start, hstart, hS⟩ := h.honest
    exact hS.made hstart

/-- The release of a cancelled generation was made by its cancellation. -/
theorem ledger_append_only_cancelled : ∃ w, Reached defaults w ∧
    ∃ l, ledger? w.shared.db (.generation 12 .release) = some l ∧
      ∃ e ∈ w.shared.trace, Makes e 12 .release l.unlinked := by
  have hrun : (sampleWorld.runAll (app defaults) generationCancelled).any (fun w =>
      (ledger? w.shared.db (.generation 12 .release)).isSome) = true := by
    decide +kernel
  obtain ⟨w, hw, hp⟩ := exists_reached hrun
  obtain ⟨l, hl⟩ := Option.isSome_iff_exists.mp hp
  refine ⟨w, hw, l, hl, ?_⟩
  exact (ledger_append_only defaults w hw).2 12 .release _ (posting?_eq_some.mpr ⟨l, hl, rfl⟩)

-- ============================================================= settled once

/-- The entries of the ledger under the keys of a generation. -/
def entriesUnder (g : Id) (d : Db Row) : List GenerationCreditTransaction :=
  (ledger d).filter fun l => match l.idempotencyKey with
    | .generation i _ => i = g
    | _ => false

/-- The commit completes the generation. -/
def finalizes (g : Id) (e : REntry) : Bool :=
  match e.event with
  | .commit (.finalizeSuccess i _) _ => i = g
  | _ => false

/-- The commit cancels the generation, fails it for good or takes its start
back. -/
def givesBack (g : Id) (e : REntry) : Bool :=
  match e.event with
  | .commit s ws => s.givesBack g && !ws.isEmpty
  | _ => false

theorem mem_entriesUnder {l : GenerationCreditTransaction} :
    l ∈ entriesUnder g d ↔ ∃ a, l.idempotencyKey = .generation g a ∧
      ledger? d (.generation g a) = some l := by
  unfold entriesUnder
  rw [List.mem_filter, mem_ledger]
  constructor
  · rintro ⟨hl, hkey⟩
    split at hkey
    next i a heq =>
        obtain rfl := of_decide_eq_true hkey
        exact ⟨a, heq, heq ▸ hl⟩
    next => cases hkey
  · rintro ⟨a, heq, hl⟩
    rw [heq]
    exact ⟨hl, decide_eq_true rfl⟩

/-- A completion of the trace has consumed the credit. -/
theorem Honest.consumed_of_finalizes (hstart : Begins start) (h : Honest cfg start S)
    (hany : S.trace.any (finalizes g) = true) : (books S.db).settled g = some .consumed := by
  obtain ⟨e, he, hfinalizes⟩ := List.any_eq_true.mp hany
  unfold finalizes at hfinalizes
  split at hfinalizes
  next i tok ws hev =>
      obtain rfl := of_decide_eq_true hfinalizes
      obtain ⟨newer, older, htr⟩ := List.append_of_mem he
      obtain ⟨S₀, credit, hS₀, hscene, -, heff, hmove, hidle⟩ := h.commit_at hstart htr hev
      obtain ⟨x, _, _, _, _, hx, howned, -, -, -, -, -, -, hws, -⟩ :=
        Runs.finalized hstart hS₀.runs heff
      have hnone : (books S₀.db).settled i = none := by
        rw [hS₀.settlement hstart i x hx, settlement_of_active (active_of_owned howned)]
      refine (h.books_kept_since hstart he).2.settled_eq ?_
      unfold booksAfter
      rw [hev, ← hscene]
      show (books (applyAll ws S₀.db)).settled i = _
      rw [hidle.books_eq]
      exact hS₀.consumed_after hstart hmove (by simp [hws]) hnone
  next => cases hfinalizes

/-- What gave the credit back has left it settled. -/
theorem Honest.settled_of_givesBack (hstart : Begins start) (h : Honest cfg start S)
    (hany : S.trace.any (givesBack g) = true) : (books S.db).settled g ≠ none := by
  obtain ⟨e, he, hgives⟩ := List.any_eq_true.mp hany
  unfold givesBack at hgives
  split at hgives
  next s ws hev =>
      simp only [Bool.and_eq_true, Bool.not_eq_true', List.isEmpty_eq_false_iff] at hgives
      obtain ⟨hgives, hne⟩ := hgives
      obtain ⟨newer, older, htr⟩ := List.append_of_mem he
      obtain ⟨S₀, credit, hS₀, hscene, -, heff, hmove, hidle⟩ := h.commit_at hstart htr hev
      obtain ⟨hstep, hsince⟩ := h.books_kept_since hstart he
      have hafter : booksAfter e = books (applyAll credit S₀.db) := by
        rw [← hidle.books_eq]
        unfold booksAfter
        rw [hev, ← hscene]
      cases hbefore : (books e.before.db).settled g with
      | some o =>
          rw [hsince.settled_eq (hstep.settled_eq hbefore)]
          exact Option.some_ne_none o
      | none =>
          rw [← hscene] at hbefore
          rw [hsince.settled_eq (hafter ▸ hS₀.released_after hstart hmove hgives hne hbefore)]
          exact Option.some_ne_none _
  next => cases hgives

/-- The credit of a generation is reserved once and settled once, by what its
generation came to. -/
structure SettledOnce (S : RState) (g : Id) : Prop where
  reserved : ∀ l ∈ entriesUnder g S.db, ∀ l' ∈ entriesUnder g S.db,
    l.type = .reserve → l'.type = .reserve → l = l'
  settled : ∀ l ∈ entriesUnder g S.db, ∀ l' ∈ entriesUnder g S.db,
    l.type.terminal = true → l'.type.terminal = true → l = l'
  consumed : (∃ l ∈ entriesUnder g S.db, l.type = .consume) ↔
    S.trace.any (finalizes g) = true
  released : (∃ l ∈ entriesUnder g S.db, l.type = .release) ↔
    S.trace.any (givesBack g) = true ∧ S.trace.any (finalizes g) = false

/-- A consumed credit was consumed by a completion. -/
theorem Honest.finalizes_of_consumed (hstart : Begins start) (h : Honest cfg start S)
    (hsettled : (books S.db).settled g = some .consumed) : S.trace.any (finalizes g) = true := by
  have hsome := (books_settled_eq_consumed.mp hsettled)
  obtain ⟨l, hl⟩ := Option.isSome_iff_exists.mp hsome
  obtain ⟨e, he, hmakes⟩ := h.made hstart g .consume _ (posting?_eq_some.mpr ⟨l, hl, rfl⟩)
  obtain ⟨s, ws, hev, hs, -⟩ := hmakes.commit
  refine List.any_eq_true.mpr ⟨e, he, ?_⟩
  unfold finalizes
  rw [hev]
  cases s with
  | finalizeSuccess i tok => exact hs
  | _ => cases hs

/-- A released credit was given back by a commit of one of the three kinds. -/
theorem Honest.givesBack_of_released (hstart : Begins start) (h : Honest cfg start S)
    (hsome : (ledger? S.db (.generation g .release)).isSome = true) :
    S.trace.any (givesBack g) = true := by
  obtain ⟨l, hl⟩ := Option.isSome_iff_exists.mp hsome
  obtain ⟨e, he, hmakes⟩ := h.made hstart g .release _ (posting?_eq_some.mpr ⟨l, hl, rfl⟩)
  obtain ⟨s, ws, hev, hs, hafter⟩ := hmakes.commit
  refine List.any_eq_true.mpr ⟨e, he, ?_⟩
  unfold givesBack
  rw [hev]
  have hne : ws ≠ [] := by
    rintro rfl
    rw [show posting? (applyAll [] e.before.db) _ = _ from hmakes.new] at hafter
    cases hafter
  cases ws with
  | nil => exact absurd rfl hne
  | cons w ws => cases s <;> first | cases hs | simpa [Site.enters] using hs

/-- In every state of a run the credit of a generation is settled at most once. -/
theorem Honest.settled_once (hstart : Begins start) (h : Honest cfg start S) (g : Id) :
    SettledOnce S g where
  reserved l hl l' hl' htype htype' := by
    obtain ⟨a, -, hl⟩ := mem_entriesUnder.mp hl
    obtain ⟨a', -, hl'⟩ := mem_entriesUnder.mp hl'
    rw [(h.typed hstart g a l hl).1] at htype
    rw [(h.typed hstart g a' l' hl').1] at htype'
    cases a <;> cases htype
    cases a' <;> cases htype'
    exact Option.some.inj (hl.symm.trans hl')
  settled l hl l' hl' hterm hterm' := by
    obtain ⟨a, -, hl⟩ := mem_entriesUnder.mp hl
    obtain ⟨a', -, hl'⟩ := mem_entriesUnder.mp hl'
    rw [(h.typed hstart g a l hl).1] at hterm
    rw [(h.typed hstart g a' l' hl').1] at hterm'
    have hsame : a = a' := by
      cases a with
      | reserve => cases hterm
      | consume =>
          cases a' with
          | reserve => cases hterm'
          | consume => rfl
          | release => exact absurd (h.single hstart g) (by simp [hl, hl'])
      | release =>
          cases a' with
          | reserve => cases hterm'
          | consume => exact absurd (h.single hstart g) (by simp [hl, hl'])
          | release => rfl
    rw [hsame] at hl
    exact Option.some.inj (hl.symm.trans hl')
  consumed := by
    constructor
    · rintro ⟨l, hl, htype⟩
      obtain ⟨a, -, hl⟩ := mem_entriesUnder.mp hl
      rw [(h.typed hstart g a l hl).1] at htype
      cases a <;> cases htype
      exact h.finalizes_of_consumed hstart (books_settled_eq_consumed.mpr (by rw [hl]; rfl))
    · intro hany
      obtain ⟨l, hl⟩ := Option.isSome_iff_exists.mp
        (books_settled_eq_consumed.mp (h.consumed_of_finalizes hstart hany))
      exact ⟨l, mem_entriesUnder.mpr ⟨_, ledger?_key hl, hl⟩, (h.typed hstart g _ l hl).1⟩
  released := by
    constructor
    · rintro ⟨l, hl, htype⟩
      obtain ⟨a, -, hl⟩ := mem_entriesUnder.mp hl
      rw [(h.typed hstart g a l hl).1] at htype
      cases a <;> cases htype
      refine ⟨h.givesBack_of_released hstart (by rw [hl]; rfl), ?_⟩
      by_contra hany
      rw [Bool.not_eq_false] at hany
      have hconsume := books_settled_eq_consumed.mp (h.consumed_of_finalizes hstart hany)
      rcases h.single hstart g with hnone | hnone
      · rw [hnone] at hconsume
        cases hconsume
      · rw [hnone] at hl
        cases hl
    · rintro ⟨hany, hfinalizes⟩
      have hnone : ledger? S.db (.generation g .consume) = none := by
        by_contra hsome
        rw [← Ne, ← Option.isSome_iff_ne_none] at hsome
        rw [h.finalizes_of_consumed hstart (books_settled_eq_consumed.mpr hsome)] at hfinalizes
        cases hfinalizes
      have hsettled := h.settled_of_givesBack hstart hany
      rw [Ne, books_settled_eq_none, not_and] at hsettled
      obtain ⟨l, hl⟩ := Option.ne_none_iff_exists'.mp (hsettled hnone)
      exact ⟨l, mem_entriesUnder.mpr ⟨_, ledger?_key hl, hl⟩, (h.typed hstart g _ l hl).1⟩

/-- Credits are conserved and settled once: what remains of a grant is what
the ledger says, and the credit of any generation ever started is reserved at
most once, and consumed or released at most once. It is consumed exactly when
the generation was completed, and released exactly when it was not, but was
cancelled, failed or taken back. -/
theorem credits_settled_once (h : Reached cfg w) :
    (∀ i x, grant? w.shared.db i = some x → Conserved w.shared.db i x) ∧
      ∀ g, SettledOnce w.shared g := by
  obtain ⟨start, hstart, hS⟩ := h.honest
  exact ⟨fun i x hx => h.conserved hx, fun g => hS.settled_once hstart g⟩

/-- The credit of generation 12 was released by its cancellation. -/
theorem credits_settled_once_cancelled : ∃ w, Reached defaults w ∧
    ∃ l, entriesUnder 12 w.shared.db = l ∧ l.map (·.type) = [.reserve, .release] ∧
      SettledOnce w.shared 12 := by
  have hrun : (sampleWorld.runAll (app defaults) generationCancelled).any (fun w =>
      (entriesUnder 12 w.shared.db).map (·.type) == [.reserve, .release]) = true := by
    decide +kernel
  obtain ⟨w, hw, hp⟩ := exists_reached hrun
  exact ⟨w, hw, _, rfl, beq_iff_eq.mp hp, (credits_settled_once hw).2 12⟩

end FastRep.Reports
