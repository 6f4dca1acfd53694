/-
What the grants and the ledger of a reached state look like.

The entries of a generation stand under keys of their own, so they are
kept when the generation is deleted; only its name is cleared. An entry
is never changed otherwise and never removed, so what a transaction read
of one is still there when it commits.

`Honest` is a state of a run in which every commit kept the promise about
credits. The records are invariants of such states, each of them an
induction over the moves with the credit part of the commit in hand:

- the entries of a generation were made by it (`Honest.entry_created`), and
  a stored generation has a reservation of its user (`Honest.reserved`);
- they stand under keys of it, and name it as long as it is stored
  (`Honest.keyed`, `Honest.linked`);
- each names the user and the grant of the reservation (`Honest.matched`),
  which draws on a grant of its user (`Honest.drawn`);
- a generation's credit is consumed or released, never both
  (`Honest.single`).
-/
import FastRep.Reports.Proofs.CreditChanges
import FastRep.Reports.Proofs.Lifecycle
import FastRep.Reports.Proofs.Reached

namespace FastRep.Reports

open FastRep.Txn FastRep.Accounts

variable {cfg : Config} {start S S' : RState} {t : Tid} {s : Site}
  {ws credit : List (Write Row Key)} {d d' : Db Row} {g : Id}

-- ================================================================== runs

/-- A state of a run in which every commit kept the promise about
credits. -/
structure Honest (cfg : Config) (start S : RState) : Prop where
  runs : Runs (contract cfg start) S
  keeps : S.Keeps Credited

/-- What every commit keeps holds in every such state. -/
theorem Honest.invariant {I : RState → Prop} (h : Honest cfg start S) (hstart : I start)
    (hcommit : ∀ t s ws credit S, Honest cfg start S → I S → Effect cfg t s ws S →
      Move (contract cfg start) t S (S.commit t s ws) → CreditMove S s ws credit →
      Idle (applyAll credit S.db) (applyAll ws S.db) → I (S.commit t s ws))
    (hother : ∀ j S S', I S → Move (contract cfg start) j S S' → S'.db = S.db → I S') : I S := by
  have hall : S.Keeps Credited → I S := by
    refine h.runs.invariant (I := fun S => S.Keeps Credited → I S) (fun _ => hstart) ?_
    intro j S S' hruns ih hm hkeeps
    have hkeeps₀ := hkeeps.of_suffix hm.trace_suffix
    rcases hm.commit_or with ⟨s, ws, hC, -, rfl⟩ | ⟨hdb, -⟩
    · obtain ⟨credit, hmove, hidle⟩ := hC.1.creditMove hkeeps.last
      exact hcommit j s ws credit S ⟨hruns, hkeeps₀⟩ (ih hkeeps₀) hC.1 hm hmove hidle
    · exact hother j S S' (ih hkeeps₀) hm hdb
  exact hall h.keeps

/-- The ledger of every reached state is an honest record of its history. -/
theorem Reached.honest {w : RWorld} (h : Reached cfg w) :
    ∃ start, Begins start ∧ Honest cfg start w.shared := by
  obtain ⟨start, hstart, hruns⟩ := h.runs
  exact ⟨start, hstart, hruns, h.credited⟩

/-- The state an entry of the trace was made in. -/
theorem Honest.at (hstart : Begins start) (h : Honest cfg start S) {newer older : List REntry}
    {e : REntry} (htr : S.trace = newer ++ e :: older) :
    ∃ S₀, Honest cfg start S₀ ∧ S₀.toScene = e.before ∧ S₀.trace = older := by
  obtain ⟨S₀, S₁, hpast, holder⟩ := h.runs.at hstart.trace htr
  refine ⟨S₀, ⟨hpast.runs, h.keeps.of_suffix ?_⟩, hpast.scene, holder⟩
  rw [holder, htr]
  exact ⟨newer ++ [e], by simp⟩

/-- What a commit of the trace did to the credits. -/
theorem Honest.commit_at (hstart : Begins start) (h : Honest cfg start S)
    {newer older : List REntry} {e : REntry} (htr : S.trace = newer ++ e :: older)
    (hev : e.event = .commit s ws) :
    ∃ S₀ credit, Honest cfg start S₀ ∧ S₀.toScene = e.before ∧ S₀.trace = older ∧
      Effect cfg e.tid s ws S₀ ∧ CreditMove S₀ s ws credit ∧
      Idle (applyAll credit S₀.db) (applyAll ws S₀.db) := by
  obtain ⟨S₀, S₁, hpast, holder⟩ := h.runs.at hstart.trace htr
  obtain ⟨⟨heff, -⟩, hS₁⟩ := hpast.commit hev
  have hkeeps : (S₀.commit e.tid s ws).Keeps Credited := by
    rw [← hS₁]
    exact h.keeps.of_suffix (hpast.trace ▸ hpast.suffix)
  obtain ⟨credit, hmove, hidle⟩ := heff.creditMove hkeeps.last
  exact ⟨S₀, credit, ⟨hpast.runs, hkeeps.of_suffix (List.suffix_cons _ _)⟩, hpast.scene, holder,
    heff, hmove, hidle⟩

-- ================================================================ entries

/-- Writes off the ledger leave its postings. -/
theorem Idle.posting?_eq (h : Idle d d') (k : LedgerKey) : posting? d' k = posting? d k := by
  rcases h.entry k with hsame | ⟨l, g, hl, -, -, hl'⟩
  · rw [posting?, hsame, posting?]
  · rw [posting?, hl', posting?, hl]
    rfl

theorem Idle.isSome (h : Idle d d') (k : LedgerKey) :
    (ledger? d' k).isSome = (ledger? d k).isSome := by
  have heq := congrArg Option.isSome (h.posting?_eq k)
  simpa [posting?] using heq

/-- The entries of an action are those of its key. -/
theorem posting?_eq_some {k : LedgerKey} {l : GenerationCreditTransaction} :
    posting? d k = some l ↔ ∃ l', ledger? d k = some l' ∧ l'.unlinked = l :=
  Option.map_eq_some_iff

/-- At the start there is no entry. -/
theorem Begins.ledger?_eq_none (hstart : Begins start) {k : LedgerKey} :
    ledger? start.db k = none :=
  Reports.ledger?_eq_none.mpr (hstart.unused.find?_eq_none (k := .ledger k) (by simp [Key.table])
    (by simp [Key.table]))

/-- At the start there is no grant. -/
theorem Begins.grant?_eq_none (hstart : Begins start) {i : Id} : grant? start.db i = none :=
  Reports.grant?_eq_none.mpr (hstart.unused.find?_eq_none (k := .grant i) (by simp [Key.table])
    (by simp [Key.table]))

section Lookups

variable {x : GenerationCreditGrant} {l : GenerationCreditTransaction} {i : Id} {k : LedgerKey}

theorem grant?_entered :
    grant? (applyAll [.insert (.ledger l)] d) i = grant? d i :=
  grant?_put_of_ne (by simp)

/-- An entry alone is found under its key. -/
theorem ledger?_entered : ledger? (applyAll [.insert (.ledger l)] d) k
    = if l.idempotencyKey = k then some l else ledger? d k :=
  ledger?_put_ledger l

/-- A grant that is drawn on or put back to is the new version. -/
theorem grant?_drawn :
    grant? (applyAll [.update (.grant x), .insert (.ledger l)] d) i
      = if x.id = i then some x else grant? d i :=
  (grant?_put_of_ne (by simp)).trans (grant?_put_grant x)

/-- Its entry is found under its key. -/
theorem ledger?_drawn :
    ledger? (applyAll [.update (.grant x), .insert (.ledger l)] d) k
      = if l.idempotencyKey = k then some l else ledger? d k :=
  (ledger?_put_ledger l).trans (congrArg _ (ledger?_put_of_ne (by simp)))

/-- A new grant is found under its id. -/
theorem grant?_granted :
    grant? (applyAll [.insert (.grant x), .insert (.ledger l)] d) i
      = if x.id = i then some x else grant? d i :=
  (grant?_put_of_ne (by simp)).trans (grant?_put_grant x)

/-- Its entry is found under its key. -/
theorem ledger?_granted :
    ledger? (applyAll [.insert (.grant x), .insert (.ledger l)] d) k
      = if l.idempotencyKey = k then some l else ledger? d k :=
  (ledger?_put_ledger l).trans (congrArg _ (ledger?_put_of_ne (by simp)))

/-- One entry is added under a key that was free. -/
theorem entered_cases {k' : LedgerKey} (h : ∀ k, ledger? (applyAll credit d) k
      = if l.idempotencyKey = k then some l else ledger? d k)
    (hkey : l.idempotencyKey = k') (hnone : ledger? d k' = none)
    (hmem : .insert (.ledger l) ∈ credit) :
    ledger? (applyAll credit d) k = ledger? d k ∨
      ∃ l, ledger? (applyAll credit d) k = some l ∧ l.idempotencyKey = k ∧
        ledger? d k = none ∧ .insert (.ledger l) ∈ credit := by
  rw [h]
  by_cases hk : l.idempotencyKey = k
  · refine Or.inr ⟨l, if_pos hk, hk, ?_, hmem⟩
    rw [← hk, hkey]
    exact hnone
  · exact Or.inl (if_neg hk)

end Lookups

/-- What a credit part leaves under a key: the entry it adds, or what was
there. -/
theorem CreditMove.ledger_cases (h : CreditMove S s ws credit) (k : LedgerKey) :
    ledger? (applyAll credit S.db) k = ledger? S.db k ∨
      ∃ l, ledger? (applyAll credit S.db) k = some l ∧ l.idempotencyKey = k ∧
        ledger? S.db k = none ∧ .insert (.ledger l) ∈ credit := by
  cases h with
  | idle _ => exact Or.inl rfl
  | unspent _ _ => exact Or.inl rfl
  | spent _ _ => exact Or.inl rfl
  | settled _ _ _ => exact Or.inl rfl
  | @granted _ _ x l _ _ _ _ _ _ _ _ _ _ _ hnone =>
      exact entered_cases (fun _ => ledger?_granted) rfl hnone (by simp)
  | @entered _ _ _ x l _ _ _ _ _ _ _ hnone =>
      exact entered_cases (fun _ => ledger?_drawn) rfl hnone (by simp)
  | @reserved _ _ _ _ _ x l _ _ _ _ hentry _ _ hnone =>
      exact entered_cases (fun _ => ledger?_drawn) hentry.idempotencyKey hnone (by simp)
  | @consumed _ _ _ l _ hentry _ hnone _ =>
      exact entered_cases (fun _ => ledger?_entered) hentry.idempotencyKey hnone (by simp)
  | @released _ _ _ x l _ _ _ _ _ hentry _ _ hnone _ =>
      exact entered_cases (fun _ => ledger?_drawn) hentry.idempotencyKey hnone (by simp)

/-- A commit with one entry has no other. -/
theorem entry_of_one {l l' : GenerationCreditTransaction}
    (h : .insert (.ledger l) ∈ [(.insert (.ledger l') : Write Row Key)]) : l = l' := by
  simpa using h

/-- The entries a commit adds for a generation: the reservation of a new
one, or one that settles a stored one. -/
theorem CreditMove.added (h : CreditMove S s ws credit) {l : GenerationCreditTransaction}
    {a : CreditAction} (hmem : .insert (.ledger l) ∈ credit)
    (hkey : l.idempotencyKey = .generation g a) : l.IsEntry g a a.type ∧
      ((a = .reserve ∧ ∃ u r k x, s = .start u r k g ∧ ws ≠ [] ∧ grant? S.db x.id = some x ∧
          x.usable u S.clock = true ∧ l.grantId = some x.id ∧ l.userId = u) ∨
        (a ≠ .reserve ∧ (generation? S.db g).isSome = true ∧ Matches g l S ∧
          NoTerminal g S.db)) := by
  cases h with
  | granted _ _ _ _ _ _ _ _ _ hk _ _ =>
      have hl := entry_of_grant (by simp) hmem
      exact absurd (hl ▸ hkey) (hk g a)
  | entered _ _ _ _ _ _ hk _ =>
      have hl := entry_of_grant (by simp) hmem
      rw [hl, hk] at hkey
      cases hkey
  | reserved hne hx _ husable hentry hgrant huser _ =>
      have hl := entry_of_grant (by simp) hmem
      rw [hl, hentry.idempotencyKey] at hkey
      cases hkey
      rw [hl]
      exact ⟨hentry, Or.inl ⟨rfl, _, _, _, _, rfl, hne, hx, husable, hgrant, huser⟩⟩
  | consumed hgen hentry hmatch _ hterm =>
      have hl := entry_of_one hmem
      rw [hl, hentry.idempotencyKey] at hkey
      cases hkey
      rw [hl]
      exact ⟨hentry, Or.inr ⟨by simp, hgen, hmatch, hterm⟩⟩
  | released _ _ hgen _ _ hentry _ hmatch _ hterm =>
      have hl := entry_of_grant (by simp) hmem
      rw [hl, hentry.idempotencyKey] at hkey
      cases hkey
      rw [hl]
      exact ⟨hentry, Or.inr ⟨by simp, hgen, hmatch, hterm⟩⟩
  | _ => cases hmem

/-- An entry of a generation is added at a site of its action. -/
theorem CreditMove.added_site (h : CreditMove S s ws credit) {l : GenerationCreditTransaction}
    {a : CreditAction} (hmem : .insert (.ledger l) ∈ credit)
    (hkey : l.idempotencyKey = .generation g a) :
    s.enters g a = true ∧ (a = .release → ws ≠ []) := by
  cases h with
  | granted _ _ _ _ _ _ _ _ _ hk _ _ =>
      have hl := entry_of_grant (by simp) hmem
      exact absurd (hl ▸ hkey) (hk g a)
  | entered _ _ _ _ _ _ hk _ =>
      have hl := entry_of_grant (by simp) hmem
      rw [hl, hk] at hkey
      cases hkey
  | reserved _ _ _ _ hentry _ _ _ =>
      have hl := entry_of_grant (by simp) hmem
      rw [hl, hentry.idempotencyKey] at hkey
      cases hkey
      exact ⟨by simp [Site.enters], by simp⟩
  | consumed _ hentry _ _ _ =>
      have hl := entry_of_one hmem
      rw [hl, hentry.idempotencyKey] at hkey
      cases hkey
      exact ⟨by simp [Site.enters], by simp⟩
  | released hs hne _ _ _ hentry _ _ _ _ =>
      have hl := entry_of_grant (by simp) hmem
      rw [hl, hentry.idempotencyKey] at hkey
      cases hkey
      exact ⟨by simpa [Site.enters] using hs, fun _ => hne⟩
  | _ => cases hmem

/-- Only entries of generations name one. -/
theorem CreditMove.added_key (h : CreditMove S s ws credit) {l : GenerationCreditTransaction}
    (hmem : .insert (.ledger l) ∈ credit) (hname : l.generationId = some g) :
    ∃ a, l.idempotencyKey = .generation g a := by
  cases h with
  | granted _ _ _ _ _ hnone _ _ _ _ _ _ =>
      have hl := entry_of_grant (by simp) hmem
      rw [hl, hnone] at hname
      cases hname
  | entered _ _ hnone _ _ _ _ _ =>
      have hl := entry_of_grant (by simp) hmem
      rw [hl, hnone] at hname
      cases hname
  | reserved _ _ _ _ hentry _ _ _ =>
      have hl := entry_of_grant (by simp) hmem
      rw [hl, hentry.generationId] at hname
      cases hname
      exact ⟨_, hl ▸ hentry.idempotencyKey⟩
  | consumed _ hentry _ _ _ =>
      have hl := entry_of_one hmem
      rw [hl, hentry.generationId] at hname
      cases hname
      exact ⟨_, hl ▸ hentry.idempotencyKey⟩
  | released _ _ _ _ _ hentry _ _ _ _ =>
      have hl := entry_of_grant (by simp) hmem
      rw [hl, hentry.generationId] at hname
      cases hname
      exact ⟨_, hl ▸ hentry.idempotencyKey⟩
  | _ => cases hmem

/-- An entry after a commit was there before or is added by it, and may
have lost the name of a generation that is gone. -/
theorem CreditMove.entry_after (h : CreditMove S s ws credit)
    (hidle : Idle (applyAll credit S.db) d') {k : LedgerKey} {l' : GenerationCreditTransaction}
    (hl' : ledger? d' k = some l') :
    ∃ l, (ledger? S.db k = some l ∨ (.insert (.ledger l) ∈ credit ∧ l.idempotencyKey = k)) ∧
      (l' = l ∨ ∃ g, l.generationId = some g ∧ generation? d' g = none ∧ l' = l.unlinked) := by
  have hbefore : ∀ l, ledger? (applyAll credit S.db) k = some l →
      ledger? S.db k = some l ∨ (.insert (.ledger l) ∈ credit ∧ l.idempotencyKey = k) := by
    intro l hl
    rcases h.ledger_cases k with hsame | ⟨l₁, hl₁, hkey, -, hmem⟩
    · exact Or.inl (hsame ▸ hl)
    · rw [hl₁] at hl
      cases hl
      exact Or.inr ⟨hmem, hkey⟩
  rcases hidle.entry k with hsame | ⟨l, g, hl, hname, hgone, hcleared⟩
  · exact ⟨l', hbefore l' (hsame ▸ hl'), Or.inl rfl⟩
  · rw [hcleared] at hl'
    cases hl'
    exact ⟨l, hbefore l hl, Or.inr ⟨g, hname, hgone, rfl⟩⟩

/-- A grant is not removed, and keeps all but its remaining credits. -/
theorem CreditMove.grant_kept (h : CreditMove S s ws credit)
    (hidle : Idle (applyAll credit S.db) d') {i : Id} {x : GenerationCreditGrant}
    (hx : grant? S.db i = some x) :
    ∃ n, grant? d' i = some { x with remainingCredits := n } := by
  rw [hidle.grant]
  have hset : ∀ (y : GenerationCreditGrant) (n : Int), grant? S.db y.id = some y →
      ∃ m, (if y.id = i then some { y with remainingCredits := n } else grant? S.db i)
        = some { x with remainingCredits := m } := by
    intro y n hy
    by_cases hi : y.id = i
    · rw [← hi, hy] at hx
      cases hx
      exact ⟨n, if_pos hi⟩
    · exact ⟨x.remainingCredits, by rw [if_neg hi]; exact hx⟩
  cases h with
  | @granted _ _ y _ _ hnone =>
      rw [grant?_granted]
      by_cases hi : y.id = i
      · rw [← hi, hnone] at hx
        cases hx
      · exact ⟨x.remainingCredits, by rw [if_neg hi]; exact hx⟩
  | @entered _ _ _ y _ hy _ _ _ _ _ _ _ =>
      rw [grant?_drawn]
      exact hset y y.remainingCredits hy
  | @reserved _ _ _ _ _ y _ _ hy _ _ _ _ _ _ =>
      rw [grant?_drawn]
      exact hset y _ hy
  | consumed _ _ _ _ _ =>
      rw [grant?_entered]
      exact ⟨x.remainingCredits, hx⟩
  | @released _ _ _ y _ _ _ _ hy _ _ _ _ _ _ =>
      rw [grant?_drawn]
      exact hset y _ hy
  | _ => exact ⟨x.remainingCredits, hx⟩

/-- No entry is removed or changed. -/
theorem CreditMove.entry_kept (h : CreditMove S s ws credit)
    (hidle : Idle (applyAll credit S.db) d') {k : LedgerKey} {l : GenerationCreditTransaction}
    (hl : posting? S.db k = some l) : posting? d' k = some l := by
  rw [hidle.posting?_eq]
  rcases h.ledger_cases k with hsame | ⟨l', -, -, hnone, -⟩
  · rw [posting?, hsame]
    exact hl
  · rw [posting?, hnone] at hl
    cases hl

/-- An entry that was read once is still there. -/
theorem Honest.entry_kept (hstart : Begins start) (h : Honest cfg start S) {e : REntry}
    (he : e ∈ S.trace) {k : LedgerKey} {l : GenerationCreditTransaction}
    (hl : posting? e.before.db k = some l) : posting? S.db k = some l := by
  have hall : ∀ e ∈ S.trace, ∀ k l, posting? e.before.db k = some l → posting? S.db k = some l := by
    refine h.invariant (I := fun S => ∀ e ∈ S.trace, ∀ k l, posting? e.before.db k = some l →
      posting? S.db k = some l) ?_ ?_ ?_
    · intro e he
      rw [hstart.trace] at he
      cases he
    · intro t s ws credit S _ ih _ _ hmove hidle e he k l hl
      apply hmove.entry_kept hidle
      rcases List.mem_cons.mp he with rfl | he
      · exact hl
      · exact ih e he k l hl
    · intro j S S' ih hm hdb e he k l hl
      rw [hdb]
      rcases hm.mem_trace he with he | he
      · exact ih e he k l hl
      · rw [he] at hl
        exact hl
  exact hall e he k l hl

-- ============================================================ the records

/-- The entries of a generation were made by it. -/
theorem Honest.entry_created (hstart : Begins start) (h : Honest cfg start S) {a : CreditAction}
    (hl : (ledger? S.db (.generation g a)).isSome = true) : Created S g := by
  revert hl
  refine h.invariant (I := fun S => (ledger? S.db (.generation g a)).isSome = true →
    Created S g) ?_ ?_ ?_
  · intro hl
    rw [hstart.ledger?_eq_none] at hl
    cases hl
  · intro t s ws credit S hS ih heff hm hmove hidle hl
    change (ledger? (applyAll ws S.db) _).isSome = true at hl
    rw [hidle.isSome] at hl
    rcases hmove.ledger_cases (.generation g a) with hsame | ⟨l, -, hkey, -, hmem⟩
    · rw [hsame] at hl
      exact (ih hl).mono (List.suffix_cons _ _)
    · obtain ⟨-, ⟨-, u, r, k, x, rfl, hne, -⟩ | ⟨-, hgen, -⟩⟩ := hmove.added hmem hkey
      · refine ⟨_, List.mem_cons_self, ?_⟩
        cases ws with
        | nil => exact absurd rfl hne
        | cons w ws => exact List.mem_singleton_self g
      · obtain ⟨x, hx⟩ := Option.isSome_iff_exists.mp hgen
        have hused := (hS.runs.persists (lasting_generation hstart g)).created x hx
        exact Created.mono hused (List.suffix_cons _ _)
  · intro j S S' ih hm hdb hl
    rw [hdb] at hl
    exact (ih hl).mono hm.trace_suffix

/-- A generation that appears with a commit has no entries yet. -/
theorem Honest.fresh (hstart : Begins start) (h : Honest cfg start S)
    (hm : Move (contract cfg start) t S (S.commit t s ws))
    (hcreates : g ∈ creates ⟨t, .commit s ws, S.toScene⟩) (a : CreditAction) :
    ledger? S.db (.generation g a) = none := by
  by_contra hsome
  obtain ⟨e, he, hi⟩ := h.entry_created hstart (Option.isSome_iff_ne_none.mpr hsome)
  exact Runs.not_created_again hstart h.runs hm he hi hcreates

/-- Every entry of a generation is of its action. -/
theorem Honest.typed (hstart : Begins start) (h : Honest cfg start S) :
    ∀ g a l, ledger? S.db (.generation g a) = some l → l.type = a.type ∧ l.amount = 1 := by
  refine h.invariant (I := fun S => ∀ g a l, ledger? S.db (.generation g a) = some l →
    l.type = a.type ∧ l.amount = 1) ?_ ?_ ?_
  · intro g a l hl
    rw [hstart.ledger?_eq_none] at hl
    cases hl
  · intro t s ws credit S _ ih _ _ hmove hidle g a l' hl'
    obtain ⟨l, hl, hl'⟩ := hmove.entry_after hidle hl'
    have htyped : l.type = a.type ∧ l.amount = 1 := by
      rcases hl with hl | ⟨hmem, hkey⟩
      · exact ih g a l hl
      · have hentry := (hmove.added hmem hkey).1
        exact ⟨hentry.type, hentry.amount⟩
    rcases hl' with rfl | ⟨i, -, -, rfl⟩ <;> exact htyped
  · intro j S S' ih _ hdb
    rw [hdb]
    exact ih

/-- An entry that names a generation stands under a key of it. -/
theorem Honest.keyed (hstart : Begins start) (h : Honest cfg start S) :
    ∀ k l g, ledger? S.db k = some l → l.generationId = some g → ∃ a, k = .generation g a := by
  refine h.invariant (I := fun S => ∀ k l g, ledger? S.db k = some l →
    l.generationId = some g → ∃ a, k = .generation g a) ?_ ?_ ?_
  · intro k l g hl
    rw [hstart.ledger?_eq_none] at hl
    cases hl
  · intro t s ws credit S _ ih _ _ hmove hidle k l' g hl' hname
    obtain ⟨l, hl, rfl | ⟨i, -, -, rfl⟩⟩ := hmove.entry_after hidle hl'
    · rcases hl with hl | ⟨hmem, rfl⟩
      · exact ih k l' g hl hname
      · exact hmove.added_key hmem hname
    · cases hname
  · intro j S S' ih _ hdb
    rw [hdb]
    exact ih

/-- While a generation is stored its entries name it. -/
theorem Honest.linked (hstart : Begins start) (h : Honest cfg start S) :
    ∀ g a l, ledger? S.db (.generation g a) = some l → (generation? S.db g).isSome = true →
      l.generationId = some g := by
  refine h.invariant (I := fun S => ∀ g a l, ledger? S.db (.generation g a) = some l →
    (generation? S.db g).isSome = true → l.generationId = some g) ?_ ?_ ?_
  · intro g a l hl
    rw [hstart.ledger?_eq_none] at hl
    cases hl
  · intro t s ws credit S hS ih heff hm hmove hidle g a l' hl' hgen
    obtain ⟨l, hl, hl'⟩ := hmove.entry_after hidle hl'
    have hname : l.generationId = some g := by
      rcases hl with hl | ⟨hmem, hkey⟩
      · apply ih g a l hl
        by_contra hnone
        rw [Bool.not_eq_true, Option.isSome_eq_false_iff, Option.isNone_iff_eq_none] at hnone
        obtain ⟨y, hy⟩ := Option.isSome_iff_exists.mp hgen
        have hcreates := heff.creates_generation hnone hy S.toScene
        rw [hS.fresh hstart hm hcreates a] at hl
        cases hl
      · exact (hmove.added hmem hkey).1.generationId
    rcases hl' with rfl | ⟨i, hi, hgone, -⟩
    · exact hname
    · rw [hname] at hi
      cases hi
      rw [show generation? (S.commit t s ws).db g = _ from hgone] at hgen
      cases hgen
  · intro j S S' ih _ hdb
    rw [hdb]
    exact ih

/-- A reservation draws on a grant of its user. -/
theorem Honest.drawn (hstart : Begins start) (h : Honest cfg start S) :
    ∀ g r, posting? S.db (.generation g .reserve) = some r →
      ∃ i x, r.grantId = some i ∧ grant? S.db i = some x ∧ x.userId = r.userId := by
  refine h.invariant (I := fun S => ∀ g r, posting? S.db (.generation g .reserve) = some r →
    ∃ i x, r.grantId = some i ∧ grant? S.db i = some x ∧ x.userId = r.userId) ?_ ?_ ?_
  · intro g r hr
    rw [posting?, hstart.ledger?_eq_none] at hr
    cases hr
  · intro t s ws credit S _ ih _ _ hmove hidle g r hr
    change posting? (applyAll ws S.db) _ = _ at hr
    have hbefore : ∃ i x, r.grantId = some i ∧ grant? S.db i = some x ∧
        x.userId = r.userId := by
      rw [hidle.posting?_eq, posting?] at hr
      rcases hmove.ledger_cases (.generation g .reserve) with hsame | ⟨l, hl, hkey, -, hmem⟩
      · rw [hsame] at hr
        exact ih g r hr
      · rw [hl] at hr
        cases hr
        obtain ⟨-, ⟨-, u, _, k, x, rfl, -, hx, husable, hgrant, huser⟩ | ⟨hne, -⟩⟩ :=
          hmove.added hmem hkey
        · refine ⟨x.id, x, hgrant, hx, ?_⟩
          simp only [GenerationCreditGrant.usable, Bool.and_eq_true, decide_eq_true_eq] at husable
          rw [husable.1.1.1]
          exact huser.symm
        · exact absurd rfl hne
    obtain ⟨i, x, hgrant, hx, huser⟩ := hbefore
    obtain ⟨n, hn⟩ := hmove.grant_kept hidle hx
    exact ⟨i, _, hgrant, hn, huser⟩
  · intro j S S' ih _ hdb
    rw [hdb]
    exact ih

/-- A stored generation has a reservation of its user. -/
theorem Honest.reserved (hstart : Begins start) (h : Honest cfg start S) :
    ∀ g x, generation? S.db g = some x →
      ∃ r, posting? S.db (.generation g .reserve) = some r ∧ r.userId = x.userId := by
  refine h.invariant (I := fun S => ∀ g x, generation? S.db g = some x →
    ∃ r, posting? S.db (.generation g .reserve) = some r ∧ r.userId = x.userId) ?_ ?_ ?_
  · intro g x hx
    have hnone : generation? start.db g = none := generation?_eq_none.mpr
      (hstart.unused.find?_eq_none (k := .generation g) (by simp [Key.table]) (by simp [Key.table]))
    rw [hnone] at hx
    cases hx
  · intro t s ws credit S hS ih heff hm hmove hidle g y hy
    change generation? (applyAll ws S.db) g = some y at hy
    cases hbefore : generation? S.db g with
    | some x =>
        obtain ⟨r, hr, huser⟩ := ih g x hbefore
        refine ⟨r, hmove.entry_kept hidle hr, huser.trans ?_⟩
        exact (heff.origin hbefore hy).userId.symm
    | none =>
        have hcreates := heff.creates_generation hbefore hy S.toScene
        have hfresh := hS.fresh hstart hm hcreates .reserve
        rcases heff.generation g with hsame | hchange
        · rw [hsame, hbefore] at hy
          cases hy
        rw [hbefore, hy] at hchange
        cases hchange
        cases hmove with
        | idle hreason =>
            rcases hreason with hsite | rfl
            · cases hsite
            · rw [show generation? S.db g = _ from hy] at hbefore
              cases hbefore
        | unspent _ hsome =>
            rw [hfresh] at hsome
            cases hsome
        | settled hsite => cases hsite
        | granted hsite =>
            rcases hsite with ⟨_, _, hsite⟩ | ⟨_, hsite⟩ <;> cases hsite
        | @reserved _ _ _ _ _ _ l _ _ _ _ hentry _ huser _ =>
            refine ⟨l.unlinked, ?_, huser⟩
            change posting? (applyAll ws S.db) _ = _
            rw [hidle.posting?_eq, posting?, ledger?_drawn, if_pos hentry.idempotencyKey]
            rfl
        | released hsite => cases hsite
  · intro j S S' ih _ hdb
    rw [hdb]
    exact ih

/-- Every entry of a generation names the user and the grant of its
reservation. -/
theorem Honest.matched (hstart : Begins start) (h : Honest cfg start S) :
    ∀ g a l, posting? S.db (.generation g a) = some l →
      ∃ r, posting? S.db (.generation g .reserve) = some r ∧ l.userId = r.userId ∧
        l.grantId = r.grantId := by
  refine h.invariant (I := fun S => ∀ g a l, posting? S.db (.generation g a) = some l →
    ∃ r, posting? S.db (.generation g .reserve) = some r ∧ l.userId = r.userId ∧
      l.grantId = r.grantId) ?_ ?_ ?_
  · intro g a l hl
    rw [posting?, hstart.ledger?_eq_none] at hl
    cases hl
  · intro t s ws credit S hS ih _ _ hmove hidle g a l hl
    change posting? (applyAll ws S.db) _ = _ at hl
    have hafter := hl
    rw [hidle.posting?_eq, posting?] at hl
    rcases hmove.ledger_cases (.generation g a) with hsame | ⟨l₁, hl₁, hkey, -, hmem⟩
    · rw [hsame] at hl
      obtain ⟨r, hr, hmatch⟩ := ih g a l hl
      exact ⟨r, hmove.entry_kept hidle hr, hmatch⟩
    · rw [hl₁] at hl
      cases hl
      obtain ⟨-, ⟨rfl, -⟩ | ⟨-, -, ⟨e, he, r, hr, huser, hgrant⟩, -⟩⟩ := hmove.added hmem hkey
      · exact ⟨_, hafter, rfl, rfl⟩
      · have hread : posting? e.before.db (.generation g .reserve) = some r.unlinked :=
          posting?_eq_some.mpr ⟨r, hr, rfl⟩
        exact ⟨_, hmove.entry_kept hidle (hS.entry_kept hstart he hread), huser, hgrant⟩
  · intro j S S' ih _ hdb
    rw [hdb]
    exact ih

/-- The entries that settle a stored generation are the ones the terminal
index guards. -/
theorem Honest.unsettled (hstart : Begins start) (h : Honest cfg start S)
    (hgen : (generation? S.db g).isSome = true) (hterm : NoTerminal g S.db) {a : CreditAction}
    (ha : a ≠ .reserve) : ledger? S.db (.generation g a) = none := by
  cases hl : ledger? S.db (.generation g a) with
  | none => rfl
  | some l =>
      have hname := h.linked hstart g a l hl hgen
      have hmem : l ∈ ledger S.db := by
        rw [mem_ledger, ledger?_key hl]
        exact hl
      have hfalse := hterm l hmem hname
      rw [(h.typed hstart g a l hl).1] at hfalse
      cases a with
      | reserve => exact absurd rfl ha
      | consume => cases hfalse
      | release => cases hfalse

/-- A credit is consumed or released, never both. -/
theorem Honest.single (hstart : Begins start) (h : Honest cfg start S) :
    ∀ g, ledger? S.db (.generation g .consume) = none ∨
      ledger? S.db (.generation g .release) = none := by
  refine h.invariant (I := fun S => ∀ g, ledger? S.db (.generation g .consume) = none ∨
    ledger? S.db (.generation g .release) = none) ?_ ?_ ?_
  · intro g
    exact Or.inl hstart.ledger?_eq_none
  · intro t s ws credit S hS ih _ _ hmove hidle g
    have hnone : ∀ {a : CreditAction}, ledger? (applyAll credit S.db) (.generation g a) = none →
        ledger? (applyAll ws S.db) (.generation g a) = none := by
      intro a ha
      have hsome := hidle.isSome (.generation g a)
      rw [ha] at hsome
      simpa using hsome
    -- the commit adds one entry at most, to a generation that had none
    rcases hmove.ledger_cases (.generation g .consume) with hsame | ⟨l, -, hkey, -, hmem⟩
    · rcases hmove.ledger_cases (.generation g .release) with hsame' | ⟨l, -, hkey, -, hmem⟩
      · rcases ih g with hconsume | hrelease
        · exact Or.inl (hnone (hsame.trans hconsume))
        · exact Or.inr (hnone (hsame'.trans hrelease))
      · obtain ⟨-, ⟨hne, -⟩ | ⟨-, hgen, -, hterm⟩⟩ := hmove.added hmem hkey
        · cases hne
        · exact Or.inl (hnone (hsame.trans (hS.unsettled hstart hgen hterm (by simp))))
    · obtain ⟨-, ⟨hne, -⟩ | ⟨-, hgen, -, hterm⟩⟩ := hmove.added hmem hkey
      · cases hne
      · rcases hmove.ledger_cases (.generation g .release) with hsame' | ⟨l', -, hkey', -, hmem'⟩
        · exact Or.inr (hnone (hsame'.trans (hS.unsettled hstart hgen hterm (by simp))))
        · cases hmove with
          | consumed _ hentry _ _ _ =>
              have hl' := entry_of_one hmem'
              rw [hl', hentry.idempotencyKey] at hkey'
              cases hkey'
          | granted _ _ _ _ _ _ _ _ _ hk _ _ =>
              have hl := entry_of_grant (by simp) hmem
              exact absurd (hl ▸ hkey) (hk _ _)
          | entered _ _ _ _ _ _ hk _ =>
              have hl := entry_of_grant (by simp) hmem
              rw [hl, hk] at hkey
              cases hkey
          | reserved _ _ _ _ hentry _ _ _ =>
              have hl := entry_of_grant (by simp) hmem
              rw [hl, hentry.idempotencyKey] at hkey
              cases hkey
          | released _ _ _ _ _ hentry _ _ _ _ =>
              have hl := entry_of_grant (by simp) hmem
              rw [hl, hentry.idempotencyKey] at hkey
              cases hkey
          | _ => cases hmem
  · intro j S S' ih _ hdb
    rw [hdb]
    exact ih

end FastRep.Reports
