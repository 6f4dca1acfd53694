/-
The grants and the ledger are kept as the books of credit accounts.

A commit is one entry of the books or leaves them alone
(`Honest.book_step`), so every state of the machine has books that were
kept from empty ones, and what is true of such books is true of it: no
credit is lost, none is made, and none is taken twice. From one state of a run
to a later one they were kept too (`Honest.books_kept_since`).

# From rows to books

Each kind of move has a lemma that says what it is in the books:
`books_granted` opens an account, `books_reserved` reserves, `books_released`
releases, `books_consumed` consumes, and writes off the ledger are nothing
(`Idle.books_eq`). That a reservation is open when something settles it
(`Honest.books_unsettled`) is where the unique index on the terminal entries
comes in: a stored generation keeps its name on its entries.

Nothing is asked of the run. The books are kept whatever overlaps, and with
any number of generations of a user under way.
-/
import FastRep.Reports.Proofs.CreditRecords

namespace FastRep.Reports

open FastRep.Txn FastRep.Accounts
open Function (update)

variable {cfg : Config} {start S : RState} {t : Tid} {s : Site}
  {ws credit : List (Write Row Key)} {d d' : Db Row} {g : Id}

-- =============================================================== the books

/-- The books read no more than grants and entries. -/
theorem books_congr (hgrant : ∀ i, grant? d' i = grant? d i)
    (hentry : ∀ k, posting? d' k = posting? d k) : books d' = books d := by
  have hsome : ∀ k, (ledger? d' k).isSome = (ledger? d k).isSome := by
    intro k
    simpa [posting?] using congrArg Option.isSome (hentry k)
  have hof : ∀ g, (ledger? d' (.generation g .reserve)).bind (·.grantId)
      = (ledger? d (.generation g .reserve)).bind (·.grantId) := by
    intro g
    have heq := congrArg (·.bind (·.grantId)) (hentry (.generation g .reserve))
    simp only [posting?, Option.bind_map, Function.comp_def] at heq
    exact heq
  simp only [books, hgrant, hsome, hof]

/-- Writes off the ledger leave the books alone. -/
theorem Idle.books_eq (h : Idle d d') : books d' = books d :=
  books_congr h.grant h.posting?_eq

section Entries

variable {x y : GenerationCreditGrant} {l : GenerationCreditTransaction}
  (hgrant : ∀ i, grant? d' i = if y.id = i then some y else grant? d i)
  (hledger : ∀ k, ledger? d' k = if l.idempotencyKey = k then some l else ledger? d k)

include hgrant hledger

/-- A new grant with its entry opens an account. -/
theorem books_granted (hrem : y.remainingCredits = y.totalCredits)
    (hk : ∀ g a, l.idempotencyKey ≠ .generation g a) :
    books d' = (books d).opening y.id y.totalCredits := by
  apply Books.ext
  · funext i
    by_cases hi : y.id = i
    · simp [books, hgrant, Books.opening, hi]
    · simp [books, hgrant, Books.opening, hi, Function.update_of_ne (Ne.symm hi)]
  · funext i
    by_cases hi : y.id = i
    · simp [books, hgrant, Books.opening, hi, hrem]
    · simp [books, hgrant, Books.opening, hi, Function.update_of_ne (Ne.symm hi)]
  · funext j
    simp [books, hledger, Books.opening, hk j]
  · funext j
    simp [books, hledger, Books.opening, hk j]

/-- A grant written back as it is, with a GRANT entry. -/
theorem books_entered (hy : grant? d y.id = some y)
    (hk : ∀ g a, l.idempotencyKey ≠ .generation g a) : books d' = books d := by
  apply Books.ext
  · funext i
    by_cases hi : y.id = i
    · simp [books, hgrant, ← hi, hy]
    · simp [books, hgrant, hi]
  · funext i
    by_cases hi : y.id = i
    · simp [books, hgrant, ← hi, hy]
    · simp [books, hgrant, hi]
  · funext j
    simp [books, hledger, hk j]
  · funext j
    simp [books, hledger, hk j]

/-- A drawn credit with its entry is a reservation. -/
theorem books_reserved (hx : grant? d y.id = some x) (htotal : y.totalCredits = x.totalCredits)
    (hrem : y.remainingCredits = x.remainingCredits - 1)
    (hk : l.idempotencyKey = .generation g .reserve) (hl : l.grantId = some y.id) :
    books d' = (books d).reserve y.id g := by
  apply Books.ext
  · funext i
    by_cases hi : y.id = i
    · simp [books, hgrant, Books.reserve, ← hi, hx, htotal]
    · simp [books, hgrant, Books.reserve, hi]
  · funext i
    by_cases hi : y.id = i
    · simp [books, hgrant, Books.reserve, ← hi, hx, hrem]
    · simp [books, hgrant, Books.reserve, hi, Function.update_of_ne (Ne.symm hi)]
  · funext j
    by_cases hj : g = j
    · simp [books, hledger, Books.reserve, hk, hj, hl]
    · simp [books, hledger, Books.reserve, hk, hj, Function.update_of_ne (Ne.symm hj)]
  · funext j
    simp [books, hledger, Books.reserve, hk]

/-- A credit that is put back with its entry is a release. -/
theorem books_released (hx : grant? d y.id = some x) (htotal : y.totalCredits = x.totalCredits)
    (hrem : y.remainingCredits = x.remainingCredits + 1)
    (hk : l.idempotencyKey = .generation g .release)
    (hnone : ledger? d (.generation g .consume) = none) :
    books d' = (books d).release y.id g := by
  apply Books.ext
  · funext i
    by_cases hi : y.id = i
    · simp [books, hgrant, Books.release, ← hi, hx, htotal]
    · simp [books, hgrant, Books.release, hi]
  · funext i
    by_cases hi : y.id = i
    · simp [books, hgrant, Books.release, ← hi, hx, hrem]
    · simp [books, hgrant, Books.release, hi, Function.update_of_ne (Ne.symm hi)]
  · funext j
    simp [books, hledger, Books.release, hk]
  · funext j
    by_cases hj : g = j
    · simp [books, hledger, Books.release, hk, ← hj, hnone]
    · simp [books, hledger, Books.release, hk, hj, Function.update_of_ne (Ne.symm hj)]

omit hgrant in
/-- An entry of consumption is one in the books. -/
theorem books_consumed (hsame : ∀ i, grant? d' i = grant? d i)
    (hk : l.idempotencyKey = .generation g .consume) : books d' = (books d).consume g := by
  apply Books.ext
  · funext i
    simp [books, hsame, Books.consume]
  · funext i
    simp [books, hsame, Books.consume]
  · funext j
    simp [books, hledger, Books.consume, hk]
  · funext j
    by_cases hj : g = j
    · simp [books, hledger, Books.consume, hk, hj]
    · simp [books, hledger, Books.consume, hk, hj, Function.update_of_ne (Ne.symm hj)]

end Entries

/-- A reservation is open where neither of the entries that settle it is
there. -/
theorem books_settled_eq_none :
    (books d).settled g = none ↔ ledger? d (.generation g .consume) = none ∧
      ledger? d (.generation g .release) = none := by
  simp only [books]
  split
  next h => simp [Option.isSome_iff_ne_none.mp h]
  next h =>
      split
      next h' => simp [Option.isSome_iff_ne_none.mp h']
      next h' => simp_all

/-- A credit is consumed where the ledger says so. -/
theorem books_settled_eq_consumed :
    (books d).settled g = some .consumed ↔
      (ledger? d (.generation g .consume)).isSome = true := by
  simp only [books]
  split_ifs <;> simp_all

-- ================================================================== steps

/-- An entry of a generation names the account of its reservation. -/
theorem Honest.reserved_of_matches (hstart : Begins start) (hS : Honest cfg start S)
    {l : GenerationCreditTransaction} (h : Matches g l S) :
    ∃ i, l.grantId = some i ∧ (books S.db).reserved g = some i := by
  obtain ⟨e, he, r, hr, -, hgrant⟩ := h
  have hkept := hS.entry_kept hstart he (posting?_eq_some.mpr ⟨r, hr, rfl⟩)
  obtain ⟨i, -, hi, -, -⟩ := hS.drawn hstart g _ hkept
  obtain ⟨r', hr', heq⟩ := posting?_eq_some.mp hkept
  refine ⟨i, hgrant.trans hi, ?_⟩
  simp only [books, hr', Option.bind_some]
  exact (congrArg (·.grantId) heq).trans hi

/-- What settles a stored generation finds its books unsettled. -/
theorem Honest.books_unsettled (hstart : Begins start) (hS : Honest cfg start S)
    (hgen : (generation? S.db g).isSome = true) (hterm : NoTerminal g S.db) :
    (books S.db).settled g = none :=
  books_settled_eq_none.mpr ⟨hS.unsettled hstart hgen hterm (by simp),
    hS.unsettled hstart hgen hterm (by simp)⟩

/-- A commit is one entry in the books, or leaves them alone. -/
theorem Honest.book_step (hstart : Begins start) (hS : Honest cfg start S)
    (hm : Move (contract cfg start) t S (S.commit t s ws)) (hmove : CreditMove S s ws credit)
    (hidle : Idle (applyAll credit S.db) (applyAll ws S.db)) :
    books (applyAll ws S.db) = books S.db ∨
      Books.Step (books S.db) (books (applyAll ws S.db)) := by
  rw [hidle.books_eq]
  cases hmove with
  | @granted _ _ x l _ hnone hpos hrem _ _ _ _ _ hk _ _ =>
      refine Or.inr ?_
      rw [books_granted (fun _ => grant?_granted) (fun _ => ledger?_granted) hrem hk]
      refine .opened ?_ hpos
      simp [books, hnone]
  | @entered u k _ x l hx _ _ _ _ _ hkey _ =>
      refine Or.inl ?_
      refine books_entered (fun _ => grant?_drawn) (fun _ => ledger?_drawn) hx ?_
      simp [hkey]
  | @reserved u r k i _ x l hne hx hpos _ hentry hl _ hnone =>
      refine Or.inr ?_
      have hcreates : i ∈ creates ⟨t, .commit (.start u r k i) ws, S.toScene⟩ := by
        cases ws with
        | nil => exact absurd rfl hne
        | cons w ws => exact List.mem_singleton_self i
      have hx' : grant? S.db
          ({ x with remainingCredits := x.remainingCredits - 1 } : GenerationCreditGrant).id
            = some x := hx
      rw [books_reserved (fun _ => grant?_drawn) (fun _ => ledger?_drawn) hx' rfl rfl
        hentry.idempotencyKey hl]
      refine .reserved ?_ ?_ ?_ ?_
      · simp [books, hx]
      · simpa [books, hx] using hpos
      · simp [books, hnone]
      · rw [books_settled_eq_none]
        exact ⟨hS.fresh hstart hm hcreates .consume, hS.fresh hstart hm hcreates .release⟩
  | consumed hgen hentry hmatch hnone hterm =>
      refine Or.inr ?_
      obtain ⟨i, -, hi⟩ := hS.reserved_of_matches hstart hmatch
      rw [books_consumed (fun _ => ledger?_entered) (fun _ => grant?_entered)
        hentry.idempotencyKey]
      exact .consumed hi (hS.books_unsettled hstart hgen hterm)
  | @released _ i _ x l _ _ hgen hx hle hentry hl hmatch hnone hterm =>
      refine Or.inr ?_
      obtain ⟨j, hj, hreserved⟩ := hS.reserved_of_matches hstart hmatch
      rw [hl] at hj
      cases hj
      have hx' : grant? S.db
          ({ x with remainingCredits := x.remainingCredits + 1 } : GenerationCreditGrant).id
            = some x := hx
      rw [books_released (fun _ => grant?_drawn) (fun _ => ledger?_drawn) hx' rfl rfl
        hentry.idempotencyKey (hS.unsettled hstart hgen hterm (by simp))]
      exact .released hreserved (hS.books_unsettled hstart hgen hterm)
  | _ => exact Or.inl rfl

/-- The books at the entry, or after what it commits. -/
def booksAfter (e : REntry) : Books Id Id :=
  match e.event with
  | .commit _ ws => books (applyAll ws e.before.db)
  | _ => books e.before.db

/-- Only a commit changes them. -/
theorem booksAfter_of_quiet {e : REntry} (h : ∀ s ws, e.event ≠ .commit s ws) :
    booksAfter e = books e.before.db := by
  unfold booksAfter
  split
  next hev => exact absurd hev (h _ _)
  next => rfl

/-- Through a step, and from it on, the books were kept. -/
theorem Honest.books_kept_since (hstart : Begins start) (h : Honest cfg start S) {e : REntry}
    (he : e ∈ S.trace) :
    Books.Kept (books e.before.db) (booksAfter e) ∧ Books.Kept (booksAfter e) (books S.db) := by
  refine h.invariant (I := fun S => ∀ e ∈ S.trace, Books.Kept (books e.before.db) (booksAfter e) ∧
    Books.Kept (booksAfter e) (books S.db)) ?_ ?_ ?_ e he
  · intro e he
    rw [hstart.trace] at he
    cases he
  · intro t s ws credit S hS ih _ hm hmove hidle e he
    have hstep : Books.Kept (books S.db) (books (applyAll ws S.db)) := by
      rcases hS.book_step hstart hm hmove hidle with hsame | hentry
      · rw [hsame]
        exact .refl
      · exact .single hentry
    rcases List.mem_cons.mp he with rfl | he
    · exact ⟨hstep, .refl⟩
    · exact ⟨(ih e he).1, (ih e he).2.trans hstep⟩
  · intro j S S' ih hm hdb e he
    rw [hdb]
    rcases hm.commit_or with ⟨s, ws, -, -, rfl⟩ | ⟨-, htr | ⟨ev, hev, htr⟩⟩
    · rcases List.mem_cons.mp he with rfl | he
      · rw [show booksAfter (⟨j, .commit s ws, S.toScene⟩ : REntry) = books S.db from
          congrArg books hdb]
        exact ⟨.refl, .refl⟩
      · exact ih e he
    · exact ih e (htr ▸ he)
    · rw [htr] at he
      rcases List.mem_cons.mp he with rfl | he
      · rw [show booksAfter _ = books S.db from booksAfter_of_quiet hev]
        exact ⟨.refl, .refl⟩
      · exact ih e he

-- ============================================================ the machine

/-- A step of the machine from a reached state changes the database only by
a commit that kept the contract and the promise about credits. -/
theorem Reached.commit_or {w w' : RWorld} {a : Action Req Choice} (h : Reached cfg w)
    (hstep : w.apply (app cfg) a = some w') :
    w'.shared.db = w.shared.db ∨ ∃ start t s ws credit, Begins start ∧
      Honest cfg start w.shared ∧ w'.shared = w.shared.commit t s ws ∧
      Move (contract cfg start) t w.shared (w.shared.commit t s ws) ∧
      CreditMove w.shared s ws credit ∧
      Idle (applyAll credit w.shared.db) (applyAll ws w.shared.db) := by
  rcases World.apply_commit_or hstep with hdb | ⟨t, s, ws, hcommit⟩
  · exact Or.inl hdb
  obtain ⟨start, hstart, hhonest⟩ := (h.next hstep).honest
  rw [hcommit] at hhonest
  obtain ⟨hruns, hC, hm⟩ := hhonest.runs.newest hstart.trace
  obtain ⟨credit, hmove, hidle⟩ := hC.1.creditMove hhonest.keeps.last
  refine Or.inr ⟨start, t, s, ws, credit, hstart, ⟨hruns, ?_⟩, hcommit, hm, hmove, hidle⟩
  exact hhonest.keeps.of_suffix (List.suffix_cons _ _)

/-- Every step of the machine is one entry in the books, or none. -/
theorem Reached.books_step {w w' : RWorld} {a : Action Req Choice} (h : Reached cfg w)
    (hstep : w.apply (app cfg) a = some w') :
    books w'.shared.db = books w.shared.db ∨
      Books.Step (books w.shared.db) (books w'.shared.db) := by
  rcases h.commit_or hstep with hdb | ⟨start, t, s, ws, credit, hstart, hS, hcommit, hm, hmove,
    hidle⟩
  · exact Or.inl (congrArg books hdb)
  · rw [hcommit]
    exact hS.book_step hstart hm hmove hidle

/-- The books of a reached state are kept from empty ones. -/
theorem Reached.books_kept {w : RWorld} (h : Reached cfg w) :
    Books.Kept Books.empty (books w.shared.db) := by
  obtain ⟨db, clock, nextId, hunused, hreach⟩ := h
  induction hreach with
  | init =>
      have hempty : books (World.init db ⟨[], [], []⟩ clock nextId : RWorld).shared.db
          = Books.empty := by
        have hstart := begins_init clock nextId hunused
        apply Books.ext <;> funext i <;>
          simp [books, Books.empty, hstart.ledger?_eq_none, hstart.grant?_eq_none]
      rw [hempty]
      exact .refl
  | step a hreach happly ih =>
      have hbefore : Reached cfg _ := ⟨db, clock, nextId, hunused, hreach⟩
      rcases hbefore.books_step happly with hsame | hentry
      · rw [hsame]
        exact ih
      · exact .tail ih hentry

/-- So they balance. -/
theorem Reached.books_balanced {w : RWorld} (h : Reached cfg w) : Balanced (books w.shared.db) :=
  h.books_kept.balanced .empty

/-- The books of a reached state were kept from empty ones, and every step
of the machine is one entry in them or leaves them alone. -/
theorem credit_books_kept (cfg : Config) (w : RWorld) (h : Reached cfg w) :
    Books.Kept Books.empty (books w.shared.db) ∧
      ∀ a w', w.apply (app cfg) a = some w' →
        books w'.shared.db = books w.shared.db ∨
          Books.Step (books w.shared.db) (books w'.shared.db) :=
  ⟨h.books_kept, fun _ _ hstep => h.books_step hstep⟩

/-- A start draws one of five credits. -/
theorem credit_books_kept_started : ∃ w, Reached defaults w ∧
    (books w.shared.db).remaining 11 = 4 ∧ (books w.shared.db).reserved 12 = some 11 ∧
    Books.Kept Books.empty (books w.shared.db) := by
  have hrun : (sampleWorld.runAll (app defaults) generationStarted).any (fun w =>
      (books w.shared.db).remaining 11 = 4 && (books w.shared.db).reserved 12 = some 11)
        = true := by
    decide +kernel
  obtain ⟨w, hw, hp⟩ := exists_reached hrun
  simp only [Bool.and_eq_true, decide_eq_true_eq] at hp
  exact ⟨w, hw, hp.1, hp.2, (credit_books_kept defaults w hw).1⟩

end FastRep.Reports
