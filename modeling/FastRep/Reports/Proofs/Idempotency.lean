/-
What an idempotency key promises to whoever uses it.

At any moment one generation has the key, and of all that were ever started
under it at most one keeps its credit (`Honest.charged_once`). A request that
is answered while a generation has the key is answered with that one, and has
reserved no other credit (`KeyCharged`).

The answer is the part that needs the queue. A generation leaves its key with
its report, or by a compensation (`Runs.row_or_gone`); and a compensation may
remove what another request is about to answer with. It does not if the
queue never takes the job of a generation that is taken back
(`refusedOnly`): an answer has either had the job taken, or found the row
without need of one.
-/
import FastRep.Reports.Proofs.Budget
import FastRep.Reports.Proofs.Compensations

namespace FastRep.Reports

open FastRep.Txn FastRep.Accounts

variable {cfg : Config} {start S S' : RState} {t : Tid} {s : Site} {ws : List (Write Row Key)}
  {w : RWorld} {g g' u r : Id} {k : String}

/-- The commit takes back a generation whose job the queue takes somewhere in the
history. -/
def compensatesTaken (entries : List REntry) (e : REntry) : Bool :=
  match e.event with
  | .commit (.compensateQueueFailure g) (_ :: _) => entries.any (takesJob g)
  | _ => false

/-- The queue never takes the job of a generation that is taken back, before or
after. -/
def refusedOnly (entries : List REntry) : Bool :=
  entries.all fun e => !compensatesTaken entries e

theorem compensatesTaken_iff {entries : List REntry} {e : REntry} :
    compensatesTaken entries e = true ↔
      ∃ g, compensates g e = true ∧ entries.any (takesJob g) = true := by
  constructor
  · intro h
    unfold compensatesTaken at h
    split at h
    next g wr ws hev => exact ⟨g, by simp [compensates, hev], h⟩
    next => cases h
  · rintro ⟨g, hcompensates, htaken⟩
    obtain ⟨ws, hev, hne⟩ := compensates_eq hcompensates
    cases ws with
    | nil => exact absurd rfl hne
    | cons wr ws => simpa [compensatesTaken, hev] using htaken

theorem not_taken_of_compensates (h : refusedOnly S.trace = true) {e : REntry} (he : e ∈ S.trace)
    (hcompensates : compensates g e = true) : S.trace.any (takesJob g) = false := by
  by_contra htaken
  have hentry := List.all_eq_true.mp h e he
  rw [compensatesTaken_iff.mpr ⟨g, hcompensates, (Bool.not_eq_false _).mp htaken⟩] at hentry
  cases hentry

theorem refusedOnly_of_suffix {l l' : List REntry} (hl : l <:+ l') (h : refusedOnly l' = true) :
    refusedOnly l = true := by
  refine List.all_eq_true.mpr fun e he => ?_
  by_contra htaken
  rw [Bool.not_eq_true, Bool.not_eq_false', compensatesTaken_iff] at htaken
  obtain ⟨g, hcompensates, hany⟩ := htaken
  obtain ⟨e', he', htakes⟩ := List.any_eq_true.mp hany
  have hentry := List.all_eq_true.mp h e (hl.subset he)
  rw [compensatesTaken_iff.mpr ⟨g, hcompensates,
    List.any_eq_true.mpr ⟨e', hl.subset he', htakes⟩⟩] at hentry
  cases hentry

-- ==================================================================== rows

/-- A stored generation was started under its key. -/
theorem Runs.started_under (hstart : Begins start) (h : Runs (contract cfg start) S)
    {x : ReportGeneration} (hx : generation? S.db g = some x) :
    StartedUnder S x.userId x.reportId x.idempotencyKey g := by
  refine h.invariant (I := fun S => ∀ x, generation? S.db g = some x →
    StartedUnder S x.userId x.reportId x.idempotencyKey g) ?_ ?_ x hx
  · intro x hx
    have hnone : generation? start.db g = none := generation?_eq_none.mpr
      (hstart.unused.find?_eq_none (k := .generation g) (by simp [Key.table]) (by simp [Key.table]))
    exact absurd (hx.symm.trans hnone) (by simp)
  · intro j S S' hruns ih hm y hy
    have hmono : ∀ {u r k}, StartedUnder S u r k g → StartedUnder S' u r k g := by
      rintro u r k ⟨e, he, hev⟩
      exact ⟨e, hm.trace_suffix.subset he, hev⟩
    rcases hm.commit_or with ⟨s, ws, hC, -, rfl⟩ | ⟨hdb, -⟩
    · change generation? (applyAll ws S.db) g = some y at hy
      cases hx : generation? S.db g with
      | some x =>
          have horigin := hC.1.origin hx hy
          rw [horigin.userId, horigin.reportId, horigin.idempotencyKey]
          exact hmono (ih x hx)
      | none =>
          obtain ⟨rfl, -⟩ := hC.1.key_free hx hy
          refine ⟨_, List.mem_cons_self, ws, rfl, ?_⟩
          rintro rfl
          rw [applyAll_nil, hx] at hy
          cases hy
    · exact hmono (ih y (hdb ▸ hy))

/-- The report of a stored generation is stored. -/
theorem Runs.report_of_generation (hstart : Begins start) (h : Runs (contract cfg start) S)
    {x : ReportGeneration} (hx : generation? S.db g = some x) :
    (report? S.db x.reportId).isSome = true := by
  refine h.invariant (I := fun S => ∀ x, generation? S.db g = some x →
    (report? S.db x.reportId).isSome = true) ?_ ?_ x hx
  · intro x hx
    have hnone : generation? start.db g = none := generation?_eq_none.mpr
      (hstart.unused.find?_eq_none (k := .generation g) (by simp [Key.table]) (by simp [Key.table]))
    exact absurd (hx.symm.trans hnone) (by simp)
  · intro j S S' hruns ih hm y hy
    rcases hm.commit_or with ⟨s, ws, hC, -, rfl⟩ | ⟨hdb, -⟩
    · change generation? (applyAll ws S.db) g = some y at hy
      have hbefore : (report? S.db y.reportId).isSome = true := by
        cases hx : generation? S.db g with
        | some x =>
            rw [(hC.1.origin hx hy).reportId]
            exact ih x hx
        | none =>
            obtain ⟨rfl, -⟩ := hC.1.key_free hx hy
            have hne : ws ≠ [] := by
              rintro rfl
              rw [applyAll_nil, hx] at hy
              cases hy
            obtain ⟨report, _, hreport, -⟩ := Starts.row hC.1 hne
            rw [hreport]
            rfl
      -- a report goes with its generations
      show (report? (applyAll ws S.db) y.reportId).isSome = true
      rcases hC.1.report y.reportId with hsame | hchange
      · rw [hsame]
        exact hbefore
      · obtain ⟨z, hz⟩ := Option.isSome_iff_exists.mp hbefore
        generalize hafter : report? (applyAll ws S.db) y.reportId = after at hchange
        rw [hz] at hchange
        cases hchange with
        | removed =>
            cases hx : generation? S.db g with
            | some x =>
                have hdelete : Effect cfg j (.deleteReport x.reportId) ws S :=
                  (hC.1.origin hx hy).reportId ▸ hC.1
                rw [hdelete.deleted_generation hx rfl] at hy
                cases hy
            | none =>
                obtain ⟨hs, -⟩ := hC.1.key_free hx hy
                cases hs
        | _ => rfl
    · rw [hdb]
      exact ih y (hdb ▸ hy)

/-- A generation that was started under a key still has it, was taken back, or
went with its report. -/
theorem Runs.row_or_gone (hstart : Begins start) (h : Runs (contract cfg start) S)
    (hu : StartedUnder S u r k g) :
    (∃ x, generation? S.db g = some x ∧ x.userId = u ∧ x.reportId = r ∧ x.idempotencyKey = k) ∨
      S.trace.any (compensates g) = true ∨ (report? S.db r = none ∧ Created S r) := by
  refine h.invariant (I := fun S => StartedUnder S u r k g →
    (∃ x, generation? S.db g = some x ∧ x.userId = u ∧ x.reportId = r ∧ x.idempotencyKey = k) ∨
      S.trace.any (compensates g) = true ∨ (report? S.db r = none ∧ Created S r)) ?_ ?_ hu
  · rintro ⟨e, he, -⟩
    rw [show (contract cfg start).start.trace = [] from hstart.trace] at he
    cases he
  · rintro j S S' hruns ih hm ⟨e, he, ws, hev, hne⟩
    have hmono : S.trace.any (compensates g) = true → S'.trace.any (compensates g) = true := by
      intro h
      obtain ⟨e, he, hcompensates⟩ := List.any_eq_true.mp h
      exact List.any_eq_true.mpr ⟨e, hm.trace_suffix.subset he, hcompensates⟩
    rcases hm.commit_or with ⟨s, ws', hC, -, rfl⟩ | ⟨hdb, htr⟩
    · rcases List.mem_cons.mp he with rfl | he
      · cases hev
        obtain ⟨_, _, -, hrow⟩ := Starts.row hC.1 hne
        exact Or.inl ⟨_, hrow, rfl, rfl, rfl⟩
      rcases ih ⟨e, he, ws, hev, hne⟩ with ⟨x, hx, hu, hr, hk⟩ | hcompensated | ⟨hnone, hcreated⟩
      · cases hy : generation? (applyAll ws' S.db) g with
        | some y =>
            have horigin := hC.1.origin hx hy
            exact Or.inl ⟨y, hy, horigin.userId.trans hu, horigin.reportId.trans hr,
              horigin.idempotencyKey.trans hk⟩
        | none =>
            refine Or.inr ?_
            rcases hC.1.generation g with hsame | hchange
            · rw [hsame, hx] at hy
              cases hy
            · rw [hx, hy] at hchange
              cases hchange with
              | compensated =>
                  refine Or.inl (List.any_eq_true.mpr ⟨_, List.mem_cons_self, ?_⟩)
                  cases ws' with
                  | nil =>
                      rw [applyAll_nil, hx] at hy
                      cases hy
                  | cons wr ws' => simp [compensates]
              | removed _ z hz _ _ =>
                  rw [hr] at hz
                  refine Or.inr ⟨?_, Created.mono
                    ((hruns.persists (lasting_report hstart r)).created z hz) hm.trace_suffix⟩
                  show report? (applyAll ws' S.db) r = none
                  rw [← hr]
                  exact Deletes.report hC.1
      · exact Or.inr (Or.inl (hmono hcompensated))
      · refine Or.inr (Or.inr ⟨?_, hcreated.mono hm.trace_suffix⟩)
        exact Steps.stays_gone (lasting_report hstart r) hruns hcreated hnone
          (Relation.ReflTransGen.single ⟨j, hm⟩)
    · have he' : e ∈ S.trace := by
        rcases htr with htr | ⟨ev, hcommit, htr⟩
        · exact htr ▸ he
        · rw [htr] at he
          rcases List.mem_cons.mp he with rfl | he
          · exact absurd hev (hcommit _ ws)
          · exact he
      rcases ih ⟨e, he', ws, hev, hne⟩ with ⟨x, hx, hfields⟩ | hcompensated | ⟨hnone, hcreated⟩
      · exact Or.inl ⟨x, hdb ▸ hx, hfields⟩
      · exact Or.inr (Or.inl (hmono hcompensated))
      · exact Or.inr (Or.inr ⟨hdb ▸ hnone, hcreated.mono hm.trace_suffix⟩)

-- ================================================================= answers

/-- A generation that was taken back is not seen again. -/
theorem Runs.gone_since (hstart : Begins start) (h : Runs (contract cfg start) S)
    {newer older : List REntry} {e : REntry} (htr : S.trace = newer ++ e :: older)
    (hcompensates : compensates g e = true) :
    generation? S.db g = none ∧ ∀ e' ∈ newer, generation? e'.before.db g = none := by
  obtain ⟨ws, hev, hne⟩ := compensates_eq hcompensates
  refine Runs.after (I := fun newer S => generation? S.db g = none ∧
    ∀ e' ∈ newer, generation? e'.before.db g = none) hstart.trace h htr ?_ ?_
  · rintro S₀ S₁ hpast -
    obtain ⟨⟨heff, -⟩, rfl⟩ := hpast.commit hev
    exact ⟨heff.compensated hne, by simp⟩
  · rintro j S S' newer added hruns htr ⟨hnone, hnewer⟩ hm hadded
    have hcreated : Created S g := by
      obtain ⟨S₀, S₁, hpast⟩ := Runs.since hstart.trace hruns (e := e) (by simp [htr])
      obtain rfl | ⟨_, _, _, x, y, _, _, _, -, -, -, -, -, -, -, -, -, hy, -⟩ :
        Compensates e.tid g ws S₀ := (hpast.commit hev).1.1
      · exact absurd rfl hne
      · exact ((hpast.runs.persists (lasting_generation hstart g)).created y hy).mono
          ((List.suffix_cons _ _).trans hpast.suffix)
    refine ⟨Steps.stays_gone (lasting_generation hstart g) hruns hcreated hnone
      (Relation.ReflTransGen.single ⟨j, hm⟩), fun e' he' => ?_⟩
    rcases List.mem_append.mp he' with he' | he'
    · rw [hm.before_of_added hadded he']
      exact hnone
    · exact hnewer e' he'

/-- A generation that a start answers with is not taken back. -/
theorem Runs.answered_kept (hstart : Begins start) (h : Runs (contract cfg start) S)
    (hund : uncrossed S.trace = true) (hqueue : refusedOnly S.trace = true)
    (hanswers : Answers t u r k g S) : S.trace.any (compensates g) = false := by
  by_contra hany
  obtain ⟨e, he, hcompensates⟩ := List.any_eq_true.mp ((Bool.not_eq_false _).mp hany)
  have hnot : ¬ S.trace.any (takesJob g) = true := by
    simp [not_taken_of_compensates hqueue he hcompensates]
  obtain ⟨-, hack | ⟨e', he', -, x, hx, hneeds⟩⟩ := hanswers
  · exact hnot (takesJob_of_acknowledged hack)
  · have hended := (Runs.settled_or_taken hstart h he' hx hneeds).resolve_right hnot
    obtain ⟨newer, older, htr⟩ := List.append_of_mem he
    rw [htr] at he'
    rcases List.mem_append.mp he' with hnewer | holder
    · rw [(Runs.gone_since hstart h htr hcompensates).2 e' hnewer] at hx
      cases hx
    · -- it had ended before, and the compensation finds it QUEUED
      obtain ⟨S₀, S₁, hpast, rfl⟩ := h.at hstart.trace htr
      obtain ⟨ws, hev, hne⟩ := compensates_eq hcompensates
      have hsuffix : S₀.trace <:+ S.trace := (List.suffix_cons _ _).trans hpast.suffix
      obtain ⟨y, hy, hqueued⟩ := Runs.compensates_queued hstart hpast.runs
        (hpast.commit hev).1.1 hne (uncrossed_of_suffix hsuffix hund)
      have hsame : y = x := by
        rcases List.mem_cons.mp holder with rfl | holder
        · rw [← hpast.scene] at hx
          exact Option.some.inj (hy.symm.trans hx)
        · exact Runs.stays_ended hstart hpast.runs holder hx hended hy
      rw [← hsame, hqueued] at hended
      cases hended

/-- What a start holds was started under its key. -/
theorem Runs.holds_started (hstart : Begins start) (h : Runs (contract cfg start) S)
    (hholds : Holds t u r k g S) : StartedUnder S u r k g := by
  obtain ⟨⟨e, he, -, ⟨x, hx, rfl, rfl, rfl, -⟩ | ⟨ws, hev, hne⟩⟩, -⟩ := hholds
  · obtain ⟨S₀, S₁, hpast⟩ := Runs.since hstart.trace h he
    rw [← hpast.scene] at hx
    obtain ⟨e', he', hev⟩ := Runs.started_under hstart hpast.runs hx
    exact ⟨e', ((List.suffix_cons _ _).trans hpast.suffix).subset he', hev⟩
  · exact ⟨e, he, ws, hev, hne⟩

/-- Whatever has the key when a start answers is what it answers with. -/
theorem Runs.answers_key (hstart : Begins start) (h : Runs (contract cfg start) S)
    (hund : uncrossed S.trace = true) (hqueue : refusedOnly S.trace = true)
    (hanswers : Answers t u r k g S) {y : ReportGeneration} (hy : generation? S.db g' = some y)
    (hu : y.userId = u) (hr : y.reportId = r) (hk : y.idempotencyKey = k) : g' = g := by
  rcases Runs.row_or_gone hstart h (Runs.holds_started hstart h hanswers.1) with
    ⟨x, hx, hu', hr', hk'⟩ | hcompensated | ⟨hnone, -⟩
  · exact Runs.key_unique hstart h g' g y x hy hx (hu.trans hu'.symm) (hr.trans hr'.symm)
      (hk.trans hk'.symm)
  · rw [Runs.answered_kept hstart h hund hqueue hanswers] at hcompensated
    cases hcompensated
  · have hstored := Runs.report_of_generation hstart h hy
    rw [hr, hnone] at hstored
    cases hstored

-- ============================================================ reservations

/-- A commit that reserves a credit starts its generation. -/
theorem Honest.reserving (hstart : Begins start) (h : Honest cfg start S) {e : REntry}
    (he : e ∈ S.trace) (hev : e.event = .commit s ws)
    (hnone : ledger? e.before.db (.generation g .reserve) = none)
    (hsome : ledger? (applyAll ws e.before.db) (.generation g .reserve) ≠ none) :
    (∃ u r k, s = .start u r k g) ∧ ws ≠ [] := by
  obtain ⟨newer, older, htr⟩ := List.append_of_mem he
  obtain ⟨S₀, credit, -, hscene, -, -, hmove, hidle⟩ := h.commit_at hstart htr hev
  rw [← hscene] at hnone hsome
  obtain ⟨l', hl'⟩ := Option.ne_none_iff_exists'.mp hsome
  obtain ⟨l, hold | ⟨hmem, hkey⟩, -⟩ := hmove.entry_after hidle hl'
  · cases hnone.symm.trans hold
  · rcases (hmove.added hmem hkey).2 with ⟨-, u, r, k, _, hs, hne, -⟩ | ⟨hnot, -⟩
    · exact ⟨⟨u, r, k, hs⟩, hne⟩
    · exact absurd rfl hnot

/-- The only credit a start reserves is that of the generation it answers
with. -/
theorem Honest.reserves_own (hstart : Begins start) (h : Honest cfg start S)
    (hholds : Holds t u r k g S) {e : REntry} (he : e ∈ S.trace) (ht : e.tid = t)
    (hev : e.event = .commit s ws)
    (hnone : ledger? e.before.db (.generation g' .reserve) = none)
    (hsome : ledger? (applyAll ws e.before.db) (.generation g' .reserve) ≠ none) : g' = g := by
  obtain ⟨⟨u', r', k', rfl⟩, hne⟩ := h.reserving hstart he hev hnone hsome
  have hmem : Site.start u' r' k' g' ∈ marks S t := ht ▸ Shared.mem_marks he hev rfl
  rcases hholds.2 with hmarks | hmarks | ⟨i, hmarks, e', he', ht', hev'⟩
  · rw [hmarks] at hmem
    cases hmem
  · rw [hmarks, List.mem_singleton, Site.start.injEq] at hmem
    exact hmem.2.2.2
  · -- the start that wrote nothing was its only one
    have hsame := Shared.marks_unique hmarks he he' ht ht' hev hev' rfl rfl
    rw [hsame, hev'] at hev
    cases hev
    exact absurd rfl hne

-- ==================================================================== keys

/-- An idempotency key has one generation, is charged for one, and answers with
the one that has it. -/
structure KeyCharged (S : RState) (u r : Id) (k : String) : Prop where
  charged : ∀ g g' l l', StartedUnder S u r k g → StartedUnder S u r k g' →
    l ∈ entriesUnder g S.db → l' ∈ entriesUnder g' S.db →
    l.type = .reserve → l'.type = .reserve →
    (∀ m ∈ entriesUnder g S.db, m.type ≠ .release) →
    (∀ m ∈ entriesUnder g' S.db, m.type ≠ .release) → l = l'
  answered : ∀ e ∈ S.trace, ∀ x, e.event = .finish (.ok (.generation x)) →
    Starting S e.tid u r k → ∀ g y, generation? e.before.db g = some y → y.userId = u →
    y.reportId = r → y.idempotencyKey = k → g = x.id
  reserves : ∀ newer e older x, S.trace = newer ++ e :: older →
    e.event = .finish (.ok (.generation x)) → Starting S e.tid u r k →
    ∀ e' ∈ older, e'.tid = e.tid → ∀ s ws g, e'.event = .commit s ws →
    ledger? e'.before.db (.generation g .reserve) = none →
    ledger? (applyAll ws e'.before.db) (.generation g .reserve) ≠ none → g = x.id

/-- What was released has an entry for it. -/
theorem Honest.release_entry (hstart : Begins start) (h : Honest cfg start S)
    (hreleased : (books S.db).settled g = some .released) :
    ∃ m ∈ entriesUnder g S.db, m.type = .release := by
  have hsome : ledger? S.db (.generation g .release) ≠ none := by
    intro hnone
    cases hconsume : ledger? S.db (.generation g .consume) with
    | some l =>
        rw [books_settled_eq_consumed.mpr (by rw [hconsume]; rfl)] at hreleased
        cases hreleased
    | none =>
        rw [books_settled_eq_none.mpr ⟨hconsume, hnone⟩] at hreleased
        cases hreleased
  obtain ⟨m, hm⟩ := Option.ne_none_iff_exists'.mp hsome
  exact ⟨m, mem_entriesUnder.mpr ⟨_, ledger?_key hm, hm⟩, (h.typed hstart g _ m hm).1⟩

/-- At any moment a key has one generation at most. As long as no generation
leaves QUEUED while a compensation of it is open, and the queue never takes
the job of one that is taken back, it is charged once, and whoever uses it is
answered with the generation that has it. -/
theorem idempotency_keys (h : Reached cfg w) (u r : Id) (k : String) :
    (∀ g g' x x', generation? w.shared.db g = some x → generation? w.shared.db g' = some x' →
      x.userId = u → x.reportId = r → x.idempotencyKey = k →
      x'.userId = u → x'.reportId = r → x'.idempotencyKey = k → g = g') ∧
    (uncrossed w.shared.trace = true → refusedOnly w.shared.trace = true →
      KeyCharged w.shared u r k) := by
  obtain ⟨start, hstart, hS⟩ := h.honest
  refine ⟨fun g g' x x' hx hx' hu hr hk hu' hr' hk' => ?_, fun hund hqueue => ⟨?_, ?_, ?_⟩⟩
  · exact Runs.key_unique hstart hS.runs g g' x x' hx hx' (hu.trans hu'.symm) (hr.trans hr'.symm)
      (hk.trans hk'.symm)
  · intro g g' l l' hg hg' hl hl' htype htype' hkept hkept'
    by_cases hsame : g = g'
    · subst hsame
      exact (hS.settled_once hstart g).reserved l hl l' hl' htype htype'
    · rcases hS.charged_once hstart hund hg hg' hsame with hreleased | hreleased
      · obtain ⟨m, hm, hmtype⟩ := hS.release_entry hstart hreleased
        exact absurd hmtype (hkept m hm)
      · obtain ⟨m, hm, hmtype⟩ := hS.release_entry hstart hreleased
        exact absurd hmtype (hkept' m hm)
  · intro e he x hev hasked g y hy hu hr hk
    obtain ⟨newer, older, htr⟩ := List.append_of_mem he
    obtain ⟨S₀, S₁, hpast, -, hanswers⟩ := Runs.answers hstart hS.runs htr hev hasked
    have hsuffix : S₀.trace <:+ w.shared.trace := (List.suffix_cons _ _).trans hpast.suffix
    rw [← hpast.scene] at hy
    exact Runs.answers_key hstart hpast.runs (uncrossed_of_suffix hsuffix hund)
      (refusedOnly_of_suffix hsuffix hqueue) hanswers hy hu hr hk
  · intro newer e older x htr hev hasked e' he' ht s ws g hev' hnone hsome
    obtain ⟨S₀, S₁, hpast, rfl, hanswers⟩ := Runs.answers hstart hS.runs htr hev hasked
    have hsuffix : S₀.trace <:+ w.shared.trace := (List.suffix_cons _ _).trans hpast.suffix
    have hS₀ : Honest cfg start S₀ := ⟨hpast.runs, hS.keeps.of_suffix hsuffix⟩
    exact hS₀.reserves_own hstart hanswers.1 he' ht hev' hnone hsome

/-- The entry answers with the generation. -/
def answersWith (g : Id) (e : REntry) : Bool :=
  match e.event with
  | .finish (.ok (.generation x)) => x.id = g
  | _ => false

theorem answersWith_eq {e : REntry} (h : answersWith g e = true) :
    ∃ x, e.event = .finish (.ok (.generation x)) ∧ x.id = g := by
  unfold answersWith at h
  split at h
  next x hev => exact ⟨x, hev, of_decide_eq_true h⟩
  next => cases h

/-- After generation 12 was refused and taken back, a request with its key is
answered with generation 13. -/
def answeredAgain : List (Action Req Choice) :=
  restarted ++ .answer 4 .done :: steps 4 5

/-- The key of a generation that was taken back has the next one. -/
theorem idempotency_keys_again : ∃ w, Reached defaults w ∧
    StartedUnder w.shared 1 10 "k" 12 ∧ w.shared.trace.any (answersWith 13) = true ∧
    KeyCharged w.shared 1 10 "k" := by
  have hrun : (sampleWorld.runAll (app defaults) answeredAgain).any (fun w =>
      w.shared.trace.any (startsUnder 1 10 "k" 12) && w.shared.trace.any (answersWith 13)
        && uncrossed w.shared.trace && refusedOnly w.shared.trace) = true := by
    decide +kernel
  obtain ⟨w, hw, hp⟩ := exists_reached hrun
  simp only [Bool.and_eq_true] at hp
  obtain ⟨⟨⟨hstarted, hanswers⟩, hund⟩, hqueue⟩ := hp
  exact ⟨w, hw, startedUnder_of_any hstarted, hanswers,
    (idempotency_keys hw 1 10 "k").2 hund hqueue⟩

/-- The first request of a key is answered when its generation was taken back on
behalf of a second one, and a third one has started another. -/
def answeredGone : List (Action Req Choice) :=
  removedEnqueued ++ .spawn 5 (.createGeneration 1 10 "k") :: steps 5 5 ++ steps 3 5

/-- It is answered with the generation that is gone. -/
theorem key_answers_gone : ∃ cfg w, cfg.accepted = true ∧ Reached cfg w ∧
    ¬ KeyCharged w.shared 1 10 "k" := by
  have hrun : (sampleWorld.runAll (app defaults) answeredGone).any (fun w =>
      w.shared.trace.head?.any fun e => answersWith 12 e
        && w.shared.asked e.tid = [.createGeneration 1 10 "k"]
        && (generation? e.before.db 13).any fun y =>
          y.userId = 1 && y.reportId = 10 && y.idempotencyKey = "k") = true := by
    decide +kernel
  obtain ⟨w, hw, hp⟩ := exists_reached hrun
  simp only [Option.any_eq_true, Bool.and_eq_true, decide_eq_true_eq] at hp
  obtain ⟨e, hhead, ⟨hanswers, hasked⟩, y, hy, ⟨hu, hr⟩, hk⟩ := hp
  obtain ⟨x, hev, hx⟩ := answersWith_eq hanswers
  refine ⟨defaults, w, defaults_accepted, hw, fun h => ?_⟩
  have hsame := h.answered e (List.mem_of_mem_head? hhead) x hev (Or.inl hasked) 13 y hy hu hr hk
  rw [hx] at hsame
  cases hsame

end FastRep.Reports
