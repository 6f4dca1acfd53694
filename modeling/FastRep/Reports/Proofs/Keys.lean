/-
An idempotency key is charged for one generation.

A start under a key finds no generation with it. One that was started under
it before is therefore gone: with its report, and then nothing can be
started for the report any more, or by a compensation, and then its credit
was released. The second case needs that nothing crosses the compensation
(`uncrossed`): else it removes a generation that was charged.

# The invariant

`KeyHeld` says what has become of a generation that was started under a key:
it still has the key, or its credit was released, or its report is gone. Each
of the three is kept by every commit (`Honest.key_step`): a generation that
stays keeps its key, a release stays in the ledger, and a deleted report does
not come back. A start under the key finds the first case impossible
(`Starts.key_held`), and the third, since its report is there.

That a key belongs to one stored generation is the unique index
(`Runs.key_unique`), and needs no condition.
-/
import FastRep.Reports.Proofs.Agreement
import FastRep.Reports.Proofs.Settlements

namespace FastRep.Reports

open FastRep.Txn FastRep.Accounts

variable {cfg : Config} {start S : RState} {u r g g' : Id} {k : String}

/-- A start under the key created the generation. -/
def StartedUnder (S : RState) (u r : Id) (k : String) (g : Id) : Prop :=
  ∃ e ∈ S.trace, ∃ ws, e.event = .commit (.start u r k g) ws ∧ ws ≠ []

/-- The key still belongs to the generation, its credit was released, or its
report is gone. -/
def KeyHeld (S : RState) (u r : Id) (k : String) (g : Id) : Prop :=
  (∃ x, generation? S.db g = some x ∧ x.userId = u ∧ x.reportId = r ∧ x.idempotencyKey = k) ∨
    (books S.db).settled g = some .released ∨ (report? S.db r = none ∧ Created S r)

-- ============================================================ settlements

/-- A compensation that nothing crosses releases the credit. -/
theorem Honest.released_by_compensation (hstart : Begins start) (hS : Honest cfg start S)
    {t : Tid} {ws credit : List (Write Row Key)} (hund : uncrossed S.trace = true)
    (heff : Effect cfg t (.compensateQueueFailure g) ws S)
    (hmove : CreditMove S (.compensateQueueFailure g) ws credit) (hne : ws ≠ []) :
    (books (applyAll credit S.db)).settled g = some .released := by
  have hcompensates : Compensates t g ws S := heff
  obtain rfl | ⟨newer, older, read, x, y, _, _, _, htr, -, hev, hopen, hx, hqueued, -, -, -, hy,
    -⟩ := hcompensates
  · exact absurd rfl hne
  have hstill := (Runs.still_queued hstart hS.runs htr (by simp [hev]) hx hqueued hopen hund hy).1
  apply hS.released_after hstart hmove (by simp [Site.givesBack]) hne
  rw [hS.settlement hstart g y hy, hstill]
  rfl

-- =================================================================== steps

/-- A deleted report is gone. -/
theorem Deletes.report {ws : List (Write Row Key)} (h : Deletes r ws S) :
    report? (applyAll ws S.db) r = none := by
  obtain ⟨z, side, removal, -, -, -, -, -, rfl, herase, -, -, hremoves⟩ := h
  rw [applyAll_append, report?_eq_none]
  exact find?_applyAll_of_mem hremoves.nodup herase

/-- A commit keeps what it means that a generation was started under a
key. -/
theorem Honest.key_step (hstart : Begins start) (hS : Honest cfg start S) {t : Tid} {s : Site}
    {ws credit : List (Write Row Key)} (hund : uncrossed S.trace = true)
    (heff : Effect cfg t s ws S) (hm : Move (contract cfg start) t S (S.commit t s ws))
    (hmove : CreditMove S s ws credit)
    (hidle : Idle (applyAll credit S.db) (applyAll ws S.db)) (h : KeyHeld S u r k g) :
    KeyHeld (S.commit t s ws) u r k g := by
  rcases h with ⟨x, hx, hu, hr, hk⟩ | hreleased | ⟨hnone, hcreated⟩
  · cases hy : generation? (applyAll ws S.db) g with
    | some y =>
        have horigin := heff.origin hx hy
        exact Or.inl ⟨y, hy, horigin.userId.trans hu, horigin.reportId.trans hr,
          horigin.idempotencyKey.trans hk⟩
    | none =>
        have hne : ws ≠ [] := by
          rintro rfl
          rw [applyAll_nil, hx] at hy
          cases hy
        rcases heff.generation g with hsame | hchange
        · rw [hsame, hx] at hy
          cases hy
        · rw [hx, hy] at hchange
          cases hchange with
          | compensated =>
              refine Or.inr (Or.inl ?_)
              show (books (applyAll ws S.db)).settled g = some .released
              rw [hidle.books_eq]
              exact hS.released_by_compensation hstart hund heff hmove hne
          | removed _ z hz _ _ =>
              -- the report goes with its generations
              refine Or.inr (Or.inr ⟨?_, ?_⟩)
              · show report? (applyAll ws S.db) r = none
                rw [← hr]
                exact Deletes.report heff
              · rw [hr] at hz
                exact Created.mono ((hS.runs.persists (lasting_report hstart r)).created z hz)
                  hm.trace_suffix
  · refine Or.inr (Or.inl ?_)
    show (books (applyAll ws S.db)).settled g = some .released
    rcases hS.book_step hstart hm hmove hidle with hsame | hstep
    · rw [hsame]
      exact hreleased
    · exact hstep.settled_eq hreleased
  · refine Or.inr (Or.inr ⟨?_, hcreated.mono hm.trace_suffix⟩)
    show report? (applyAll ws S.db) r = none
    cases hy : report? (applyAll ws S.db) r with
    | none => rfl
    | some y =>
        obtain ⟨e, he, hcreates⟩ := hcreated
        exact absurd (heff.creates_report hnone hy S.toScene)
          (Runs.not_created_again hstart hS.runs hm he hcreates)

/-- A start puts its generation under the key. -/
theorem Starts.key_held {t : Tid} {ws : List (Write Row Key)} (h : Starts cfg t u r k g ws S)
    (hne : ws ≠ []) : KeyHeld (S.commit t (.start u r k g) ws) u r k g := by
  obtain ⟨report, user, -, hrow⟩ := h.row hne
  exact Or.inl ⟨_, hrow, rfl, rfl, rfl⟩

/-- Whatever was started under a key keeps it, was released, or lost its
report. -/
theorem Honest.key_held (hstart : Begins start) (h : Honest cfg start S)
    (hund : uncrossed S.trace = true) (hu : StartedUnder S u r k g) : KeyHeld S u r k g := by
  have hall : S.Keeps Credited → uncrossed S.trace = true → StartedUnder S u r k g →
      KeyHeld S u r k g := by
    refine h.runs.invariant (I := fun S => S.Keeps Credited → uncrossed S.trace = true →
      StartedUnder S u r k g → KeyHeld S u r k g) ?_ ?_
    · rintro - - ⟨e, he, -⟩
      rw [show (contract cfg start).start.trace = [] from hstart.trace] at he
      cases he
    · rintro j S S' hruns ih hm hkeeps hund ⟨e, he, ws, hev, hne⟩
      have hkeeps₀ := hkeeps.of_suffix hm.trace_suffix
      have hund₀ := uncrossed_of_suffix hm.trace_suffix hund
      have hold : e ∈ S.trace → KeyHeld S u r k g :=
        fun he => ih hkeeps₀ hund₀ ⟨e, he, ws, hev, hne⟩
      rcases hm.commit_or with ⟨s, ws', hC, -, rfl⟩ | ⟨hdb, htr⟩
      · rcases List.mem_cons.mp he with rfl | he
        · cases hev
          have hstarts : Starts cfg j u r k g ws S := hC.1
          exact hstarts.key_held hne
        · obtain ⟨credit, hmove, hidle⟩ := hC.1.creditMove hkeeps.last
          exact Honest.key_step hstart ⟨hruns, hkeeps₀⟩ hund₀ hC.1 hm hmove hidle (hold he)
      · have he' : e ∈ S.trace := by
          rcases htr with htr | ⟨ev, hcommit, htr⟩
          · exact htr ▸ he
          · rw [htr] at he
            rcases List.mem_cons.mp he with rfl | he
            · exact absurd hev (hcommit _ ws)
            · exact he
        rcases hold he' with ⟨x, hx, hfields⟩ | hreleased | ⟨hnone, hcreated⟩
        · exact Or.inl ⟨x, hdb ▸ hx, hfields⟩
        · exact Or.inr (Or.inl (hdb ▸ hreleased))
        · exact Or.inr (Or.inr ⟨hdb ▸ hnone, hcreated.mono hm.trace_suffix⟩)
  exact hall h.keeps hund hu

-- ================================================================= the key

/-- Where no generation is found under a key, none has it. -/
theorem generationByKey_eq_none {d : Db Row} (h : generationByKey u r k d = none)
    {x : ReportGeneration} (hx : generation? d g = some x) (hu : x.userId = u)
    (hr : x.reportId = r) : x.idempotencyKey ≠ k := by
  intro hk
  have hid := generation?_id hx
  have hnot := List.find?_eq_none.mp h x (mem_generations.mpr (hid.symm ▸ hx))
  simp [hu, hr, hk] at hnot

/-- When another generation is started under the key, the credit of the
earlier one was released. -/
theorem Honest.released_before (hstart : Begins start) (h : Honest cfg start S)
    (hund : uncrossed S.trace = true) {newer older : List REntry} {e : REntry}
    (htr : S.trace = newer ++ e :: older) {ws : List (Write Row Key)}
    (hev : e.event = .commit (.start u r k g') ws) (hne : ws ≠ []) {e' : REntry}
    (he' : e' ∈ older) {ws' : List (Write Row Key)}
    (hev' : e'.event = .commit (.start u r k g) ws') (hne' : ws' ≠ []) :
    (books S.db).settled g = some .released := by
  obtain ⟨S₀, S₁, hpast, rfl⟩ := h.runs.at hstart.trace htr
  have hsuffix : S₀.trace <:+ S.trace := (List.suffix_cons _ _).trans hpast.suffix
  have hS₀ : Honest cfg start S₀ := ⟨hpast.runs, h.keeps.of_suffix hsuffix⟩
  have hheld := hS₀.key_held hstart (uncrossed_of_suffix hsuffix hund) ⟨e', he', ws', hev', hne'⟩
  have hstarts : Starts cfg e.tid u r k g' ws S₀ := (hpast.commit hev).1.1
  obtain ⟨rfl, -⟩ | ⟨z, _, _, -, -, -, hfree, hz, -⟩ := hstarts
  · exact absurd rfl hne
  rcases hheld with ⟨x, hx, hu, hr, hk⟩ | hreleased | ⟨hnone, -⟩
  · exact absurd hk (generationByKey_eq_none hfree hx hu hr)
  · have hbefore : (books e.before.db).settled g = some .released := by
      rw [← hpast.scene]
      exact hreleased
    have he : e ∈ S.trace := htr ▸ List.mem_append_right _ List.mem_cons_self
    obtain ⟨hstep, hsince⟩ := h.books_kept_since hstart he
    exact hsince.settled_eq (hstep.settled_eq hbefore)
  · rw [hnone] at hz
    cases hz

/-- A commit that creates a generation found its key free. -/
theorem Effect.key_free {t : Tid} {s : Site} {ws : List (Write Row Key)}
    (h : Effect cfg t s ws S) (hnone : generation? S.db g = none) {y : ReportGeneration}
    (hy : generation? (applyAll ws S.db) g = some y) :
    s = .start y.userId y.reportId y.idempotencyKey g ∧
      generationByKey y.userId y.reportId y.idempotencyKey S.db = none := by
  have hne : ws ≠ [] := by
    rintro rfl
    rw [applyAll_nil, hnone] at hy
    cases hy
  rcases h.generation g with hsame | hchange
  · rw [hsame, hnone] at hy
    cases hy
  · rw [hnone, hy] at hchange
    cases hchange with
    | started u r k _ _ =>
        have hstarts : Starts cfg t u r k g ws S := h
        obtain ⟨rfl, -⟩ | ⟨_, _, _, -, -, -, hfree, -⟩ := hstarts
        · exact absurd rfl hne
        · exact ⟨rfl, hfree⟩

/-- A key belongs to one generation. -/
theorem Runs.key_unique (hstart : Begins start) (h : Runs (contract cfg start) S) :
    ∀ g g' x x', generation? S.db g = some x → generation? S.db g' = some x' →
      x.userId = x'.userId → x.reportId = x'.reportId → x.idempotencyKey = x'.idempotencyKey →
      g = g' := by
  refine h.invariant (I := fun S => ∀ g g' x x', generation? S.db g = some x →
    generation? S.db g' = some x' → x.userId = x'.userId → x.reportId = x'.reportId →
    x.idempotencyKey = x'.idempotencyKey → g = g') ?_ ?_
  · intro g g' x x' hx
    have hnone : generation? start.db g = none := generation?_eq_none.mpr
      (hstart.unused.find?_eq_none (k := .generation g) (by simp [Key.table]) (by simp [Key.table]))
    exact absurd (hx.symm.trans hnone) (by simp)
  · intro j S S' _ ih hm g g' y y' hy hy' hu hr hk
    rcases hm.commit_or with ⟨s, ws, hC, -, rfl⟩ | ⟨hdb, -⟩
    · change generation? (applyAll ws S.db) g = some y at hy
      change generation? (applyAll ws S.db) g' = some y' at hy'
      cases hx : generation? S.db g with
      | some x =>
          have horigin := hC.1.origin hx hy
          cases hx' : generation? S.db g' with
          | some x' =>
              have horigin' := hC.1.origin hx' hy'
              apply ih g g' x x' hx hx'
              · rw [← horigin.userId, hu, horigin'.userId]
              · rw [← horigin.reportId, hr, horigin'.reportId]
              · rw [← horigin.idempotencyKey, hk, horigin'.idempotencyKey]
          | none =>
              obtain ⟨-, hfree⟩ := hC.1.key_free hx' hy'
              refine absurd ?_ (generationByKey_eq_none hfree hx ?_ ?_)
              · exact horigin.idempotencyKey.symm.trans hk
              · exact horigin.userId.symm.trans hu
              · exact horigin.reportId.symm.trans hr
      | none =>
          obtain ⟨hs, hfree⟩ := hC.1.key_free hx hy
          cases hx' : generation? S.db g' with
          | some x' =>
              have horigin' := hC.1.origin hx' hy'
              refine absurd ?_ (generationByKey_eq_none hfree hx' ?_ ?_)
              · exact horigin'.idempotencyKey.symm.trans hk.symm
              · exact horigin'.userId.symm.trans hu.symm
              · exact horigin'.reportId.symm.trans hr.symm
          | none =>
              obtain ⟨hs', -⟩ := hC.1.key_free hx' hy'
              rw [hs, Site.start.injEq] at hs'
              exact hs'.2.2.2
    · exact ih g g' y y' (hdb ▸ hy) (hdb ▸ hy') hu hr hk

/-- Of two generations that were started under a key the credit of one was
released. -/
theorem Honest.charged_once (hstart : Begins start) (hS : Honest cfg start S)
    (hund : uncrossed S.trace = true) (hg : StartedUnder S u r k g) (hg' : StartedUnder S u r k g')
    (hdistinct : g ≠ g') : (books S.db).settled g = some .released ∨
      (books S.db).settled g' = some .released := by
  obtain ⟨e, he, ws, hev, hne⟩ := hg
  obtain ⟨e', he', ws', hev', hne'⟩ := hg'
  obtain ⟨newer, older, htr⟩ := List.append_of_mem he'
  have hmem : e ∈ newer ++ e' :: older := htr ▸ he
  rcases List.mem_append.mp hmem with hmem | hmem
  · obtain ⟨l, l', rfl⟩ := List.append_of_mem hmem
    rw [List.append_assoc, List.cons_append] at htr
    exact Or.inr (hS.released_before hstart hund htr hev hne
      (List.mem_append_right _ List.mem_cons_self) hev' hne')
  · rcases List.mem_cons.mp hmem with rfl | hmem
    · rw [hev] at hev'
      cases hev'
      exact absurd rfl hdistinct
    · exact Or.inl (hS.released_before hstart hund htr hev' hne' hmem hev hne)

/-- In every reached state a key belongs to at most one stored generation. And
as long as no generation leaves QUEUED while a compensation of it is open, at
most one generation that was ever started under an idempotency key keeps its
credit: of any two, the credit of one was released. -/
theorem key_charged_once (cfg : Config) (w : RWorld) (h : Reached cfg w) :
    (∀ g g' x x', generation? w.shared.db g = some x → generation? w.shared.db g' = some x' →
      x.userId = x'.userId → x.reportId = x'.reportId → x.idempotencyKey = x'.idempotencyKey →
      g = g') ∧
    (uncrossed w.shared.trace = true → ∀ u r k g g', StartedUnder w.shared u r k g →
      StartedUnder w.shared u r k g' → g ≠ g' →
      (books w.shared.db).settled g = some .released ∨
        (books w.shared.db).settled g' = some .released) := by
  obtain ⟨start, hstart, hS⟩ := h.honest
  refine ⟨Runs.key_unique hstart hS.runs, fun hund => ?_⟩
  intro u r k g g' hg hg' hdistinct
  exact hS.charged_once hstart hund hg hg' hdistinct

/-- The entry starts the generation under the key. -/
def startsUnder (u r : Id) (k : String) (g : Id) (e : REntry) : Bool :=
  match e.event with
  | .commit (.start u' r' k' g') (_ :: _) => u' = u && r' = r && k' = k && g' = g
  | _ => false

theorem startedUnder_of_any (h : S.trace.any (startsUnder u r k g) = true) :
    StartedUnder S u r k g := by
  obtain ⟨e, he, hstarts⟩ := List.any_eq_true.mp h
  unfold startsUnder at hstarts
  split at hstarts
  next w ws hev =>
      simp only [Bool.and_eq_true, decide_eq_true_eq] at hstarts
      obtain ⟨⟨⟨rfl, rfl⟩, rfl⟩, rfl⟩ := hstarts
      exact ⟨e, he, _, hev, List.cons_ne_nil _ _⟩
  next => cases hstarts

/-- The queue refuses generation 12 of the report, its start is compensated,
and generation 13 is started under the same key. -/
def restarted : List (Action Req Choice) :=
  reportCreated ++ .spawn 3 (.createGeneration 1 10 "k") :: steps 3 5
    ++ .answer 3 (.failed (unavailable "" "")) :: steps 3 11
    ++ .spawn 4 (.createGeneration 1 10 "k") :: steps 4 5

/-- A key under which a generation was started twice was charged once. -/
theorem key_charged_once_restarted : ∃ w, Reached defaults w ∧
    StartedUnder w.shared 1 10 "k" 12 ∧ StartedUnder w.shared 1 10 "k" 13 ∧
    ((books w.shared.db).settled 12 = some .released ∨
      (books w.shared.db).settled 13 = some .released) := by
  have hrun : (sampleWorld.runAll (app defaults) restarted).any (fun w =>
      w.shared.trace.any (startsUnder 1 10 "k" 12) && w.shared.trace.any (startsUnder 1 10 "k" 13)
        && uncrossed w.shared.trace) = true := by
    decide +kernel
  obtain ⟨w, hw, hp⟩ := exists_reached hrun
  simp only [Bool.and_eq_true] at hp
  obtain ⟨⟨h12, h13⟩, hund⟩ := hp
  have hstarted := startedUnder_of_any h12
  have hstarted' := startedUnder_of_any h13
  exact ⟨w, hw, hstarted, hstarted',
    (key_charged_once defaults w hw).2 hund 1 10 "k" 12 13 hstarted hstarted' (by decide)⟩

end FastRep.Reports
