/-
The inputs of an active generation.

A start takes its snapshot in a serializable transaction that finds every
asset of the report READY. From then on the editing operations find the
report QUEUED or PROCESSING where they look: `updateReport` in the guard
of its update, `createPendingAsset` in its own serializable transaction,
`deleteReport` under the lock of the report; a READY asset is nothing to
confirm, reject or expire (`Effect.assets_kept`).

# The gap

`deleteAsset` looks before its transaction. A start that commits between
the two loses an asset of its snapshot (`input_deleted`), so at the start
no such deletion may be under way (`deletionUnderWay`). A deletion that looks
later is refused.

# The invariant

`Held` compares two states: the title, the notes and the asset rows of the
report are as they were. It is carried from the entry of the start on, as long
as the report has been active since (`ActiveSince`), by one lemma on the texts
(`Effect.texts`) and one on the assets (`Effect.assets_kept`) for each commit.
`Frozen` adds the snapshot: what a start left is what the generation still has
(`Runs.started_snapshot`), and for each key of it a READY asset is stored.
-/
import FastRep.Reports.Proofs.ProviderBudget
import FastRep.Reports.Proofs.ReportChanges
import FastRep.Reports.Proofs.Reached

namespace FastRep.Reports

open FastRep.Txn

variable {cfg : Config} {start S S' : RState} {t : Tid} {s : Site} {ws : List (Write Row Key)}
  {w : RWorld} {r g : Id} {d₀ : Db Row}

-- ============================================================ vocabulary

/-- The report is QUEUED or PROCESSING. -/
def activeReport (reportId : Id) (d : Db Row) : Bool :=
  (report? d reportId).any fun r => r.status = .queued || r.status = .processing

/-- The thread found the report editable at the entry. -/
def foundEditable (t : Tid) (reportId : Id) (e : REntry) : Bool :=
  e.tid = t && match e.event with
  | .statement (.findReport i) => i = reportId && (report? e.before.db i).any fun r =>
      r.status = .draft || r.status = .failed
  | _ => false

/-- A request that deletes an asset of the report is between its look at
the report and the deletion. -/
def deletionUnderWay (reportId : Id) (sc : Scene Row Site Req Env) (past : List REntry) : Bool :=
  sc.live.any fun l => match l.2 with
    | .deleteAsset _ i a => i = reportId && (asset? sc.db a).any (·.reportId = reportId)
        && past.any (foundEditable l.1 reportId)
    | _ => false

/-- The texts and the assets of the report are as they were. -/
structure Held (S : RState) (reportId : Id) (d₀ : Db Row) : Prop where
  texts : ∀ x, report? d₀ reportId = some x →
    ∃ y, report? S.db reportId = some y ∧ y.title = x.title ∧ y.notes = x.notes
  assets : ∀ a : ReportAsset, a.reportId = reportId →
    (asset? S.db a.id = some a ↔ asset? d₀ a.id = some a)

/-- So are the inputs of the generation: a READY asset of its report has
each storage key of its snapshot. -/
structure Frozen (S : RState) (generationId reportId : Id) (d₀ : Db Row) : Prop
    extends Held S reportId d₀ where
  inputs : ∀ x snapshot, generation? S.db generationId = some x →
    x.inputSnapshot = some snapshot → ∀ b ∈ snapshot.assets,
    ∃ a, asset? S.db b.id = some a ∧ a.reportId = reportId ∧ a.status = .ready ∧
      a.storageKey = b.storageKey

theorem activeReport_iff {d : Db Row} : activeReport r d = true ↔
    ∃ x, report? d r = some x ∧ (x.status = .queued ∨ x.status = .processing) := by
  rw [activeReport, Option.any_eq_true]
  simp only [Bool.or_eq_true, decide_eq_true_eq]

/-- An active report is not editable. -/
theorem not_editable {d : Db Row} {x : Report} (hactive : activeReport r d = true)
    (hx : report? d r = some x) : ¬ (x.status = .draft ∨ x.status = .failed) := by
  obtain ⟨y, hy, hstatus⟩ := activeReport_iff.mp hactive
  cases hx.symm.trans hy
  rintro (h | h) <;> rw [h] at hstatus <;> simp at hstatus

-- ============================================================ one commit

/-- A commit keeps the title and the notes of an active report. -/
theorem Effect.texts (heff : Effect cfg t s ws S) (hactive : activeReport r S.db = true)
    {x : Report} (hx : report? S.db r = some x) (hafter : activeReport r (applyAll ws S.db) = true) :
    ∃ y, report? (applyAll ws S.db) r = some y ∧ y.title = x.title ∧ y.notes = x.notes := by
  have hlocked := not_editable hactive hx
  rcases heff.report r with hsame | hchange
  · exact ⟨x, hsame.trans hx, rfl, rfl⟩
  · obtain ⟨y, hy, -⟩ := activeReport_iff.mp hafter
    rw [hx, hy] at hchange
    refine ⟨y, hy, ?_⟩
    cases hchange with
    | patched _ _ _ hstatus => exact absurd hstatus hlocked
    | queued _ _ _ _ hstatus => exact absurd hstatus hlocked
    | failed => unfold Report.failedAt; exact ⟨rfl, rfl⟩
    | _ => exact ⟨rfl, rfl⟩

/-- A commit while the report is active changes none of its assets, if all
of them are READY and none is deleted. -/
theorem Effect.assets_kept (heff : Effect cfg t s ws S) (hactive : activeReport r S.db = true)
    (hready : ∀ a x, asset? S.db a = some x → x.reportId = r → x.status = .ready)
    (hdeleted : ∀ a x, asset? S.db a = some x → x.reportId = r → Checked S t r →
      (∃ u, (t, Req.deleteAsset u r a) ∈ S.live) → False)
    {x : ReportAsset} (hr : x.reportId = r) :
    asset? (applyAll ws S.db) x.id = some x ↔ asset? S.db x.id = some x := by
  obtain ⟨z, hz, hz'⟩ := activeReport_iff.mp hactive
  rcases heff.asset x.id with hsame | hchange
  · rw [hsame]
  generalize hid : x.id = a at hchange ⊢
  constructor
  · intro hafter
    rw [hafter] at hchange
    cases hbefore : asset? S.db a with
    | none =>
        rw [hbefore] at hchange
        cases hchange with
        | created _ hreserving =>
            obtain ⟨_, report, _, _, _, hws, -, -, -, -, -, -, -, -, -, hreport, heditable, -⟩ :=
              hreserving
            cases hws
            rw [hr] at hreport
            exact absurd heditable (not_editable hactive hreport)
        | copied _ _ _ _ _ _ hnew =>
            obtain rfl := hr
            exact absurd (hz.symm.trans hnew) (by simp)
    | some y =>
        have hy : y.reportId = r := (heff.upload hbefore hafter).reportId.symm.trans hr
        have hstatus := hready a y hbefore hy
        rw [hbefore] at hchange
        generalize hx₀ : some x = o at hchange
        cases hchange with
        | verified _ _ _ _ hpending => rw [hstatus] at hpending; cases hpending
        | rejected _ _ _ hpending => rw [hstatus] at hpending; cases hpending
        | _ => cases hx₀
  · intro hbefore
    have hstatus := hready a x hbefore hr
    rw [hbefore] at hchange
    generalize asset? (applyAll ws S.db) a = after at hchange
    cases hchange with
    | verified _ _ _ _ hpending => rw [hstatus] at hpending; cases hpending
    | rejected _ _ _ hpending => rw [hstatus] at hpending; cases hpending
    | dropped _ hpending => rw [hstatus] at hpending; cases hpending
    | deleted _ hchecked hlive =>
        rw [hr] at hchecked hlive
        exact (hdeleted a x hbefore hr hchecked hlive).elim
    | removed _ report hreport hqueued hprocessing =>
        rw [hr, hz] at hreport
        cases hreport
        exact absurd hz' (by simp [hqueued, hprocessing])

-- ================================================================= the run

/-- The report has been active since an entry, and is. -/
def ActiveSince (newer : List REntry) (S : RState) (r : Id) : Prop :=
  (∀ e ∈ newer, activeReport r e.before.db = true) ∧ activeReport r S.db = true

/-- What a deletion commits after a start it had not looked before. -/
theorem Checked.not_since (hstart : Begins start) (h : Runs (contract cfg start) S)
    {newer older : List REntry} {e : REntry} (htr : S.trace = newer ++ e :: older)
    (hcommit : ∃ s ws, e.event = .commit s ws) (hactive : ActiveSince newer S r)
    (hquiet : deletionUnderWay r e.before older = false) {a : Id} {x : ReportAsset}
    (hx : asset? e.before.db a = some x) (hr : x.reportId = r) (hchecked : Checked S t r)
    (hlive : ∃ u, (t, Req.deleteAsset u r a) ∈ S.live) : False := by
  obtain ⟨u, hlive⟩ := hlive
  obtain ⟨e', he', rfl, hev', y, hy, heditable⟩ := hchecked
  rw [htr] at he'
  rcases List.mem_append.mp he' with hnew | hmem
  · exact not_editable (hactive.1 e' hnew) hy heditable
  rcases List.mem_cons.mp hmem with rfl | hold
  · obtain ⟨s, ws, hev⟩ := hcommit
    cases hev'.symm.trans hev
  · have hlive' := Runs.live_since hstart.trace h htr hold hlive
    have hunder : deletionUnderWay r e.before older = true := by
      refine List.any_eq_true.mpr ⟨_, hlive', ?_⟩
      simp only [hx, Option.any_some, hr, decide_true, Bool.true_and, List.any_eq_true]
      refine ⟨e', hold, ?_⟩
      simpa [foundEditable, hev', hy] using heditable
    rw [hquiet] at hunder
    cases hunder

/-- What a start leaves is held while the report is active. -/
theorem Runs.held (hstart : Begins start) (h : Runs (contract cfg start) S)
    {newer older : List REntry} {e : REntry} (htr : S.trace = newer ++ e :: older) {u : Id}
    {k : String} (hev : e.event = .commit (.start u r k g) ws) (hne : ws ≠ [])
    (hquiet : deletionUnderWay r e.before older = false) (hactive : ActiveSince newer S r) :
    Held S r (applyAll ws e.before.db) := by
  obtain ⟨S₀, hruns₀, hscene₀, -, heff₀⟩ := Runs.effect_at hstart h (by rw [htr]; simp) hev
  have hassets : ∀ a, asset? (applyAll ws e.before.db) a = asset? e.before.db a := by
    intro a
    unfold asset?
    rw [← hscene₀, heff₀.find?_eq (k := .asset a) (by simp [Key.table, Site.tables])]
  have hready : ∀ x : ReportAsset, asset? e.before.db x.id = some x → x.reportId = r →
      x.status = .ready := by
    intro x hx hr
    rw [← hscene₀] at hx
    rcases heff₀ with ⟨rfl, -⟩ | ⟨_, _, _, -, -, -, -, -, -, -, -, -, -, -, hall, -⟩
    · exact absurd rfl hne
    · exact hall x (mem_assetsOf.mpr ⟨hx, hr⟩)
  refine h.after (I := fun newer S => ActiveSince newer S r →
    Held S r (applyAll ws e.before.db)) hstart.trace htr ?_ ?_ hactive
  · intro S₀' S₁ hpast _ _
    obtain ⟨-, rfl⟩ := hpast.commit hev
    rw [← hpast.scene]
    exact ⟨fun x hx => ⟨x, hx, rfl, rfl⟩, fun _ _ => Iff.rfl⟩
  · intro j S S' newer added hruns htr ih hm hadded hactive'
    rcases hm.commit_or with ⟨s, ws', hC, -, rfl⟩ | ⟨hdb, htr'⟩
    · have hentry : added = [⟨j, .commit s ws', S.toScene⟩] :=
        List.append_cancel_right hadded.symm
      subst hentry
      have hbefore : ActiveSince newer S r :=
        ⟨fun e' he' => hactive'.1 e' (List.mem_cons_of_mem _ he'), hactive'.1 _ List.mem_cons_self⟩
      have hheld := ih hbefore
      have hstored : ∀ a x, asset? S.db a = some x → x.reportId = r →
          asset? e.before.db a = some x := by
        intro a x hx hr
        obtain rfl := asset?_id hx
        rw [← hassets]
        exact (hheld.assets x hr).mp hx
      constructor
      · intro x hx
        obtain ⟨y, hy, htitle, hnotes⟩ := hheld.texts x hx
        obtain ⟨z, hz, htitle', hnotes'⟩ := hC.1.texts hbefore.2 hy hactive'.2
        exact ⟨z, hz, htitle'.trans htitle, hnotes'.trans hnotes⟩
      · intro a hr
        refine Iff.trans (hC.1.assets_kept hbefore.2 ?_ ?_ hr) (hheld.assets a hr)
        · intro i x hx hr
          have hx' := hstored i x hx hr
          exact hready x (asset?_id hx' ▸ hx') hr
        · intro i x hx hr hchecked hlive
          exact Checked.not_since hstart hruns htr ⟨_, _, hev⟩ hbefore hquiet (hstored i x hx hr) hr
            hchecked hlive
    · have hbefore : ActiveSince newer S r :=
        ⟨fun e' he' => hactive'.1 e' (List.mem_append_right _ he'), hdb ▸ hactive'.2⟩
      have hheld := ih hbefore
      exact ⟨hdb ▸ hheld.texts, hdb ▸ hheld.assets⟩

/-- The snapshot of a stored generation is the one its start took. -/
theorem Runs.started_snapshot (hstart : Begins start) (h : Runs (contract cfg start) S)
    {newer older : List REntry} {e : REntry} (htr : S.trace = newer ++ e :: older) {u : Id}
    {k : String} (hev : e.event = .commit (.start u r k g) ws) (hne : ws ≠ [])
    {x : ReportGeneration} (hx : generation? S.db g = some x) :
    ∃ y, generation? (applyAll ws e.before.db) g = some y ∧ y.inputSnapshot = x.inputSnapshot := by
  have horigin : ∀ x, generation? S.db g = some x →
      ∃ y, generation? (applyAll ws e.before.db) g = some y ∧ SameOrigin y x := by
    refine h.after (I := fun _ S => ∀ x, generation? S.db g = some x →
      ∃ y, generation? (applyAll ws e.before.db) g = some y ∧ SameOrigin y x) hstart.trace htr ?_ ?_
    · intro S₀ S₁ hpast _ x hx
      obtain ⟨-, rfl⟩ := hpast.commit hev
      rw [← hpast.scene]
      exact ⟨x, hx, SameOrigin.refl x⟩
    · intro j S S' newer added hruns htr ih hm hadded x hx
      rcases hm.commit_or with ⟨s, ws', hC, -, rfl⟩ | ⟨hdb, -⟩
      · cases hbefore : generation? S.db g with
        | some y =>
            obtain ⟨z, hz, hsame⟩ := ih y hbefore
            exact ⟨z, hz, hsame.trans (hC.1.origin hbefore hx)⟩
        | none =>
            -- the generation would be created a second time
            have hagain := hC.1.creates_generation hbefore hx S.toScene
            have htr' : (S.commit j s ws').trace
                = [] ++ ⟨j, .commit s ws', S.toScene⟩ :: S.trace := rfl
            refine absurd (creates_of_start (e := e) (u := u) ?_) (Runs.create_unique hstart
              (hruns.move hm) htr' (by rw [htr]; simp) hagain)
            rw [startOf, hev]
            cases ws with
            | nil => exact absurd rfl hne
            | cons _ _ => rfl
      · exact ih x (hdb ▸ hx)
  obtain ⟨y, hy, hsame⟩ := horigin x hx
  exact ⟨y, hy, hsame.inputSnapshot.symm⟩

/-- In every run, from a start at which no deletion of an asset of the
report is under way, its inputs are frozen while the report is active. -/
theorem frozen_inputs (h : Reached cfg w) {newer older : List REntry} {e : REntry}
    (htr : w.shared.trace = newer ++ e :: older) {u : Id} {k : String}
    (hev : e.event = .commit (.start u r k g) ws) (hne : ws ≠ [])
    (hactive : ActiveSince newer w.shared r)
    (hquiet : deletionUnderWay r e.before older = false) :
    Frozen w.shared g r (applyAll ws e.before.db) := by
  obtain ⟨start, hstart, hruns⟩ := h.runs
  have hheld := Runs.held hstart hruns htr hev hne hquiet hactive
  refine ⟨hheld, fun x snapshot hx hsnapshot b hb => ?_⟩
  obtain ⟨S₀, hruns₀, hscene₀, -, heff₀⟩ := Runs.effect_at hstart hruns (by rw [htr]; simp) hev
  obtain ⟨y, hy, hsame⟩ := Runs.started_snapshot hstart hruns htr hev hne hx
  obtain ⟨report, user, -, hrow⟩ := Starts.row heff₀ hne
  rw [← hscene₀] at hy
  cases hy.symm.trans hrow
  rw [hsnapshot] at hsame
  cases hsame
  obtain ⟨z, hz, hr, hready, hb'⟩ := Starts.snapshot hb
  refine ⟨z, ?_, hr, hready, by rw [hb']; rfl⟩
  have hid : z.id = b.id := asset?_id hz
  have hassets : asset? (applyAll ws e.before.db) z.id = some z := by
    rw [← hz, ← hid, ← hscene₀]
    unfold asset?
    rw [heff₀.find?_eq (k := .asset z.id) (by simp [Key.table, Site.tables])]
  rw [← hid]
  exact (hheld.assets z hr).mpr hassets

-- ================================================================ two runs

/-- The trace splits at a start on report 10 that found its audio asset 12,
and the report has been active since. -/
def splitsAtStart (newer : List REntry) (d : Db Row) : List REntry → Bool
  | ⟨_, .commit (.start _ 10 _ _) (w :: ws), sc⟩ :: _ =>
      newer.all (fun e => activeReport 10 e.before.db) && activeReport 10 d
        && (asset? (applyAll (w :: ws) sc.db) 12).any (·.reportId = 10)
  | _ => false

theorem splitsAtStart_eq {n : Nat} (h : splitsAtStart (S.trace.take n) S.db (S.trace.drop n) = true) :
    ∃ newer older e u k g ws x, S.trace = newer ++ e :: older ∧
      S.trace.drop n = e :: older ∧ e.event = .commit (.start u 10 k g) ws ∧ ws ≠ [] ∧
      ActiveSince newer S 10 ∧ asset? (applyAll ws e.before.db) 12 = some x ∧ x.reportId = 10 := by
  have hsplit := (List.take_append_drop n S.trace).symm
  unfold splitsAtStart at h
  split at h
  next t u k g w ws sc older hdrop =>
      simp only [Bool.and_eq_true, List.all_eq_true, Option.any_eq_true, decide_eq_true_eq] at h
      obtain ⟨⟨hsince, hactive⟩, x, hx, hr⟩ := h
      rw [hdrop] at hsplit
      exact ⟨S.trace.take n, older, _, u, k, g, w :: ws, x, hsplit, hdrop, rfl, by simp,
        ⟨hsince, hactive⟩, hx, hr⟩
  next => cases h

/-- The audio asset is confirmed, the report started, and an update of the
report turned away. -/
def updateRefused : List (Action Req Choice) :=
  audioConfirmed ++ .spawn 5 (.createGeneration 1 10 "k") :: steps 5 5
    ++ .spawn 6 (.updateReport 1 10 (some "u") none) :: steps 6 7

/-- A deletion that comes after the start is refused, and the inputs stay. -/
theorem frozen_inputs_refused : ∃ w d₀ g x, Reached defaults w ∧ asset? d₀ 12 = some x ∧
    asset? w.shared.db 12 = some x ∧ Frozen w.shared g 10 d₀ := by
  have hrun : (sampleWorld.runAll (app defaults) updateRefused).any (fun w =>
      splitsAtStart (w.shared.trace.take 8) w.shared.db (w.shared.trace.drop 8)
        && (w.shared.trace.drop 8).head?.all fun e =>
          !deletionUnderWay 10 e.before (w.shared.trace.drop 9)) = true := by
    decide +kernel
  obtain ⟨w, hw, hp⟩ := exists_reached hrun
  rw [Bool.and_eq_true] at hp
  obtain ⟨newer, older, e, u, k, g, ws, x, htr, hdrop, hev, hne, hactive, hx, hr⟩ :=
    splitsAtStart_eq hp.1
  have hquiet : deletionUnderWay 10 e.before older = false := by
    have holder : w.shared.trace.drop 9 = older := by
      rw [show (9 : Nat) = 8 + 1 from rfl, ← List.drop_drop, hdrop, List.drop_one, List.tail_cons]
    simpa [hdrop, holder] using hp.2
  have hfrozen := frozen_inputs hw htr hev hne hactive hquiet
  have hid : x.id = 12 := asset?_id hx
  exact ⟨w, _, g, x, hw, hx, by rw [← hid]; exact (hfrozen.assets x hr).mpr (hid ▸ hx), hfrozen⟩

/-- A deletion of the audio asset has found the report editable when the
generation is started. -/
def deletedLate : List (Action Req Choice) :=
  audioConfirmed ++ .spawn 5 (.deleteAsset 1 10 12) :: steps 5 3
    ++ .spawn 6 (.createGeneration 1 10 "k") :: steps 6 5 ++ steps 5 8

/-- The report is QUEUED and an asset of its generation is gone. -/
theorem input_deleted : ∃ cfg w newer older e u k g ws, cfg.accepted = true ∧ Reached cfg w ∧
    w.shared.trace = newer ++ e :: older ∧ e.event = .commit (.start u 10 k g) ws ∧ ws ≠ [] ∧
    ActiveSince newer w.shared 10 ∧ ¬ Frozen w.shared g 10 (applyAll ws e.before.db) := by
  have hrun : (sampleWorld.runAll (app defaults) deletedLate).any (fun w =>
      splitsAtStart (w.shared.trace.take 7) w.shared.db (w.shared.trace.drop 7)
        && (asset? w.shared.db 12).isNone) = true := by
    decide +kernel
  obtain ⟨w, hw, hp⟩ := exists_reached hrun
  rw [Bool.and_eq_true, Option.isNone_iff_eq_none] at hp
  obtain ⟨newer, older, e, u, k, g, ws, x, htr, -, hev, hne, hactive, hx, hr⟩ :=
    splitsAtStart_eq hp.1
  refine ⟨defaults, w, newer, older, e, u, k, g, ws, defaults_accepted, hw, htr, hev, hne, hactive,
    fun hfrozen => ?_⟩
  have hid : x.id = 12 := asset?_id hx
  have hstored := (hfrozen.assets x hr).mpr (hid ▸ hx)
  rw [hid, hp.2] at hstored
  cases hstored

end FastRep.Reports
