/-
The generation a report has under way.

A start finds no active generation of its report (the partial index
`ReportGeneration_one_active_per_report_key`), and every other commit that
leaves a generation active found it active, on the same report. So a
report has at most one (`Runs.one_active`), and what settles a generation
settles the only one of its report.

Nothing of the kind holds of a user: generations of several reports may be
under way at once.

`Effect.failed` and `Runs.finalized` say what the two settling commits of a
run leave of the generation and of its report together. `lasting_report` is
the lasting relation of reports: created once, under an id that is used up,
with an owner that stays.
-/
import FastRep.Reports.Proofs.Origins
import FastRep.Reports.Proofs.ReportChanges

namespace FastRep.Reports

open FastRep.Txn

variable {cfg : Config} {start S S' : RState} {t : Tid} {s : Site} {ws : List (Write Row Key)}
  {r g tok : Id}

-- ============================================================ one commit

theorem active_of_owned {x : ReportGeneration} (h : x.ownedBy tok = true) :
    x.status.active = true := by
  unfold ReportGeneration.ownedBy at h
  rw [Bool.and_eq_true, decide_eq_true_eq] at h
  rw [h.1]
  rfl

theorem active_of_claimable {x : ReportGeneration} {now : Time} (h : x.claimable now = true) :
    x.status.active = true := by
  unfold ReportGeneration.claimable at h
  rw [Bool.or_eq_true, Bool.and_eq_true, decide_eq_true_eq, decide_eq_true_eq] at h
  rcases h with h | ⟨h, -⟩ <;> rw [h] <;> rfl

/-- A generation that is active after a commit was active on its report
before, or was just started. -/
theorem Effect.active (h : Effect cfg t s ws S) {y : ReportGeneration}
    (hy : generation? (applyAll ws S.db) g = some y) (hactive : y.status.active = true) :
    (∃ x, generation? S.db g = some x ∧ x.status.active = true ∧ x.reportId = y.reportId) ∨
    ∃ u k, s = .start u y.reportId k g ∧ ws ≠ [] := by
  rcases h.generation g with hsame | hchange
  · exact Or.inl ⟨y, hsame ▸ hy, hactive, rfl⟩
  rw [hy] at hchange
  cases hbefore : generation? S.db g with
  | none =>
      rw [hbefore] at hchange
      cases hchange with
      | started u i k =>
          refine Or.inr ⟨u, k, rfl, ?_⟩
          rintro rfl
          cases hbefore.symm.trans hy
  | some x =>
      rw [hbefore] at hchange
      cases hchange with
      | enqueued x now hqueued => exact Or.inl ⟨x, rfl, by rw [hqueued]; rfl, rfl⟩
      | claimed tok x now lease hclaimable =>
          exact Or.inl ⟨x, rfl, active_of_claimable hclaimable, rfl⟩
      | fenced s tok x y _ howned hcore =>
          exact Or.inl ⟨x, rfl, active_of_owned howned, hcore.reportId.symm⟩
      | requeued tok x _ howned => exact Or.inl ⟨x, rfl, active_of_owned howned, rfl⟩
      | cancelled => cases hactive
      | failed => cases hactive
      | completed => cases hactive

/-- The generation and the report after a commit that settles them
together. -/
theorem lookups_of_settling {l rest : List (Write Row Key)} {y : ReportGeneration} {z : Report}
    {d : Db Row} (hl : ∀ w ∈ l, w.target.table ∈ [Table.output])
    (hrest : ∀ w ∈ rest, w.target.table ∈ [Table.grant, .ledger]) :
    (∀ g, generation? (applyAll (l ++ .update (.generation y) :: .update (.report z) :: rest) d) g
      = if y.id = g then some y else generation? d g) ∧
    ∀ i, report? (applyAll (l ++ .update (.generation y) :: .update (.report z) :: rest) d) i
      = if z.id = i then some z else report? d i := by
  have hother : ∀ w ∈ rest, w.target.table ≠ .generation ∧ w.target.table ≠ .report := by
    intro w hw
    have h := hrest w hw
    constructor <;> intro heq <;> rw [heq] at h <;> simp at h
  have hfirst : ∀ w ∈ l, w.target.table ≠ .generation ∧ w.target.table ≠ .report := by
    intro w hw
    have h := hl w hw
    constructor <;> intro heq <;> rw [heq] at h <;> simp at h
  constructor
  · intro g
    refine generation?_applyAll (fun w hw => (hfirst w hw).1) rfl fun w hw => ?_
    rcases List.mem_cons.mp hw with rfl | hw
    · simp [Write.target, Key.table, key]
    · exact (hother w hw).1
  · intro i
    rw [List.append_cons]
    refine report?_applyAll (fun w hw => ?_) rfl fun w hw => (hother w hw).2
    rcases List.mem_append.mp hw with hw | hw
    · exact (hfirst w hw).2
    · cases List.mem_singleton.mp hw
      simp [Write.target, Key.table, key]

/-- What `failGeneration` leaves of the generation and its report. -/
theorem Effect.failed (h : Effect cfg t (.failGeneration g tok) ws S) (hne : ws ≠ []) :
    ∃ x r errorCode message now read hasOutput credit,
      generation? S.db g = some x ∧ x.ownedBy tok = true ∧ report? S.db x.reportId = some r ∧
      Since S (fun d => generation? d g = some x)
        (fun d => reportWithOutput x.reportId d = some (read, hasOutput)) ∧
      ClaimedBefore S t g tok now ∧ now ≤ S.clock ∧
      ws = .update (.generation (x.ended errorCode message now))
        :: .update (.report (r.failedAt cfg now hasOutput read)) :: credit ∧
      generation? (applyAll ws S.db) g = some (x.ended errorCode message now) ∧
      ∀ i, report? (applyAll ws S.db) i
        = if x.reportId = i then some (r.failedAt cfg now hasOutput read) else report? S.db i := by
  obtain rfl | ⟨x, r, errorCode, message, now, read, hasOutput, credit, hx, howned, hr, hsince,
    hclaimed, hnow, rfl, hcredit⟩ := h
  · exact absurd rfl hne
  obtain ⟨hgen, hreport⟩ := lookups_of_settling (l := []) (d := S.db)
    (y := x.ended errorCode message now) (z := r.failedAt cfg now hasOutput read) (by simp)
    hcredit.tables
  have hid : (x.ended errorCode message now).id = g := by
    rw [← generation?_id hx]
    rfl
  have hid' : (r.failedAt cfg now hasOutput read).id = x.reportId := by
    rw [← report?_id hr]
    rfl
  refine ⟨x, r, errorCode, message, now, read, hasOutput, credit, hx, howned, hr, hsince, hclaimed,
    hnow, rfl, ?_, fun i => ?_⟩
  · exact (hgen g).trans (if_pos hid)
  · rw [← hid']
    exact hreport i

/-- What `finalizeSuccess` leaves of the generation and its report. -/
theorem Runs.finalized (hstart : Begins start) (hruns : Runs (contract cfg start) S)
    (h : Effect cfg t (.finalizeSuccess g tok) ws S) :
    ∃ x r o now credit, generation? S.db g = some x ∧ x.ownedBy tok = true ∧
      report? S.db x.reportId = some r ∧ o.generationId = g ∧ o.reportId = x.reportId ∧
      (∃ u, o.storageKey = .output u x.reportId g tok) ∧ output? S.db g = none ∧
      (∀ o' ∈ outputs S.db, o'.reportId ≠ x.reportId) ∧
      ws = .insert (.output o) :: .update (.generation (x.completed now))
        :: .update (.report r.published) :: credit ∧
      generation? (applyAll ws S.db) g = some (x.completed now) ∧
      ∀ i, report? (applyAll ws S.db) i
        = if x.reportId = i then some r.published else report? S.db i := by
  obtain ⟨x, r, o, now, credit, hx, howned, hr, hog, hor, ⟨u, hkey⟩, hnone, hother, honce, rfl,
    hconsumes⟩ := h
  obtain ⟨e, he, y, hy, hyr⟩ := honce
  -- the report loaded with the generation is still its report
  have hreport : x.reportId = r.id :=
    ((hruns.persists (lasting_generation hstart g)).same e he y x hy hx).reportId.trans hyr
  obtain ⟨hgen, hreports⟩ := lookups_of_settling (l := [.insert (.output o)])
    (d := S.db) (y := x.completed now) (z := r.published) (by simp [Write.target, Key.table, key])
    (fun w hw => by rw [hconsumes.tables w hw]; simp)
  have hid : (x.completed now).id = g := by
    rw [← generation?_id hx]
    rfl
  refine ⟨x, r, o, now, credit, hx, howned, hreport ▸ hr, hog, hreport ▸ hor,
    ⟨u, hreport ▸ hkey⟩, hnone, hreport ▸ hother, rfl, (hgen g).trans (if_pos hid), fun i => ?_⟩
  rw [hreport]
  exact hreports i

-- ================================================================= the run

/-- A report has one active generation at most. -/
def OneActive (S : RState) (r : Id) : Prop :=
  ∀ g g' x x', generation? S.db g = some x → generation? S.db g' = some x' →
    x.reportId = r → x'.reportId = r → x.status.active = true → x'.status.active = true → g = g'

/-- Before a start its report has no active generation. -/
theorem Starts.idle {u : Id} {k : String} (h : Starts cfg t u r k g ws S) (hne : ws ≠ [])
    {g' : Id} {x : ReportGeneration} (hx : generation? S.db g' = some x) (hr : x.reportId = r) :
    x.status.active = false := by
  rcases h with ⟨rfl, -⟩ | ⟨_, _, _, -, -, -, -, -, -, -, hidle, -⟩
  · exact absurd rfl hne
  · have hid : x.id = g' := generation?_id hx
    by_contra hactive
    exact hidle x (mem_generations.mpr (hid ▸ hx)) (by simpa using hactive) hr

/-- In every state of a run a report has at most one active generation. -/
theorem Runs.one_active (hstart : Begins start) (h : Runs (contract cfg start) S) (r : Id) :
    OneActive S r := by
  refine h.invariant (I := (OneActive · r)) ?_ ?_
  · intro g _ x _ hx
    have hnone := generation?_eq_none.mpr (hstart.unused.find?_eq_none (k := .generation g)
      (by simp [Key.table]) (by simp [Key.table]))
    exact absurd (hx.symm.trans hnone) (by simp)
  · intro j S S' _ ih hm g g' y y' hy hy' hr hr' hactive hactive'
    rcases hm.commit_or with ⟨s, ws, hC, -, rfl⟩ | ⟨hdb, -⟩
    · rcases hC.1.active hy hactive with ⟨x, hx, hxa, hxr⟩ | ⟨u, k, rfl, hne⟩
      · rcases hC.1.active hy' hactive' with ⟨x', hx', hxa', hxr'⟩ | ⟨u, k, rfl, hne⟩
        · exact ih g g' x x' hx hx' (hxr.trans hr) (hxr'.trans hr') hxa hxa'
        · have hidle := Starts.idle hC.1 hne hx (hxr.trans (hr.trans hr'.symm))
          exact absurd hxa (by simp [hidle])
      · rcases hC.1.active hy' hactive' with ⟨x', hx', hxa', hxr'⟩ | ⟨u', k', heq, -⟩
        · have hidle := Starts.idle hC.1 hne hx' (hxr'.trans (hr'.trans hr.symm))
          exact absurd hxa' (by simp [hidle])
        · simp only [Site.start.injEq] at heq
          exact heq.2.2.2
    · rw [hdb] at hy hy'
      exact ih g g' y y' hy hy' hr hr' hactive hactive'

/-- The report of a row is created once, and keeps its owner. -/
def SameOwner (x y : Report) : Prop := y.id = x.id ∧ y.userId = x.userId

/-- A report that appears with a commit is created by it. -/
theorem Effect.creates_report (h : Effect cfg t s ws S) (hnone : report? S.db r = none)
    {y : Report} (hy : report? (applyAll ws S.db) r = some y) (sc : Scene Row Site Req Env) :
    r ∈ creates ⟨t, .commit s ws, sc⟩ := by
  rcases h.report r with hsame | hchange
  · rw [hsame, hnone] at hy
    cases hy
  · rw [hnone, hy] at hchange
    cases hchange with
    | created => exact List.mem_singleton_self r
    | duplicated => exact List.mem_cons_self

/-- It is a draft without history. -/
theorem Effect.new_report (h : Effect cfg t s ws S) (hnone : report? S.db r = none) {y : Report}
    (hy : report? (applyAll ws S.db) r = some y) :
    ∃ userId title notes createdAt, y = newReport r userId title notes createdAt := by
  rcases h.report r with hsame | hchange
  · rw [hsame, hnone] at hy
    cases hy
  · rw [hnone, hy] at hchange
    cases hchange with
    | created u title notes createdAt => exact ⟨u, title, notes, createdAt, rfl⟩
    | duplicated u title notes createdAt => exact ⟨u, title, notes, createdAt, rfl⟩

/-- A report keeps its owner until it is deleted, and does not come back. -/
theorem lasting_report (hstart : Begins start) (r : Id) :
    Lasts cfg start (fun d => report? d r) SameOwner r where
  used := creates_once
  trace := hstart.trace
  none := report?_eq_none.mpr (hstart.unused.find?_eq_none (k := .report r)
    (by simp [Key.table]) (by simp [Key.table]))
  refl _ := ⟨rfl, rfl⟩
  trans h h' := ⟨h'.1.trans h.1, h'.2.trans h.2⟩
  same {_ _ ws S x y} hC _ hx hy := by
    rcases hC.1.report r with hsame | hchange
    · cases hx.symm.trans (hsame.symm.trans hy)
      exact ⟨rfl, rfl⟩
    · change report? S.db r = some x at hx
      change report? (applyAll ws S.db) r = some y at hy
      rw [hx, hy] at hchange
      cases hchange <;> exact ⟨rfl, rfl⟩
  new hC hnone hy := hC.1.creates_report hnone hy _

end FastRep.Reports
