/-
The changes of the row of a report are all there are.
-/
import FastRep.Reports.Proofs.Changes

namespace FastRep.Reports

open FastRep.Txn

variable {cfg : Config} {t : Tid} {s : Site} {S : RState} {ws : List (Write Row Key)}
  {d : Db Row} {i : Id}

/-- A write of a report among writes to other tables. -/
theorem report?_applyAll {l rest : List (Write Row Key)} {w : Write Row Key} {x : Report}
    (hl : ∀ w ∈ l, w.target.table ≠ .report) (hw : w.row? = some (.report x))
    (hrest : ∀ w ∈ rest, w.target.table ≠ .report) :
    report? (applyAll (l ++ w :: rest) d) i = if x.id = i then some x else report? d i := by
  have hbefore := report?_congr (find?_applyAll_of_table (d := d) (k := .report i) hl)
  rw [applyAll_append, applyAll_cons, report?_congr (find?_applyAll_of_table hrest), ← hbefore]
  cases w with
  | insert r =>
      cases hw
      exact report?_put_report x
  | update r =>
      cases hw
      exact report?_put_report x
  | erase k => cases hw

/-- What such a write does to the reports. -/
theorem report_of_write {l rest : List (Write Row Key)} {w : Write Row Key} {x : Report} {j : Id}
    {before : Option Report} (hl : ∀ w ∈ l, w.target.table ≠ .report)
    (hw : w.row? = some (.report x)) (hrest : ∀ w ∈ rest, w.target.table ≠ .report)
    (hchange : ReportChange cfg S j s before (some x)) (hbefore : report? S.db j = before)
    (hx : x.id = j) (i : Id) :
    report? (applyAll (l ++ w :: rest) S.db) i = report? S.db i ∨
      ReportChange cfg S i s (report? S.db i) (report? (applyAll (l ++ w :: rest) S.db) i) := by
  rw [report?_applyAll hl hw hrest]
  by_cases hi : x.id = i
  · subst hx
    rw [if_pos hi, ← hi, hbefore]
    exact Or.inr hchange
  · rw [if_neg hi]
    exact Or.inl rfl

/-- A change of a report that follows a change of its generation. -/
theorem report_of_follow {l follow : List (Write Row Key)} {x : ReportGeneration}
    {p : Report → Bool} {status : ReportStatus} (hl : ∀ w ∈ l, w.target.table ≠ .report)
    (hfollow : Follows x p status follow S)
    (hchange : ∀ r, report? S.db x.reportId = some r → p r = true →
      ReportChange cfg S x.reportId s (some r) (some { r with status })) (i : Id) :
    report? (applyAll (l ++ follow) S.db) i = report? S.db i ∨
      ReportChange cfg S i s (report? S.db i) (report? (applyAll (l ++ follow) S.db) i) := by
  rcases hfollow with ⟨r, hr, hp, rfl⟩ | ⟨rfl, -⟩
  · have hid : r.id = x.reportId := report?_id hr
    exact report_of_write hl rfl (by simp) (hchange r hr hp) hr hid i
  · rw [List.append_nil]
    exact Or.inl (report?_congr (find?_applyAll_of_table hl))

/-- What a deletion of generations and reports does to a report. -/
theorem Removes.report_cases {gone reports : Id → Prop} {d' : Db Row} (h : Removes gone reports d' ws)
    (i : Id) : report? (applyAll ws d) i = report? d i ∨
      (report? (applyAll ws d) i = none ∧ reports i) := by
  rcases find?_applyAll_cases (d := d) h.nodup (.report i) with ⟨w, hw, htarget, hrow⟩ | hsame
  · refine Or.inr ?_
    rcases h.writes w hw with ⟨x, -, -, rfl⟩ | ⟨x, -, -, rfl⟩ | ⟨id, -, rfl⟩ | ⟨r, hr, rfl⟩ |
      ⟨g, -, rfl⟩ | ⟨o, -, -, rfl⟩ | ⟨l, g, -, -, -, rfl⟩
    case inr.inr.inr.inl =>
      cases htarget
      exact ⟨report?_eq_none.mpr hrow, hr⟩
    all_goals cases htarget
  · exact Or.inl (report?_congr hsame)

/-- What a commit does to a report. -/
theorem Effect.report (h : Effect cfg t s ws S) (i : Id) :
    report? (applyAll ws S.db) i = report? S.db i ∨
      ReportChange cfg S i s (report? S.db i) (report? (applyAll ws S.db) i) := by
  have hcredit : ∀ {ws : List (Write Row Key)},
      (∀ w ∈ ws, w.target.table ∈ [Table.grant, .ledger]) →
      ∀ w ∈ ws, w.target.table ≠ .report := by
    intro ws hws w hw he
    have hmem := hws w hw
    rw [he] at hmem
    simp at hmem
  have hnone : ∀ w ∈ ([] : List (Write Row Key)), w.target.table ≠ .report := by simp
  have hgeneration : ∀ x : ReportGeneration,
      ∀ w ∈ [Write.update (Row.generation x)], w.target.table ≠ .report := by
    simp [Write.target, key, Key.table]
  cases s with
  | start u j k g =>
      obtain ⟨rfl, -⟩ | ⟨r, user, credit, rfl, hcred, hnew, -, hr, -, hstatus, -, -, -, hlock,
        -⟩ := h
      · exact Or.inl rfl
      · have hid : r.id = j := report?_id hr
        refine report_of_write (l := _ :: credit) (fun w hw => ?_) rfl hnone
          (.queued u k g r hstatus hlock hnew) hr hid i
        rcases List.mem_cons.mp hw with rfl | hw
        · simp [Write.target, key, Key.table]
        · exact hcredit hcred.tables w hw
  | compensateQueueFailure g =>
      obtain rfl | ⟨_, _, _, x, y, credit, follow, removal, -, -, -, -, -, -, rfl, hcred, hfollow,
        -, hremoves⟩ := h
      · exact Or.inl rfl
      · rw [applyAll_append]
        have hafter : report? (applyAll removal (applyAll (credit ++ follow) S.db)) i
            = report? (applyAll (credit ++ follow) S.db) i := by
          rcases hremoves.report_cases (d := applyAll (credit ++ follow) S.db) i with hsame | ⟨-, hf⟩
          · exact hsame
          · exact hf.elim
        rw [hafter]
        rcases hfollow with ⟨r, hr, hqueued, rfl⟩ | ⟨rfl, -⟩
        · have hid : r.id = x.reportId := report?_id hr
          exact report_of_write (hcredit hcred.tables) rfl hnone
            (.restored g r x.priorReportStatus hqueued) hr hid i
        · rw [List.append_nil]
          exact Or.inl (report?_congr (find?_applyAll_of_table (hcredit hcred.tables)))
  | cancel g =>
      obtain ⟨x, r, now, prior, credit, hx, hqueued, hr, -, rfl, hcred⟩ := h
      have hid : r.id = x.reportId := report?_id hr
      exact report_of_write (l := [_]) (hgeneration _) rfl (hcredit hcred.tables)
        (.released g x r prior hx hqueued rfl) hr hid i
  | claim g tok =>
      obtain ⟨rfl | ⟨x, now, lease, follow, hx, -, rfl, hfollow⟩, -⟩ := h
      · exact Or.inl rfl
      · refine report_of_follow (l := [_]) (hgeneration _) hfollow (fun r hr hp => ?_) i
        exact .processing g tok x r hx rfl (by simpa using hp)
  | prepareRetry g tok =>
      obtain rfl | ⟨x, errorCode, follow, hx, hown, rfl, hfollow⟩ := h
      · exact Or.inl rfl
      · refine report_of_follow (l := [_]) (hgeneration _) hfollow (fun r hr hp => ?_) i
        exact .requeued g tok x r hx hown rfl (by simpa using hp)
  | failGeneration g tok =>
      obtain rfl | ⟨x, r, errorCode, message, now, read, hasOutput, credit, hx, hown, hr, -, -, -,
        rfl, hcred⟩ := h
      · exact Or.inl rfl
      · have hid : r.id = x.reportId := report?_id hr
        exact report_of_write (l := [_]) (hgeneration _) rfl (hcredit hcred.tables)
          (.failed g tok x r now hasOutput read hx hown rfl) hr hid i
  | finalizeSuccess g tok =>
      obtain ⟨x, r, o, now, credit, hx, hown, hr, -, -, -, -, -, -, rfl, hcred⟩ := h
      refine report_of_write (l := [_, _]) (fun w hw => ?_) rfl (fun w hw => ?_)
        (.published g tok x r hx hown) hr rfl i
      · rcases List.mem_cons.mp hw with rfl | hw
        · simp [Write.target, key, Key.table]
        · exact hgeneration _ w hw
      · rw [hcred.tables w hw]
        simp
  | createReport j =>
      obtain ⟨u, title, notes, createdAt, rfl, hnew, -⟩ := h
      exact report_of_write (l := []) hnone rfl hnone (.created u title notes createdAt) hnew rfl i
  | duplicateReport j =>
      obtain ⟨u, source, title, notes, createdAt, copies, rfl, hnew, -⟩ := h
      refine report_of_write (l := []) hnone rfl (fun w hw => ?_)
        (.duplicated u title notes createdAt) hnew rfl i
      obtain ⟨c, -, rfl⟩ := List.mem_map.mp hw
      simp [Write.target, key, Key.table]
  | updateReport j =>
      obtain rfl | ⟨r, title, notes, hr, hstatus, rfl⟩ := h
      · exact Or.inl rfl
      · have hid : r.id = j := report?_id hr
        exact report_of_write (l := []) hnone rfl hnone (.patched r title notes hstatus) hr hid i
  | deleteReport j =>
      obtain ⟨r, side, removal, hr, hqueued, hprocessing, hside, -, rfl, -, -, -, hremoves⟩ := h
      have hbefore : report? (applyAll side S.db) i = report? S.db i := by
        refine report?_congr (find?_applyAll_of_table fun w hw => ?_)
        obtain ⟨k, -, htask⟩ := hside w hw
        rw [htask.table]
        simp [Key.table]
      rw [applyAll_append]
      rcases hremoves.report_cases (d := applyAll side S.db) i with hsame | ⟨hgone, rfl⟩
      · exact Or.inl (hsame.trans hbefore)
      · rw [hgone, hr]
        exact Or.inr (.removed r hqueued hprocessing)
  | _ => exact Or.inl (report?_congr (h.find?_eq (by simp [Site.tables, Key.table])))

end FastRep.Reports
