/-
What a commit does to the rows a run produces: an output, and a
transcription.

Both are inversions of `Effect`, with one case for each site that writes
the table. A transcription is written by an upsert that reads it without a
lock, so its change says what was stored at the commit only where the
effect does.

An output is inserted by a publication and removed with its generation or its
report, and never updated. A transcription goes with its asset.
-/
import FastRep.Reports.Proofs.ReportChanges

namespace FastRep.Reports

open FastRep.Txn

variable {cfg : Config} {t : Tid} {s : Site} {S : RState} {ws : List (Write Row Key)}
  {d : Db Row} {g : Id}

-- ============================================================== outputs

/-- A deletion takes the outputs of what is deleted and no others. -/
theorem Removes.output_cases {gone reports : Id → Prop} {d' : Db Row}
    (h : Removes gone reports d' ws) (g : Id) : output? (applyAll ws d) g = output? d g ∨
      (output? (applyAll ws d) g = none ∧
        ∃ o, output? d' g = some o ∧ (gone g ∨ reports o.reportId)) := by
  rcases find?_applyAll_cases (d := d) h.nodup (.output g) with ⟨w, hw, htarget, hrow⟩ | hsame
  · refine Or.inr ?_
    rcases h.writes w hw with ⟨x, -, -, rfl⟩ | ⟨x, -, -, rfl⟩ | ⟨id, -, rfl⟩ | ⟨r, -, rfl⟩ |
      ⟨i, -, rfl⟩ | ⟨o, ho, hgone, rfl⟩ | ⟨l, i, -, -, -, rfl⟩
    case inr.inr.inr.inr.inr.inl =>
      have hid : o.generationId = g := Key.output.inj htarget
      subst hid
      exact ⟨output?_eq_none.mpr hrow, o, ho, hgone⟩
    all_goals cases htarget
  · exact Or.inl (output?_congr hsame)

/-- The writes of a deleted report leave no output of it. -/
theorem Deletes.output {i : Id} (h : Deletes i ws S) {o : ReportOutput} (ho : o ∈ outputs S.db)
    (hr : o.reportId = i) : output? (applyAll ws S.db) o.generationId = none := by
  obtain ⟨r, side, removal, -, -, -, -, -, rfl, -, houtputs, -, hremoves⟩ := h
  rw [applyAll_append, output?_eq_none]
  exact find?_applyAll_of_mem hremoves.nodup (houtputs o ho hr)

/-- A success stores the output it inserts. -/
theorem Finalizes.output {tok : Id} (h : Finalizes g tok ws S) {o : ReportOutput}
    (ho : .insert (.output o) ∈ ws) :
    o.generationId = g ∧ output? (applyAll ws S.db) g = some o := by
  obtain ⟨x, r, o', now, credit, -, -, -, hgen, -, -, -, -, -, rfl, hcred⟩ := h
  have hrest : ∀ w ∈ .update (.generation (x.completed now)) :: .update (.report r.published)
      :: credit, w.target.table ≠ .output := by
    intro w hw
    rcases List.mem_cons.mp hw with rfl | hw
    · simp [Write.target, key, Key.table]
    · rcases List.mem_cons.mp hw with rfl | hw
      · simp [Write.target, key, Key.table]
      · rw [hcred.tables w hw]
        simp
  rcases List.mem_cons.mp ho with heq | ho
  · cases heq
    refine ⟨hgen, ?_⟩
    rw [applyAll_cons, output?_congr (find?_applyAll_of_table hrest)]
    exact (output?_put_output o).trans (if_pos hgen)
  · exact absurd rfl (hrest _ ho)

/-- What a commit does to an output. -/
theorem Effect.output (h : Effect cfg t s ws S) (g : Id) :
    output? (applyAll ws S.db) g = output? S.db g ∨
      OutputChange S g s (output? S.db g) (output? (applyAll ws S.db) g) := by
  cases s with
  | compensateQueueFailure i =>
      obtain rfl | ⟨_, _, _, x, y, credit, follow, removal, -, -, -, -, -, -, rfl, hcred, hfollow,
        -, hremoves⟩ := h
      · exact Or.inl rfl
      · have hbefore : output? (applyAll (credit ++ follow) S.db) g = output? S.db g := by
          refine output?_congr (find?_applyAll_of_table fun w hw => ?_)
          rcases List.mem_append.mp hw with hw | hw
          · have htable := hcred.tables w hw
            intro he
            rw [he] at htable
            simp [Key.table] at htable
          · rcases hfollow with ⟨r, -, -, rfl⟩ | ⟨rfl, -⟩
            · cases List.mem_singleton.mp hw
              simp [Write.target, key, Key.table]
            · cases hw
        rw [applyAll_append]
        rcases hremoves.output_cases (d := applyAll (credit ++ follow) S.db) g with
          hsame | ⟨hgone, o, ho, rfl | hf⟩
        · exact Or.inl (hsame.trans hbefore)
        · rw [hgone, ← hbefore, ho]
          exact Or.inr (.compensated o)
        · exact hf.elim
  | finalizeSuccess i tok =>
      have hstored := fun o ho => (Finalizes.output h (o := o) ho).2
      obtain ⟨x, r, o, now, credit, hx, hown, -, hgen, hrep, ⟨u, hkey⟩, hnone, -, honce, rfl,
        hcred⟩ := h
      by_cases hi : i = g
      · subst hi
        rw [hnone, hstored o List.mem_cons_self]
        exact Or.inr (.published tok x o u hx hown hgen (hrep ▸ hkey) (hrep ▸ honce))
      · refine Or.inl (output?_congr (find?_applyAll_ne (fun w hw he => ?_) _))
        rcases List.mem_cons.mp hw with rfl | hw
        · exact hi (hgen.symm.trans (Key.output.inj he))
        · rcases List.mem_cons.mp hw with rfl | hw
          · cases he
          · rcases List.mem_cons.mp hw with rfl | hw
            · cases he
            · have htable := hcred.tables w hw
              rw [he] at htable
              cases htable
  | deleteReport i =>
      obtain ⟨r, side, removal, -, -, -, hside, -, rfl, -, -, -, hremoves⟩ := h
      have hbefore : output? (applyAll side S.db) g = output? S.db g := by
        refine output?_congr (find?_applyAll_of_table fun w hw => ?_)
        obtain ⟨k, -, htask⟩ := hside w hw
        rw [htask.table]
        simp [Key.table]
      rw [applyAll_append]
      rcases hremoves.output_cases (d := applyAll side S.db) g with hsame | ⟨hgone, o, ho, hwhy⟩
      · exact Or.inl (hsame.trans hbefore)
      · rw [hgone, ho]
        exact Or.inr (.removed i o hwhy.symm)
  | _ => exact Or.inl (output?_congr (h.find?_eq (by simp [Site.tables, Key.table])))

-- ======================================================== transcriptions

/-- A transcription that is written last is the one that is found. -/
theorem transcription?_of_write {l : List (Write Row Key)} {w : Write Row Key}
    {x : ReportAssetTranscription} {a : Id} (hl : ∀ w ∈ l, w.target.table ≠ .transcription)
    (hw : w.row? = some (.transcription x)) :
    transcription? (applyAll (l ++ [w]) d) a
      = if x.assetId = a then some x else transcription? d a := by
  have hbefore : transcription? (applyAll l d) a = transcription? d a :=
    transcription?_congr (find?_applyAll_of_table hl)
  have hput : transcription? ((applyAll l d).put (.transcription x)) a
      = if x.assetId = a then some x else transcription? (applyAll l d) a := by
    by_cases hx : x.assetId = a
    · subst hx
      rw [if_pos rfl]
      exact transcription?_eq_some.mpr (Db.find?_put_self _ (Row.transcription x))
    · rw [if_neg hx]
      exact transcription?_congr (Db.find?_put_ne fun he => hx (Key.transcription.inj he))
  rw [applyAll_append, ← hbefore]
  cases w with
  | insert r => cases hw; exact hput
  | update r => cases hw; exact hput
  | erase k => cases hw

/-- A commit that ends with a write of a transcription changes that one. -/
theorem transcription_of_write {l : List (Write Row Key)} {w : Write Row Key}
    {x : ReportAssetTranscription} {i : Id} (hl : ∀ w ∈ l, w.target.table ≠ .transcription)
    (hw : w.row? = some (.transcription x)) (hx : x.assetId = i)
    (hchange : TranscriptionChange S i s (transcription? S.db i) (some x)) (a : Id) :
    transcription? (applyAll (l ++ [w]) S.db) a = transcription? S.db a ∨
      TranscriptionChange S a s (transcription? S.db a)
        (transcription? (applyAll (l ++ [w]) S.db) a) := by
  rw [transcription?_of_write hl hw, hx]
  split
  next ha =>
      subst ha
      exact Or.inr hchange
  next => exact Or.inl rfl

/-- Discarding an asset takes its transcription and no other. -/
theorem Discards.transcription {i : Id} (h : Discards i ws) (a : Id) :
    transcription? (applyAll ws d) a = transcription? d a ∨
      (a = i ∧ transcription? (applyAll ws d) a = none) := by
  have herase : ∀ w ∈ ws, w.target = .transcription a →
      w = .erase (.transcription a) ∧ a = i := by
    intro w hw htarget
    rcases h.2 w hw with rfl | rfl | ⟨id, -, rfl⟩ <;> cases htarget
    exact ⟨rfl, rfl⟩
  have hfind := find?_applyAll_of_erase (d := d) fun w hw ht => (herase w hw ht).1
  split at hfind
  next hmem => exact Or.inr ⟨(herase _ hmem rfl).2, transcription?_eq_none.mpr hfind⟩
  next => exact Or.inl (transcription?_congr hfind)

/-- A deletion takes the transcriptions of the deleted reports' assets and no
others. -/
theorem Removes.transcription {gone reports : Id → Prop} {d' : Db Row}
    (h : Removes gone reports d' ws) (a : Id) :
    transcription? (applyAll ws d) a = transcription? d a ∨
      (transcription? (applyAll ws d) a = none ∧
        ∃ x, asset? d' a = some x ∧ reports x.reportId) := by
  rcases find?_applyAll_cases (d := d) h.nodup (.transcription a) with
    ⟨w, hw, htarget, hrow⟩ | hsame
  · refine Or.inr ?_
    rcases h.writes w hw with ⟨x, -, -, rfl⟩ | ⟨x, hx, hr, rfl⟩ | ⟨id, -, rfl⟩ | ⟨r, -, rfl⟩ |
      ⟨i, -, rfl⟩ | ⟨o, -, -, rfl⟩ | ⟨l, i, -, -, -, rfl⟩
    case inr.inl =>
      have hid : x.id = a := Key.transcription.inj htarget
      exact ⟨transcription?_eq_none.mpr hrow, x, hid ▸ hx, hr⟩
    all_goals cases htarget
  · exact Or.inl (transcription?_congr hsame)

/-- What a commit does to a transcription. -/
theorem Effect.transcription (h : Effect cfg t s ws S) (a : Id) :
    transcription? (applyAll ws S.db) a = transcription? S.db a ∨
      TranscriptionChange S a s (transcription? S.db a)
        (transcription? (applyAll ws S.db) a) := by
  have hnone : ∀ w ∈ ([] : List (Write Row Key)), w.target.table ≠ .transcription := by simp
  have hgone : ∀ {d : Db Row}, transcription? d a = none →
      ((∃ i, s = .deleteReport i) ∨ s = .dropPendingAsset a ∨ s = .deleteAsset a) →
      transcription? d a = transcription? S.db a ∨
        TranscriptionChange S a s (transcription? S.db a) (transcription? d a) := by
    intro d hd hs
    rw [hd]
    cases transcription? S.db a with
    | none => exact Or.inl rfl
    | some x => exact Or.inr (.removed s x hs)
  have htasks : ∀ {l : List (Write Row Key)}, (∀ w ∈ l, ∃ k, TaskWrite k w) →
      transcription? (applyAll l S.db) a = transcription? S.db a := by
    intro l hl
    refine transcription?_congr (find?_applyAll_of_table fun w hw => ?_)
    obtain ⟨k, htask⟩ := hl w hw
    rw [htask.table]
    simp [Key.table]
  cases s with
  | beginTranscription i =>
      obtain ⟨⟨x, y, hx, hid, hstatus, rfl⟩ | ⟨y, -, hid, hstatus, rfl⟩, -⟩ := h
      · exact transcription_of_write (l := []) hnone rfl hid (.begun _ y hstatus) a
      · exact transcription_of_write (l := []) hnone rfl hid (.begun _ y hstatus) a
  | completeTranscription g tok i =>
      obtain ⟨-, id, x, y, side, -, hcloses, hx, hid, hstatus, rfl, e, he, -, k, fileName,
        mimeType, language, r, hev, htext⟩ := h
      refine transcription_of_write (fun w hw => ?_) rfl hid ?_ a
      · rw [hcloses.tables w hw]
        simp
      · rw [hx]
        exact .completed g tok x y k fileName mimeType language r hstatus ⟨e, he, hev⟩ htext
  | failTranscription i =>
      obtain ⟨⟨x, y, hx, hid, hstatus, rfl⟩, -⟩ := h
      refine transcription_of_write (l := []) hnone rfl hid ?_ a
      rw [hx]
      exact .failed x y hstatus
  | deleteReport i =>
      obtain ⟨r, side, removal, -, -, -, hside, -, rfl, -, -, -, hremoves⟩ := h
      rw [applyAll_append]
      rcases hremoves.transcription (d := applyAll side S.db) a with hsame | ⟨hd, -⟩
      · exact Or.inl (hsame.trans (htasks fun w hw => (hside w hw).imp fun _ h => h.2))
      · exact hgone hd (Or.inl ⟨i, rfl⟩)
  | dropPendingAsset i =>
      obtain rfl | ⟨hdiscards, -⟩ := h
      · exact Or.inl rfl
      · rcases hdiscards.transcription (d := S.db) a with hsame | ⟨rfl, hd⟩
        · exact Or.inl hsame
        · exact hgone hd (Or.inr (Or.inl rfl))
  | deleteAsset i =>
      obtain ⟨x, w', removal, -, htask, rfl, -, -, hremoval⟩ := h
      have hbefore := htasks (l := [w']) fun w hw => ⟨_, List.mem_singleton.mp hw ▸ htask⟩
      rw [applyAll_cons]
      rcases hremoval with ⟨rfl, -⟩ | ⟨y, -, -, hdiscards⟩
      · exact Or.inl hbefore
      · rcases hdiscards.transcription (d := w'.apply S.db) a with hsame | ⟨rfl, hd⟩
        · exact Or.inl (hsame.trans hbefore)
        · exact hgone hd (Or.inr (Or.inr rfl))
  | _ => exact Or.inl (transcription?_congr (h.find?_eq (by simp [Site.tables, Key.table])))

end FastRep.Reports
