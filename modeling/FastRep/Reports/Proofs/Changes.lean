/-
The changes of a row are all there are.

`Effect.tables` bounds the tables a commit writes to, so a row of another
table is what it was (`Effect.find?_eq`). For a row of a table that is
written, one theorem for each table lists the changes.

# How a theorem goes

The cases are those of the sites. A site that writes one row of the table is
one lookup under that write (`generation?_applyAll`, `find?_applyAll_cases`);
a deletion takes the rows that reference what it removes, by the cascade
(`Removes.generation?_of_gone`, `Removes.attempt`). What stays with a row as
long as it is stored follows from the changes alone (`SameOrigin`).

A new site of the source needs a line in `Effect.tables`, and a case here for
each table it writes.
-/
import FastRep.Reports.Changes
import FastRep.Reports.Proofs.Attempting
import FastRep.Reports.Proofs.Reporting

namespace FastRep.Reports

open FastRep.Txn

variable {cfg : Config} {t : Tid} {s : Site} {S : RState} {ws : List (Write Row Key)}
  {g : Id}

-- =============================================================== tables

theorem Releases.tables (h : Releases g ws S) :
    ∀ w ∈ ws, w.target.table ∈ [Table.grant, .ledger] := by
  intro w hw
  rcases h.target w hw with ⟨i, h⟩ | ⟨k, h⟩
  · rw [h]; exact List.mem_cons_self
  · rw [h]; exact List.mem_cons_of_mem _ List.mem_cons_self

theorem Reserves.tables {d : Db Row} (h : Reserves g ws d) :
    ∀ w ∈ ws, w.target.table ∈ [Table.grant, .ledger] := by
  intro w hw
  rcases h.target w hw with ⟨i, h⟩ | ⟨k, h⟩
  · rw [h]; exact List.mem_cons_self
  · rw [h]; exact List.mem_cons_of_mem _ List.mem_cons_self

theorem Consumes.tables (h : Consumes g ws S) : ∀ w ∈ ws, w.target.table = .ledger := by
  intro w hw
  rcases h with ⟨rfl, -⟩ | ⟨l, rfl, -⟩
  · cases hw
  · cases List.mem_singleton.mp hw
    rfl

theorem Grants.tables {k : LedgerKey} {p : GenerationCreditGrant → Prop}
    (h : Grants k p ws S) : ∀ w ∈ ws, w.target.table ∈ [Table.grant, .ledger] := by
  intro w hw
  rcases h with rfl | ⟨x, l, -, -, -, -, -, -, ⟨rfl, -⟩ | ⟨rfl, -⟩⟩
  · cases hw
  all_goals
    rcases List.mem_cons.mp hw with rfl | hw
    · exact List.mem_cons_self
    · cases List.mem_singleton.mp hw
      exact List.mem_cons_of_mem _ List.mem_cons_self

theorem Follows.tables {x : ReportGeneration} {p : Report → Bool} {status : ReportStatus}
    (h : Follows x p status ws S) : ∀ w ∈ ws, w.target.table = .report := by
  intro w hw
  rcases h with ⟨r, -, -, rfl⟩ | ⟨rfl, -⟩
  · cases List.mem_singleton.mp hw
    rfl
  · cases hw

theorem Closes.tables {id : AttemptKey} {status : GenerationProviderAttemptStatus}
    (h : Closes id status ws S) : ∀ w ∈ ws, w.target.table = .attempt := by
  obtain ⟨x, y, -, -, -, -, -, rfl⟩ := h
  intro w hw
  cases List.mem_singleton.mp hw
  rfl

theorem Transcribes.tables {a : Id} {status : AssetTranscriptionStatus}
    (h : Transcribes a status ws S) : ∀ w ∈ ws, w.target.table = .transcription := by
  obtain ⟨x, y, -, -, -, rfl⟩ := h
  intro w hw
  cases List.mem_singleton.mp hw
  rfl

theorem TaskWrite.target {k : StorageKey} {w : Write Row Key} (h : TaskWrite k w) :
    w.target = .cleanupTask k := by
  obtain ⟨r, rfl, rfl | rfl⟩ := h <;> rfl

theorem TaskWrite.table {k : StorageKey} {w : Write Row Key} (h : TaskWrite k w) :
    w.target.table = .cleanupTask := by
  rw [h.target]
  rfl

theorem Discards.tables {a : Id} (h : Discards a ws) :
    ∀ w ∈ ws, w.target.table ∈ [Table.asset, .transcription, .attempt] := by
  intro w hw
  rcases h.2 w hw with rfl | rfl | ⟨a, -, rfl⟩
  · exact List.mem_cons_self
  · exact List.mem_cons_of_mem _ List.mem_cons_self
  · exact List.mem_cons_of_mem _ (List.mem_cons_of_mem _ List.mem_cons_self)

theorem Removes.tables {gone reports : Id → Prop} {d : Db Row} (h : Removes gone reports d ws) :
    ∀ w ∈ ws, w.target.table ∈ [Table.report, .generation, .output, .ledger, .attempt] ∨
      (w.target.table ∈ [Table.asset, .transcription] ∧ ∃ i, reports i) := by
  intro w hw
  rcases h.writes w hw with ⟨x, -, hx, rfl⟩ | ⟨x, -, hx, rfl⟩ | ⟨a, -, rfl⟩ | ⟨r, -, rfl⟩ |
    ⟨i, -, rfl⟩ | ⟨o, -, -, rfl⟩ | ⟨l, i, -, -, -, rfl⟩
  · exact Or.inr ⟨List.mem_cons_self, _, hx⟩
  · exact Or.inr ⟨List.mem_cons_of_mem _ List.mem_cons_self, _, hx⟩
  all_goals exact Or.inl (by simp [Write.target, key, Key.table])

/-- A commit writes to the tables of its site only. -/
theorem Effect.tables (h : Effect cfg t s ws S) :
    ∀ w ∈ ws, w.target.table ∈ s.tables := by
  intro w hw
  have hcredit : ∀ {l : List Table}, w.target.table ∈ [Table.grant, .ledger] →
      Table.grant ∈ l → Table.ledger ∈ l → w.target.table ∈ l := by
    intro l hmem hg hl
    rcases List.mem_cons.mp hmem with he | he
    · rw [he]; exact hg
    · rw [List.mem_singleton.mp he]; exact hl
  cases s with
  | start u r k g =>
      obtain ⟨rfl, -⟩ | ⟨r, user, credit, rfl, hcred, -⟩ := h
      · cases hw
      · rcases List.mem_cons.mp hw with rfl | hw
        · exact List.mem_cons_self
        · rcases List.mem_append.mp hw with hw | hw
          · exact hcredit (hcred.tables w hw) (by simp [Site.tables]) (by simp [Site.tables])
          · cases List.mem_singleton.mp hw
            exact List.mem_cons_of_mem _ List.mem_cons_self
  | markEnqueued g =>
      obtain rfl | ⟨x, now, -, -, rfl, -⟩ := h
      · cases hw
      · cases List.mem_singleton.mp hw
        exact List.mem_cons_self
  | compensateQueueFailure g =>
      obtain rfl | ⟨_, _, _, x, y, credit, follow, removal, -, -, -, -, -, -, rfl, hcred, hfollow,
        -, hremoves⟩ := h
      · cases hw
      · rcases List.mem_append.mp hw with hw | hw
        · rcases List.mem_append.mp hw with hw | hw
          · exact hcredit (hcred.tables w hw) (by simp [Site.tables]) (by simp [Site.tables])
          · rcases hfollow with ⟨r, -, -, rfl⟩ | ⟨rfl, -⟩
            · cases List.mem_singleton.mp hw
              exact List.mem_cons_self
            · cases hw
        · rcases hremoves.tables w hw with hmem | ⟨-, i, hi⟩
          · simp only [List.mem_cons, List.not_mem_nil, or_false] at hmem
            rcases hmem with h | h | h | h | h <;> rw [h] <;> simp [Site.tables]
          · exact hi.elim
  | cancel g =>
      obtain ⟨x, r, now, prior, credit, -, -, -, -, rfl, hcred⟩ := h
      rcases List.mem_cons.mp hw with rfl | hw
      · exact List.mem_cons_self
      · rcases List.mem_cons.mp hw with rfl | hw
        · exact List.mem_cons_of_mem _ List.mem_cons_self
        · exact hcredit (hcred.tables w hw) (by simp [Site.tables]) (by simp [Site.tables])
  | claim g tok =>
      obtain ⟨rfl | ⟨x, now, lease, follow, -, -, rfl, hfollow⟩, -⟩ := h
      · cases hw
      · rcases List.mem_cons.mp hw with rfl | hw
        · exact List.mem_cons_self
        · rw [hfollow.tables w hw]
          exact List.mem_cons_of_mem _ List.mem_cons_self
  | prepareRetry g tok =>
      obtain rfl | ⟨x, errorCode, follow, -, -, rfl, hfollow⟩ := h
      · cases hw
      · rcases List.mem_cons.mp hw with rfl | hw
        · exact List.mem_cons_self
        · rw [hfollow.tables w hw]
          exact List.mem_cons_of_mem _ List.mem_cons_self
  | updateProgress g tok | persistReportResult g tok | renewLease g tok =>
      obtain rfl | ⟨x, y, side, -, -, -, hside, rfl⟩ := h
      · cases hw
      · rcases List.mem_append.mp hw with hw | hw
        · rcases hside with rfl | ⟨id, -, hcloses⟩
          · cases hw
          · rw [hcloses.tables w hw]
            exact List.mem_cons_of_mem _ List.mem_cons_self
        · cases List.mem_singleton.mp hw
          exact List.mem_cons_self
  | failGeneration g tok =>
      obtain rfl | ⟨x, r, errorCode, message, now, read, hasOutput, credit, -, -, -, -, -, -, rfl,
        hcred⟩ := h
      · cases hw
      · rcases List.mem_cons.mp hw with rfl | hw
        · exact List.mem_cons_self
        · rcases List.mem_cons.mp hw with rfl | hw
          · exact List.mem_cons_of_mem _ List.mem_cons_self
          · exact hcredit (hcred.tables w hw) (by simp [Site.tables]) (by simp [Site.tables])
  | finalizeSuccess g tok =>
      obtain ⟨x, r, o, now, credit, -, -, -, -, -, -, -, -, -, rfl, hcred⟩ := h
      rcases List.mem_cons.mp hw with rfl | hw
      · exact List.mem_cons_self
      · rcases List.mem_cons.mp hw with rfl | hw
        · exact List.mem_cons_of_mem _ List.mem_cons_self
        · rcases List.mem_cons.mp hw with rfl | hw
          · exact List.mem_cons_of_mem _ (List.mem_cons_of_mem _ List.mem_cons_self)
          · rw [hcred.tables w hw]
            simp [Site.tables]
  | startAttempt g tok operation assetId =>
      obtain ⟨y, rfl, -⟩ := h
      rcases List.mem_append.mp hw with hw | hw
      · obtain ⟨x, -, rfl⟩ := List.mem_map.mp hw
        exact List.mem_cons_self
      · cases List.mem_singleton.mp hw
        exact List.mem_cons_self
  | completeOwned g tok =>
      obtain ⟨id, snapshot, transcripts, -, hcloses, -⟩ := h
      rw [hcloses.tables w hw]
      exact List.mem_cons_self
  | failAttempt id =>
      obtain rfl | hcloses := h
      · cases hw
      · rw [hcloses.tables w hw]
        exact List.mem_cons_self
  | beginTranscription a =>
      obtain ⟨hchange | ⟨y, -, -, -, rfl⟩, -⟩ := h
      · rw [hchange.tables w hw]
        exact List.mem_cons_self
      · cases List.mem_singleton.mp hw
        exact List.mem_cons_self
  | completeTranscription g tok a =>
      obtain ⟨-, id, x, y, side, -, hcloses, -, -, -, rfl, -⟩ := h
      rcases List.mem_append.mp hw with hw | hw
      · rw [hcloses.tables w hw]
        exact List.mem_cons_self
      · cases List.mem_singleton.mp hw
        exact List.mem_cons_of_mem _ List.mem_cons_self
  | failTranscription a =>
      rw [Transcribes.tables h.1 w hw]
      exact List.mem_cons_self
  | allocateMonthly u k => exact Grants.tables h w hw
  | grantGenerationCredits k => exact Grants.tables h w hw
  | createReport i =>
      obtain ⟨u, title, notes, createdAt, rfl, -⟩ := h
      cases List.mem_singleton.mp hw
      exact List.mem_cons_self
  | updateReport i =>
      obtain rfl | ⟨r, title, notes, -, -, rfl⟩ := h
      · cases hw
      · cases List.mem_singleton.mp hw
        exact List.mem_cons_self
  | duplicateReport i =>
      obtain ⟨u, source, title, notes, createdAt, copies, rfl, -⟩ := h
      rcases List.mem_cons.mp hw with rfl | hw
      · exact List.mem_cons_self
      · obtain ⟨c, -, rfl⟩ := List.mem_map.mp hw
        exact List.mem_cons_of_mem _ List.mem_cons_self
  | rollbackDuplicateCopies i =>
      obtain ⟨u, a, n, -, htask⟩ := h.2 w hw
      rw [htask.table]
      exact List.mem_cons_self
  | deleteReport i =>
      obtain ⟨r, side, removal, -, -, -, hside, -, rfl, -, -, -, hremoves⟩ := h
      rcases List.mem_append.mp hw with hw | hw
      · obtain ⟨k, -, htask⟩ := hside w hw
        rw [htask.table]
        exact List.mem_cons_self
      · rcases hremoves.tables w hw with hmem | ⟨hmem, -⟩
        · simp only [List.mem_cons, List.not_mem_nil, or_false] at hmem
          rcases hmem with h | h | h | h | h <;> rw [h] <;> simp [Site.tables]
        · simp only [List.mem_cons, List.not_mem_nil, or_false] at hmem
          rcases hmem with h | h <;> rw [h] <;> simp [Site.tables]
  | enqueueCleanup k =>
      obtain ⟨w', x, rfl, htask, -⟩ := h
      cases List.mem_singleton.mp hw
      rw [htask.table]
      exact List.mem_cons_self
  | scheduleOrphanCleanup k =>
      obtain ⟨w', u, r, g, tok, rfl, htask, -⟩ := h
      cases List.mem_singleton.mp hw
      rw [htask.table]
      exact List.mem_cons_self
  | finishCleanup k =>
      rw [h.1 w hw]
      exact List.mem_cons_self
  | deferCleanup k =>
      rw [(h.2 w hw).table]
      exact List.mem_cons_self
  | createPendingAsset a =>
      obtain ⟨x, r, u, n, now, rfl, -⟩ := h
      cases List.mem_singleton.mp hw
      exact List.mem_cons_self
  | dropPendingAsset a =>
      obtain rfl | ⟨hdiscards, -⟩ := h
      · cases hw
      · exact hdiscards.tables w hw
  | markReady a =>
      obtain rfl | ⟨x, y, inspection, size, -, -, -, -, -, rfl⟩ := h
      · cases hw
      · cases List.mem_singleton.mp hw
        exact List.mem_cons_self
  | markRejected a | markExpired a =>
      obtain rfl | ⟨x, reason, -, -, rfl⟩ := h
      · cases hw
      · cases List.mem_singleton.mp hw
        exact List.mem_cons_self
  | deleteAsset a =>
      obtain ⟨x, w', removal, -, htask, rfl, -, -, hremoval⟩ := h
      rcases List.mem_cons.mp hw with rfl | hw
      · rw [htask.table]
        exact List.mem_cons_self
      · rcases hremoval with ⟨rfl, -⟩ | ⟨y, -, -, hdiscards⟩
        · cases hw
        · exact List.mem_cons_of_mem _ (hdiscards.tables w hw)
  | _ =>
      cases h
      cases hw

/-- A row of another table is what it was. -/
theorem Effect.find?_eq (h : Effect cfg t s ws S) {k : Key} (hk : k.table ∉ s.tables) :
    (applyAll ws S.db).find? k = S.db.find? k :=
  find?_applyAll_ne (fun w hw he => hk (by rw [← he]; exact h.tables w hw)) S.db

/-- Writes to other tables leave a row alone. -/
theorem find?_applyAll_of_table {d : Db Row} {k : Key}
    (h : ∀ w ∈ ws, w.target.table ≠ k.table) : (applyAll ws d).find? k = d.find? k :=
  find?_applyAll_ne (fun w hw he => h w hw (by rw [he])) d

-- ============================================================ generations

section Generations

variable {d : Db Row} {x : ReportGeneration} {w : Write Row Key}

/-- A write of a generation among writes to other tables. -/
theorem generation?_applyAll {l rest : List (Write Row Key)}
    (hl : ∀ w ∈ l, w.target.table ≠ .generation) (hw : w.row? = some (.generation x))
    (hrest : ∀ w ∈ rest, w.target.table ≠ .generation) :
    generation? (applyAll (l ++ w :: rest) d) g
      = if x.id = g then some x else generation? d g := by
  have hbefore := generation?_congr (find?_applyAll_of_table (d := d) (k := .generation g) hl)
  rw [applyAll_append, applyAll_cons, generation?_congr (find?_applyAll_of_table hrest), ← hbefore]
  cases w with
  | insert r =>
      cases hw
      exact generation?_put_generation x
  | update r =>
      cases hw
      exact generation?_put_generation x
  | erase k => cases hw

/-- What such a write does to the generations. -/
theorem generation_of_write {l rest : List (Write Row Key)} {i : Id}
    {before : Option ReportGeneration} (hl : ∀ w ∈ l, w.target.table ≠ .generation)
    (hw : w.row? = some (.generation x)) (hrest : ∀ w ∈ rest, w.target.table ≠ .generation)
    (hchange : GenerationChange cfg S i s before (some x))
    (hbefore : generation? S.db i = before) (hx : x.id = i) (g : Id) :
    generation? (applyAll (l ++ w :: rest) S.db) g = generation? S.db g ∨
      GenerationChange cfg S g s (generation? S.db g)
        (generation? (applyAll (l ++ w :: rest) S.db) g) := by
  rw [generation?_applyAll hl hw hrest]
  by_cases hg : x.id = g
  · subst hx
    rw [if_pos hg, ← hg, hbefore]
    exact Or.inr hchange
  · rw [if_neg hg]
    exact Or.inl rfl

theorem Removes.generation?_of_gone {gone reports : Id → Prop} {d' : Db Row}
    (h : Removes gone reports d' ws) (hg : gone g) : generation? (applyAll ws d) g = none := by
  rw [generation?_eq_none]
  exact find?_applyAll_of_mem h.nodup (h.complete g hg)

theorem Removes.generation?_of_not {gone reports : Id → Prop} {d' : Db Row}
    (h : Removes gone reports d' ws) (hg : ¬ gone g) :
    generation? (applyAll ws d) g = generation? d g := by
  refine generation?_congr (find?_applyAll_ne (fun w hw he => ?_) d)
  rcases h.writes w hw with ⟨x, -, -, rfl⟩ | ⟨x, -, -, rfl⟩ | ⟨a, -, rfl⟩ | ⟨r, -, rfl⟩ |
    ⟨i, hi, rfl⟩ | ⟨o, -, -, rfl⟩ | ⟨l, i, -, -, -, rfl⟩
  case inr.inr.inr.inr.inl =>
    cases he
    exact hg hi
  all_goals cases he

/-- What a commit does to a generation. -/
theorem Effect.generation (h : Effect cfg t s ws S) (g : Id) :
    generation? (applyAll ws S.db) g = generation? S.db g ∨
      GenerationChange cfg S g s (generation? S.db g) (generation? (applyAll ws S.db) g) := by
  have hcredit : ∀ {ws : List (Write Row Key)}, (∀ w ∈ ws, w.target.table ∈ [Table.grant, .ledger]) →
      ∀ w ∈ ws, w.target.table ≠ .generation := by
    intro ws hws w hw he
    have hmem := hws w hw
    rw [he] at hmem
    simp at hmem
  have hnone : ∀ w ∈ ([] : List (Write Row Key)), w.target.table ≠ .generation := by simp
  have hreport : ∀ {r : Report} {l : List (Write Row Key)},
      (∀ w ∈ l, w.target.table ≠ .generation) →
      ∀ w ∈ Write.update (Row.report r) :: l, w.target.table ≠ .generation := by
    intro r l hl w hw he
    rcases List.mem_cons.mp hw with rfl | hw
    · cases he
    · exact hl w hw he
  cases s with
  | start u r k i =>
      obtain ⟨rfl, -⟩ | ⟨report, user, credit, rfl, hcred, hnew, -⟩ := h
      · exact Or.inl rfl
      · refine generation_of_write (l := []) hnone rfl (fun w hw => ?_) (.started ..) hnew rfl g
        rcases List.mem_append.mp hw with hw | hw
        · exact hcredit hcred.tables w hw
        · exact hreport hnone w hw
  | markEnqueued i =>
      obtain rfl | ⟨x, now, hx, hqueued, rfl, -⟩ := h
      · exact Or.inl rfl
      · have hid : x.id = i := generation?_id hx
        exact generation_of_write (l := []) hnone rfl hnone
          (.enqueued x now hqueued) hx hid g
  | cancel i =>
      obtain ⟨x, r, now, prior, credit, hx, hqueued, -, -, rfl, hcred⟩ := h
      have hid : x.id = i := generation?_id hx
      exact generation_of_write (l := []) hnone rfl (hreport (hcredit hcred.tables))
        (.cancelled x now hqueued) hx hid g
  | claim i tok =>
      obtain ⟨rfl | ⟨x, now, lease, follow, hx, hclaim, rfl, hfollow⟩, -⟩ := h
      · exact Or.inl rfl
      · have hid : x.id = i := generation?_id hx
        refine generation_of_write (l := []) hnone rfl (fun w hw => ?_)
          (.claimed tok x now lease hclaim) hx hid g
        rw [hfollow.tables w hw]
        simp
  | prepareRetry i tok =>
      obtain rfl | ⟨x, errorCode, follow, hx, hown, rfl, hfollow⟩ := h
      · exact Or.inl rfl
      · have hid : x.id = i := generation?_id hx
        refine generation_of_write (l := []) hnone rfl (fun w hw => ?_)
          (.requeued tok x errorCode hown) hx hid g
        rw [hfollow.tables w hw]
        simp
  | updateProgress i tok | persistReportResult i tok | renewLease i tok =>
      obtain rfl | ⟨x, y, side, hx, hown, hcore, hside, rfl⟩ := h
      · exact Or.inl rfl
      · have hid : x.id = i := generation?_id hx
        refine generation_of_write (fun w hw => ?_) rfl hnone
          (.fenced _ tok x y (by simp) hown hcore) hx (hcore.id.trans hid) g
        rcases hside with rfl | ⟨id, -, hcloses⟩
        · cases hw
        · rw [hcloses.tables w hw]
          simp
  | failGeneration i tok =>
      obtain rfl | ⟨x, r, errorCode, message, now, read, hasOutput, credit, hx, hown, -, -, -, -,
        rfl, hcred⟩ := h
      · exact Or.inl rfl
      · have hid : x.id = i := generation?_id hx
        exact generation_of_write (l := []) hnone rfl (hreport (hcredit hcred.tables))
          (.failed tok x errorCode message now hown) hx hid g
  | finalizeSuccess i tok =>
      obtain ⟨x, r, o, now, credit, hx, hown, -, -, -, -, -, -, -, rfl, hcred⟩ := h
      have hid : x.id = i := generation?_id hx
      refine generation_of_write (l := [_]) (fun w hw => ?_) rfl (hreport fun w hw => ?_)
        (.completed tok x now hown) hx hid g
      · cases List.mem_singleton.mp hw
        simp [Write.target, key, Key.table]
      · rw [hcred.tables w hw]
        simp
  | compensateQueueFailure i =>
      obtain rfl | ⟨_, _, _, x, y, credit, follow, removal, -, -, -, -, -, -, rfl, hcred, hfollow,
        hy, hremoves⟩ := h
      · exact Or.inl rfl
      · have hbefore : generation? (applyAll (credit ++ follow) S.db) g = generation? S.db g := by
          refine generation?_congr (find?_applyAll_of_table fun w hw => ?_)
          rcases List.mem_append.mp hw with hw | hw
          · exact hcredit hcred.tables w hw
          · rcases hfollow with ⟨r, -, -, rfl⟩ | ⟨rfl, -⟩
            · exact hreport hnone w hw
            · cases hw
        rw [applyAll_append]
        by_cases hg : g = i
        · subst hg
          rw [hremoves.generation?_of_gone rfl, hy]
          exact Or.inr (.compensated y)
        · rw [hremoves.generation?_of_not hg]
          exact Or.inl hbefore
  | deleteReport i =>
      obtain ⟨r, side, removal, hr, hqueued, hprocessing, hside, -, rfl, -, -, -, hremoves⟩ := h
      have hbefore : generation? (applyAll side S.db) g = generation? S.db g := by
        refine generation?_congr (find?_applyAll_of_table fun w hw => ?_)
        obtain ⟨k, -, htask⟩ := hside w hw
        rw [htask.table]
        simp [Key.table]
      rw [applyAll_append]
      by_cases hg : ∃ x, generation? S.db g = some x ∧ x.reportId = i
      · rw [hremoves.generation?_of_gone hg]
        obtain ⟨x, hx, rfl⟩ := hg
        rw [hx]
        exact Or.inr (.removed x r hr hqueued hprocessing)
      · rw [hremoves.generation?_of_not hg]
        exact Or.inl hbefore
  | _ => exact Or.inl (generation?_congr (h.find?_eq (by simp [Site.tables, Key.table])))

/-- What stays with a generation as long as it is stored. -/
structure SameOrigin (x y : ReportGeneration) : Prop where
  id : y.id = x.id
  reportId : y.reportId = x.reportId
  userId : y.userId = x.userId
  idempotencyKey : y.idempotencyKey = x.idempotencyKey
  priorReportStatus : y.priorReportStatus = x.priorReportStatus
  inputSnapshot : y.inputSnapshot = x.inputSnapshot
  createdAt : y.createdAt = x.createdAt

theorem SameOrigin.refl (x : ReportGeneration) : SameOrigin x x :=
  ⟨rfl, rfl, rfl, rfl, rfl, rfl, rfl⟩

theorem SameOrigin.trans {x y z : ReportGeneration} (h : SameOrigin x y) (h' : SameOrigin y z) :
    SameOrigin x z where
  id := h'.id.trans h.id
  reportId := h'.reportId.trans h.reportId
  userId := h'.userId.trans h.userId
  idempotencyKey := h'.idempotencyKey.trans h.idempotencyKey
  priorReportStatus := h'.priorReportStatus.trans h.priorReportStatus
  inputSnapshot := h'.inputSnapshot.trans h.inputSnapshot
  createdAt := h'.createdAt.trans h.createdAt

theorem GenerationChange.origin {x y : ReportGeneration}
    (h : GenerationChange cfg S g s (some x) (some y)) : SameOrigin x y := by
  cases h with
  | fenced s tok x y hs hown hcore =>
      exact ⟨hcore.id, hcore.reportId, hcore.userId, hcore.idempotencyKey,
        hcore.priorReportStatus, hcore.inputSnapshot, hcore.createdAt⟩
  | _ => exact ⟨rfl, rfl, rfl, rfl, rfl, rfl, rfl⟩

/-- A generation that is still stored after a commit is the same one. -/
theorem Effect.origin (h : Effect cfg t s ws S) {x y : ReportGeneration}
    (hx : generation? S.db g = some x) (hy : generation? (applyAll ws S.db) g = some y) :
    SameOrigin x y := by
  rcases h.generation g with hsame | hchange
  · rw [hsame, hx] at hy
    cases hy
    exact SameOrigin.refl x
  · rw [hx, hy] at hchange
    exact hchange.origin

/-- A generation disappears by compensation or with its report. -/
theorem Effect.generation_gone (h : Effect cfg t s ws S) {x : ReportGeneration}
    (hx : generation? S.db g = some x) (hgone : generation? (applyAll ws S.db) g = none) :
    .erase (.generation g) ∈ ws ∧
      (s = .compensateQueueFailure g ∨ s = .deleteReport x.reportId) := by
  constructor
  · by_contra hkept
    have hsome := isSome_find?_applyAll (k := .generation g) (d := S.db)
      (fun w hw he => hkept (he ▸ hw)) (by rw [generation?_eq_some.mp hx]; rfl)
    rw [generation?_eq_none.mp hgone] at hsome
    cases hsome
  · rcases h.generation g with hsame | hchange
    · rw [hsame, hx] at hgone
      cases hgone
    · rw [hx, hgone] at hchange
      cases hchange with
      | compensated => exact Or.inl rfl
      | removed => exact Or.inr rfl

end Generations

-- ============================================================== attempts

section Attempts

variable {d : Db Row} {id : AttemptKey}

/-- A row under writes to distinct rows: what a write of it leaves, or
what it was. -/
theorem find?_applyAll_cases (hnodup : (ws.map Write.target).Nodup) (k : Key) :
    (∃ w ∈ ws, w.target = k ∧ (applyAll ws d).find? k = w.row?) ∨
      (applyAll ws d).find? k = d.find? k := by
  by_cases h : ∃ w ∈ ws, w.target = k
  · obtain ⟨w, hw, rfl⟩ := h
    exact Or.inl ⟨w, hw, rfl, find?_applyAll_of_mem hnodup hw⟩
  · exact Or.inr (find?_applyAll_ne (fun w hw he => h ⟨w, hw, he⟩) d)

theorem attempt?_of_row {y : GenerationProviderAttempt}
    (h : d.find? (.attempt id) = some (.attempt y)) : attempt? d id = some y :=
  attempt?_eq_some.mpr h

/-- The closing of an attempt, after writes to other tables and before
such writes. -/
theorem attempt_of_closes (cfg : Config) {l rest side : List (Write Row Key)} {i : AttemptKey}
    {status : GenerationProviderAttemptStatus} (hl : ∀ w ∈ l, w.target.table ≠ .attempt)
    (hrest : ∀ w ∈ rest, w.target.table ≠ .attempt) (hcloses : Closes i status side S)
    (hstatus : status ≠ .started) (hsite : status = .completed → i.operation = .moderation →
      ∃ tok, s = .completeOwned i.generationId tok) (id : AttemptKey) :
    attempt? (applyAll (l ++ side ++ rest) S.db) id = attempt? S.db id ∨
      AttemptChange cfg S id s (attempt? S.db id)
        (attempt? (applyAll (l ++ side ++ rest) S.db) id) := by
  obtain ⟨x, y, hx, hstarted, hid, hy, -, rfl⟩ := hcloses
  have hrest' := attempt?_congr (find?_applyAll_of_table (k := .attempt id)
    (d := applyAll (l ++ [.update (.attempt y)]) S.db) hrest)
  have hl' := find?_applyAll_of_table (k := .attempt id) (d := S.db) hl
  rw [applyAll_append, hrest', applyAll_append]
  by_cases hi : i = id
  · subst hi hid
    refine Or.inr ?_
    rw [hx, attempt?_of_row (Db.find?_put_self _ _)]
    exact .closed s x y _ hstarted rfl hy hstatus hsite
  · refine Or.inl (attempt?_congr ?_)
    rw [← hl']
    exact Db.find?_put_ne fun he => hi (hid ▸ Key.attempt.inj he)

/-- What deleting generations or a report does to an attempt. -/
theorem Removes.attempt {gone reports : Id → Prop} {d' : Db Row} (h : Removes gone reports d' ws)
    (id : AttemptKey) : attempt? (applyAll ws d) id = attempt? d id ∨
      (attempt? (applyAll ws d) id = none ∧ (gone id.generationId ∨
        ∃ x, asset? d' x.id = some x ∧ reports x.reportId ∧ id.assetId = some x.id)) := by
  rcases find?_applyAll_cases (d := d) h.nodup (.attempt id) with ⟨w, hw, htarget, hrow⟩ | hsame
  · refine Or.inr ?_
    rcases h.writes w hw with ⟨x, -, -, rfl⟩ | ⟨x, -, -, rfl⟩ | ⟨a, hgone, rfl⟩ | ⟨r, -, rfl⟩ |
      ⟨i, -, rfl⟩ | ⟨o, -, -, rfl⟩ | ⟨l, i, -, -, -, rfl⟩
    case inr.inr.inl =>
      cases htarget
      exact ⟨attempt?_eq_none.mpr hrow, hgone⟩
    all_goals cases htarget
  · exact Or.inl (attempt?_congr hsame)

/-- A row under writes that can only remove it. -/
theorem find?_applyAll_of_erase {k : Key} (h : ∀ w ∈ ws, w.target = k → w = .erase k) :
    (applyAll ws d).find? k = if .erase k ∈ ws then none else d.find? k := by
  induction ws generalizing d with
  | nil => simp
  | cons w ws ih =>
      rw [applyAll_cons, ih fun w' hw' => h w' (List.mem_cons_of_mem _ hw')]
      by_cases hw : w.target = k
      · cases h w List.mem_cons_self hw
        simp [Write.apply]
      · have hne : Write.erase k ≠ w := by
          rintro rfl
          exact hw rfl
        simp [List.mem_cons, hne, Write.find?_apply_ne hw]

/-- What discarding an asset does to an attempt. -/
theorem Discards.attempt {a : Id} (h : Discards a ws) (id : AttemptKey) :
    attempt? (applyAll ws d) id = attempt? d id ∨
      (attempt? (applyAll ws d) id = none ∧ id.assetId = some a) := by
  have herase : ∀ w ∈ ws, w.target = .attempt id →
      w = .erase (.attempt id) ∧ id.assetId = some a := by
    intro w hw htarget
    rcases h.2 w hw with rfl | rfl | ⟨id', hasset, rfl⟩
    · cases htarget
    · cases htarget
    · cases htarget
      exact ⟨rfl, hasset⟩
  have hfind := find?_applyAll_of_erase (d := d) fun w hw ht => (herase w hw ht).1
  split at hfind
  next hmem => exact Or.inr ⟨attempt?_eq_none.mpr hfind, (herase _ hmem rfl).2⟩
  next => exact Or.inl (attempt?_congr hfind)

/-- Closing attempts and starting another one writes distinct rows. -/
theorem nodup_attempt_writes (now : Time) {l : List GenerationProviderAttempt}
    {y : GenerationProviderAttempt} (hl : (l.map (·.id)).Nodup) (hy : ∀ x ∈ l, x.id ≠ y.id) :
    (((l.map fun x : GenerationProviderAttempt => Write.update (Row.attempt (x.stale now)))
      ++ [Write.insert (Row.attempt y)]).map Write.target).Nodup := by
  rw [List.map_append, List.map_map]
  refine List.Nodup.append ?_ (List.nodup_singleton _) ?_
  · have hkeys := hl.map (f := Key.attempt) fun _ _ he => Key.attempt.inj he
    rwa [List.map_map] at hkeys
  · intro k hk hk'
    obtain ⟨x, hx, rfl⟩ := List.mem_map.mp hk
    exact hy x hx (Key.attempt.inj (List.mem_singleton.mp hk'))

/-- What a commit does to an attempt. -/
theorem Effect.attempt (h : Effect cfg t s ws S) (id : AttemptKey) :
    attempt? (applyAll ws S.db) id = attempt? S.db id ∨
      AttemptChange cfg S id s (attempt? S.db id) (attempt? (applyAll ws S.db) id) := by
  have hnone : ∀ w ∈ ([] : List (Write Row Key)), w.target.table ≠ .attempt := by simp
  have hgone : ∀ {o : Option GenerationProviderAttempt} {s : Site} {d' : Db Row}, o = none →
      (∀ x, attempt? d' id = some x → AttemptChange cfg S id s (some x) none) →
      o = attempt? d' id ∨ AttemptChange cfg S id s (attempt? d' id) o := by
    intro o s d' ho hchange
    rw [ho]
    cases hx : attempt? d' id with
    | none => exact Or.inl rfl
    | some x => exact Or.inr (hchange x hx)
  cases s with
  | compensateQueueFailure i =>
      obtain rfl | ⟨_, _, _, x, y, credit, follow, removal, -, -, -, -, -, -, rfl, hcred, hfollow,
        hy, hremoves⟩ := h
      · exact Or.inl rfl
      · have hbefore : attempt? (applyAll (credit ++ follow) S.db) id = attempt? S.db id := by
          refine attempt?_congr (find?_applyAll_of_table fun w hw => ?_)
          rcases List.mem_append.mp hw with hw | hw
          · have hmem := hcred.tables w hw
            intro he
            rw [he] at hmem
            simp [Key.table] at hmem
          · rcases hfollow with ⟨r, -, -, rfl⟩ | ⟨rfl, -⟩
            · cases List.mem_singleton.mp hw
              simp [Write.target, key, Key.table]
            · cases hw
        rw [applyAll_append]
        rcases hremoves.attempt (d := applyAll (credit ++ follow) S.db) id with hsame |
          ⟨hnone, rfl | ⟨_, _, hfalse, _⟩⟩
        · exact Or.inl (hsame.trans hbefore)
        · exact hgone hnone fun x _ => .compensated x
        · exact hfalse.elim
  | updateProgress i tok | persistReportResult i tok | renewLease i tok =>
      obtain rfl | ⟨x, y, side, hx, hown, hcore, hside, rfl⟩ := h
      · exact Or.inl rfl
      · have hrest : ∀ w ∈ [Write.update (Row.generation y)], w.target.table ≠ .attempt := by
          simp [Write.target, key, Key.table]
        rcases hside with rfl | ⟨i, hop, hcloses⟩
        · exact Or.inl (attempt?_congr (find?_applyAll_of_table hrest))
        · exact attempt_of_closes cfg (l := []) hnone hrest hcloses (by simp) (by simp [hop]) id
  | startAttempt i tok operation assetId =>
      obtain ⟨y, rfl, hlease, hlen, hid, hstatus, htok, hfresh, hgen, hasset, hscope⟩ := h
      have hne : ∀ x ∈ (scopeAttempts i operation assetId S.db).filter fun x =>
          x.status = .started, x.id ≠ y.id := by
        intro x hx he
        have hstored := (mem_scopeAttempts.mp (List.mem_filter.mp hx).1).1
        rw [he, hfresh] at hstored
        cases hstored
      have hnodup := nodup_attempt_writes S.clock
        (nodup_scopeAttempts.sublist (List.filter_sublist.map _)) hne
      rcases find?_applyAll_cases (d := S.db) hnodup (.attempt id) with ⟨w, hw, htarget, hrow⟩ |
        hsame
      · refine Or.inr ?_
        rcases List.mem_append.mp hw with hw | hw
        · obtain ⟨x, hx, rfl⟩ := List.mem_map.mp hw
          obtain ⟨hmem, hstarted⟩ := List.mem_filter.mp hx
          have hkey : x.id = id := Key.attempt.inj htarget
          rw [attempt?_of_row hrow, ← hkey, (mem_scopeAttempts.mp hmem).1]
          exact .stale i tok operation assetId x hmem (of_decide_eq_true hstarted) (hlease x hx)
        · cases List.mem_singleton.mp hw
          have hkey : y.id = id := Key.attempt.inj htarget
          rw [attempt?_of_row hrow, ← hkey, hfresh]
          have hparts : id.generationId = i ∧ id.operation = operation ∧ id.assetId = assetId ∧
              id.attemptNumber = (scopeAttempts i operation assetId S.db).length + 1 := by
            rw [← hkey, hid]
            exact ⟨rfl, rfl, rfl, rfl⟩
          obtain ⟨rfl, rfl, rfl, hnumber⟩ := hparts
          rw [hkey]
          exact .started tok y hkey hstatus htok
            (fun x hx hstarted => hlease x (List.mem_filter.mpr ⟨hx, by simpa using hstarted⟩))
            hlen hnumber hgen hasset hscope
      · exact Or.inl (attempt?_congr hsame)
  | completeOwned i tok =>
      obtain ⟨j, snapshot, transcripts, rfl, hcloses, -⟩ := h
      have hcase := attempt_of_closes cfg (s := .completeOwned j.generationId tok) hnone
        hnone hcloses (by simp) (fun _ _ => ⟨tok, rfl⟩) id
      rwa [List.nil_append, List.append_nil] at hcase
  | failAttempt j =>
      obtain rfl | hcloses := h
      · exact Or.inl rfl
      · have hcase := attempt_of_closes cfg (s := .failAttempt j) hnone hnone hcloses
          (by simp) (by simp) id
        rwa [List.nil_append, List.append_nil] at hcase
  | completeTranscription i tok a =>
      obtain ⟨-, j, x, y, side, hop, hcloses, -, -, -, rfl, -⟩ := h
      exact attempt_of_closes cfg (l := []) hnone (by simp [Write.target, key, Key.table]) hcloses
        (by simp) (by simp [hop]) id
  | deleteReport i =>
      obtain ⟨r, side, removal, hr, hqueued, hprocessing, hside, -, rfl, -, -, -, hremoves⟩ := h
      have hbefore : attempt? (applyAll side S.db) id = attempt? S.db id := by
        refine attempt?_congr (find?_applyAll_of_table fun w hw => ?_)
        obtain ⟨k, -, htask⟩ := hside w hw
        rw [htask.table]
        simp [Key.table]
      rw [applyAll_append]
      rcases hremoves.attempt (d := applyAll side S.db) id with hsame | ⟨hnone, hwhy⟩
      · exact Or.inl (hsame.trans hbefore)
      · refine hgone hnone fun x _ => .removed i x ?_
        exact hwhy
  | dropPendingAsset a =>
      obtain rfl | ⟨hdiscards, -⟩ := h
      · exact Or.inl rfl
      · rcases hdiscards.attempt (d := S.db) id with hsame | ⟨hnone, hid⟩
        · exact Or.inl hsame
        · exact hgone hnone fun x _ => .discarded _ a x hid (Or.inl rfl)
  | deleteAsset a =>
      obtain ⟨x, w', removal, -, htask, rfl, -, -, hremoval⟩ := h
      have hbefore : attempt? (w'.apply S.db) id = attempt? S.db id := by
        refine attempt?_congr (Write.find?_apply_ne (fun he => ?_) S.db)
        have htable := htask.table
        rw [he] at htable
        cases htable
      rw [applyAll_cons]
      rcases hremoval with ⟨rfl, -⟩ | ⟨y, -, -, hdiscards⟩
      · exact Or.inl hbefore
      · rcases hdiscards.attempt (d := w'.apply S.db) id with hsame | ⟨hnone, hid⟩
        · exact Or.inl (hsame.trans hbefore)
        · exact hgone hnone fun x _ => .discarded _ a x hid (Or.inr rfl)
  | _ => exact Or.inl (attempt?_congr (h.find?_eq (by simp [Site.tables, Key.table])))

end Attempts

end FastRep.Reports
