/-
What deleting a report, a generation or an asset removes.

The cascades of the schema end after two steps, so what a deletion removes
is bounded by a set of keys that is closed under them
(`Db.doomed_subset`). Only ledger entries hold a nullable reference, and
the grant they refer to is never among the removed rows.

`Reach` is that set, for some reports and generations: they, and what hangs
on them. A report goes with its generations, so the generations of the given
reports have to be among the given ones. `Removes` and `Discards` say the same
of a commit; the lemmas at the end are the deletions the code makes.
-/
import FastRep.Reports.Proofs.Ledger

namespace FastRep.Reports

open FastRep.Txn

variable {d d' : Db Row} {ks : List Key} {g : Id}

/-- A row that is unlinked keeps its key. -/
theorem key_unlink (k : Key) (r : Row) : key (Schema.unlink k r) = key r := by
  cases k <;> cases r <;> rfl

/-- A ledger entry after the references to removed rows are cleared. -/
theorem unlinkAll_ledger (ks : List Key) (l : GenerationCreditTransaction) :
    unlinkAll ks (Row.ledger l) = .ledger { l with
      generationId := l.generationId.filter fun g => Key.generation g ∉ ks
      grantId := l.grantId.filter fun i => Key.grant i ∉ ks } := by
  induction ks generalizing l with
  | nil =>
      have hfilter : ∀ o : Option Id, o.filter (fun _ => true) = o := by
        intro o
        cases o <;> rfl
      simp [unlinkAll, hfilter]
  | cons k ks ih =>
      show unlinkAll ks (Schema.unlink k (Row.ledger l)) = _
      cases k with
      | generation g =>
          show unlinkAll ks (Row.ledger _) = _
          rw [ih]
          cases hg : l.generationId with
          | none => simp
          | some x =>
              by_cases hx : x = g
              · simp [hx, Option.filter_some]
              · simp [hx, Option.filter_some]
      | grant i =>
          show unlinkAll ks (Row.ledger _) = _
          rw [ih]
          cases hg : l.grantId with
          | none => simp
          | some x =>
              by_cases hx : x = i
              · simp [hx, Option.filter_some]
              · simp [hx, Option.filter_some]
      | _ =>
          show unlinkAll ks (Row.ledger l) = _
          rw [ih]
          simp

/-- The nullable references are those of ledger entries. -/
theorem ledger_of_setNull {r : Row} {ref : Key × OnDelete}
    (href : ref ∈ Schema.references r) (hnull : ref.2 = .setNull) :
    ∃ l, r = .ledger l ∧ ((∃ g, l.generationId = some g ∧ ref.1 = .generation g) ∨
      ∃ i, l.grantId = some i ∧ ref.1 = .grant i) := by
  cases r with
  | ledger l =>
      refine ⟨l, rfl, ?_⟩
      simp only [Schema.references, List.cons_append, List.mem_cons, List.mem_append,
        List.mem_map, Option.mem_toList] at href
      rcases href with rfl | ⟨g, hg, rfl⟩ | ⟨i, hi, rfl⟩
      · cases hnull
      · exact Or.inl ⟨g, hg, rfl⟩
      · exact Or.inr ⟨i, hi, rfl⟩
  | user _ => simp [Schema.references] at href
  | report _ => simp_all [Schema.references]
  | asset _ => simp_all [Schema.references]
  | generation _ =>
      simp only [Schema.references, List.mem_cons, List.not_mem_nil, or_false] at href
      rcases href with rfl | rfl <;> cases hnull
  | output _ =>
      simp only [Schema.references, List.mem_cons, List.not_mem_nil, or_false] at href
      rcases href with rfl | rfl <;> cases hnull
  | transcription _ => simp_all [Schema.references]
  | subscription _ => simp_all [Schema.references]
  | grant _ => simp_all [Schema.references]
  | attempt r =>
      simp only [Schema.references, List.mem_cons, List.mem_map] at href
      rcases href with rfl | ⟨a, -, rfl⟩ <;> cases hnull
  | cleanupTask _ => simp [Schema.references] at href

/-- The cascades end in users, reports, generations and assets. -/
theorem cascade_cases {r : Row} {ref : Key × OnDelete}
    (href : ref ∈ Schema.references r) (hcasc : ref.2 = .cascade) :
    (∃ u, ref.1 = .user u) ∨
    (∃ i, ref.1 = .report i ∧ ((∃ x, r = .asset x ∧ x.reportId = i) ∨
      (∃ x, r = .generation x ∧ x.reportId = i) ∨ ∃ o, r = .output o ∧ o.reportId = i)) ∨
    (∃ g, ref.1 = .generation g ∧
      ((∃ o, r = .output o ∧ o.generationId = g) ∨
        ∃ x, r = .attempt x ∧ x.id.generationId = g)) ∨
    ∃ a, ref.1 = .asset a ∧ ((∃ x, r = .transcription x ∧ x.assetId = a) ∨
      ∃ x, r = .attempt x ∧ x.id.assetId = some a) := by
  cases r with
  | user _ => cases href
  | cleanupTask _ => cases href
  | report _ =>
      cases List.mem_singleton.mp href
      exact Or.inl ⟨_, rfl⟩
  | subscription _ =>
      cases List.mem_singleton.mp href
      exact Or.inl ⟨_, rfl⟩
  | grant _ =>
      cases List.mem_singleton.mp href
      exact Or.inl ⟨_, rfl⟩
  | asset x =>
      cases List.mem_singleton.mp href
      exact Or.inr (Or.inl ⟨_, rfl, Or.inl ⟨x, rfl, rfl⟩⟩)
  | transcription x =>
      cases List.mem_singleton.mp href
      exact Or.inr (Or.inr (Or.inr ⟨_, rfl, Or.inl ⟨x, rfl, rfl⟩⟩))
  | generation x =>
      rcases List.mem_cons.mp href with rfl | href
      · exact Or.inr (Or.inl ⟨_, rfl, Or.inr (Or.inl ⟨x, rfl, rfl⟩)⟩)
      · cases List.mem_singleton.mp href
        exact Or.inl ⟨_, rfl⟩
  | output o =>
      rcases List.mem_cons.mp href with rfl | href
      · exact Or.inr (Or.inl ⟨_, rfl, Or.inr (Or.inr ⟨o, rfl, rfl⟩)⟩)
      · cases List.mem_singleton.mp href
        exact Or.inr (Or.inr (Or.inl ⟨_, rfl, Or.inl ⟨o, rfl, rfl⟩⟩))
  | attempt x =>
      rcases List.mem_cons.mp href with rfl | href
      · exact Or.inr (Or.inr (Or.inl ⟨_, rfl, Or.inr ⟨x, rfl, rfl⟩⟩))
      · obtain ⟨a, ha, rfl⟩ := List.mem_map.mp href
        exact Or.inr (Or.inr (Or.inr ⟨a, rfl, Or.inr ⟨x, rfl, Option.mem_toList.mp ha⟩⟩))
  | ledger l =>
      rcases List.mem_cons.mp href with rfl | href
      · exact Or.inl ⟨_, rfl⟩
      · rcases List.mem_append.mp href with href | href
        · obtain ⟨_, -, rfl⟩ := List.mem_map.mp href
          cases hcasc
        · obtain ⟨_, -, rfl⟩ := List.mem_map.mp href
          cases hcasc

/-- The rows a deletion may remove: the given reports and generations, and
what hangs on them. -/
def Reach (gone reports : Id → Prop) (d : Db Row) : Key → Prop
  | .report i => reports i
  | .generation g => gone g
  | .asset a | .transcription a => ∃ x, asset? d x.id = some x ∧ reports x.reportId ∧ x.id = a
  | .attempt k => gone k.generationId ∨
      ∃ x, asset? d x.id = some x ∧ reports x.reportId ∧ k.assetId = some x.id
  | .output i => ∀ o, output? d i = some o → gone i ∨ reports o.reportId
  | _ => False

/-- The cascades stay among these rows, when the generations of the given
reports are among the given ones. -/
theorem Reach.closed {gone reports : Id → Prop}
    (hgen : ∀ x, generation? d x.id = some x → reports x.reportId → gone x.id)
    {r : Row} (hr : r ∈ d.rows) {ref : Key × OnDelete}
    (href : ref ∈ Schema.references r) (hcasc : ref.2 = .cascade)
    (h : Reach gone reports d ref.1) : Reach gone reports d (key r) := by
  have hfind := Db.find?_of_mem hr
  rcases cascade_cases href hcasc with ⟨u, hu⟩ | ⟨i, hi, hrow⟩ | ⟨g, hg, hrow⟩ | ⟨a, ha, hrow⟩
  · rw [hu] at h
    exact h.elim
  · rw [hi] at h
    rcases hrow with ⟨x, rfl, rfl⟩ | ⟨x, rfl, rfl⟩ | ⟨o, rfl, rfl⟩
    · exact ⟨x, asset?_eq_some.mpr hfind, h, rfl⟩
    · exact hgen x (generation?_eq_some.mpr hfind) h
    · intro o' ho'
      cases (output?_eq_some.mp ho').symm.trans hfind
      exact Or.inr h
  · rw [hg] at h
    rcases hrow with ⟨o, rfl, rfl⟩ | ⟨x, rfl, rfl⟩
    · exact fun _ _ => Or.inl h
    · exact Or.inl h
  · rw [ha] at h
    obtain ⟨y, hy, hrep, rfl⟩ := h
    rcases hrow with ⟨x, rfl, hx⟩ | ⟨x, rfl, hx⟩
    · exact ⟨y, hy, hrep, hx.symm⟩
    · exact Or.inr ⟨y, hy, hrep, hx⟩

/-- The writes of a deletion of rows among these. -/
theorem Removes.of_deletion {gone reports : Id → Prop}
    (hgen : ∀ x, generation? d x.id = some x → reports x.reportId → gone x.id)
    (hks : ∀ k ∈ ks, Reach gone reports d k)
    (hgone : ∀ g, gone g → Key.generation g ∈ d.gone ks ∧
      (generation? d g).isSome = true) :
    Removes gone reports d (d.deletion ks) where
  nodup := Db.deletion_nodup key_unlink
  writes := by
    intro w hw
    have hbound : ∀ k ∈ d.gone ks, Reach gone reports d k :=
      Db.doomed_subset (fun r hr ref href hcasc h => Reach.closed hgen hr href hcasc h) hks
    rcases Db.mem_deletion.mp hw with ⟨r, hr, hin, rfl⟩ | ⟨r, hr, hout, ⟨ref, href, hnull, hin⟩, rfl⟩
    · have hreach := hbound _ hin
      have hfind := Db.find?_of_mem hr
      cases r with
      | report r => exact Or.inr (Or.inr (Or.inr (Or.inl ⟨r.id, hreach, rfl⟩)))
      | generation x => exact Or.inr (Or.inr (Or.inr (Or.inr (Or.inl ⟨x.id, hreach, rfl⟩))))
      | asset x =>
          obtain ⟨y, hy, hrep, hid⟩ := hreach
          exact Or.inl ⟨y, hy, hrep, congrArg (Write.erase ∘ Key.asset) hid.symm⟩
      | transcription x =>
          obtain ⟨y, hy, hrep, hid⟩ := hreach
          exact Or.inr (Or.inl ⟨y, hy, hrep, congrArg (Write.erase ∘ Key.transcription) hid.symm⟩)
      | attempt x => exact Or.inr (Or.inr (Or.inl ⟨x.id, hreach, rfl⟩))
      | output o =>
          have ho := output?_eq_some.mpr hfind
          exact Or.inr (Or.inr (Or.inr (Or.inr (Or.inr (Or.inl ⟨o, ho, hreach o ho, rfl⟩)))))
      | _ => exact hreach.elim
    · obtain ⟨l, rfl, ⟨g, hg, hk⟩ | ⟨i, -, hk⟩⟩ := ledger_of_setNull href hnull
      · rw [hk] at hin
        have hgrant : ∀ i, Key.grant i ∉ d.gone ks := fun i hi => hbound _ hi
        refine Or.inr (Or.inr (Or.inr (Or.inr (Or.inr (Or.inr
          ⟨l, g, hbound _ hin, hg, ledger?_eq_some.mpr (Db.find?_of_mem hr), ?_⟩)))))
        rw [unlinkAll_ledger]
        congr 3
        · simp [hg, hin]
        · cases hl : l.grantId with
          | none => rfl
          | some i => simp [hgrant i]
      · rw [hk] at hin
        exact (hbound _ hin).elim
  complete := by
    intro g hg
    obtain ⟨hin, hsome⟩ := hgone g hg
    obtain ⟨x, hx⟩ := Option.isSome_iff_exists.mp hsome
    have hfind := generation?_eq_some.mp hx
    refine Db.mem_deletion.mpr (Or.inl ⟨_, Db.mem_of_find? hfind, ?_, ?_⟩)
    · rw [Db.key_of_find? hfind]
      exact hin
    · rw [Db.key_of_find? hfind]

/-- A removal is one of every database that has the same assets, outputs
and ledger entries under the keys it looks at. -/
theorem Removes.congr {gone reports : Id → Prop} {ws : List (Write Row Key)}
    (h : Removes gone reports d ws)
    (hasset : ∀ x, asset? d x.id = some x → reports x.reportId → asset? d' x.id = some x)
    (hfind : ∀ w ∈ ws, d'.find? w.target = d.find? w.target) :
    Removes gone reports d' ws where
  nodup := h.nodup
  writes := by
    intro w hw
    rcases h.writes w hw with ⟨x, hx, hr, rfl⟩ | ⟨x, hx, hr, rfl⟩ | ⟨a, ha, rfl⟩ | hr | hg |
      ⟨o, ho, hof, rfl⟩ | ⟨l, i, hi, hli, hl, rfl⟩
    · exact Or.inl ⟨x, hasset x hx hr, hr, rfl⟩
    · exact Or.inr (Or.inl ⟨x, hasset x hx hr, hr, rfl⟩)
    · refine Or.inr (Or.inr (Or.inl ⟨a, ?_, rfl⟩))
      exact ha.imp_right fun ⟨x, hx, hr, hid⟩ => ⟨x, hasset x hx hr, hr, hid⟩
    · exact Or.inr (Or.inr (Or.inr (Or.inl hr)))
    · exact Or.inr (Or.inr (Or.inr (Or.inr (Or.inl hg))))
    · refine Or.inr (Or.inr (Or.inr (Or.inr (Or.inr (Or.inl ⟨o, ?_, hof, rfl⟩)))))
      rw [output?_congr (hfind _ hw)]
      exact ho
    · refine Or.inr (Or.inr (Or.inr (Or.inr (Or.inr (Or.inr ⟨l, i, hi, hli, ?_, rfl⟩)))))
      rw [ledger?_congr (hfind _ hw)]
      exact hl
  complete := h.complete

-- ============================================================ generations

/-- Deleting a stored generation. -/
theorem Removes.generation (hg : (generation? d g).isSome = true) :
    Removes (fun i => i = g) (fun _ => False) d (d.deletion [.generation g]) := by
  refine Removes.of_deletion (fun _ _ h => h.elim) ?_ ?_
  · intro k hk
    cases List.mem_singleton.mp hk
    rfl
  · rintro i rfl
    exact ⟨Db.mem_gone_self List.mem_cons_self, hg⟩

/-- Deleting a report with its generations. -/
theorem Removes.report {i : Id} :
    Removes (fun g => ∃ x, generation? d g = some x ∧ x.reportId = i)
      (fun r => r = i) d (d.deletion [.report i]) := by
  refine Removes.of_deletion (fun x hx hr => ⟨x, hx, hr⟩) ?_ ?_
  · intro k hk
    cases List.mem_singleton.mp hk
    rfl
  · rintro g ⟨x, hx, rfl⟩
    have hfind := generation?_eq_some.mp hx
    refine ⟨?_, by rw [hx]; rfl⟩
    rw [← Db.key_of_find? hfind]
    exact Db.mem_gone_of_reference (Db.mem_of_find? hfind) List.mem_cons_self
      List.mem_cons_self

/-- A stored row that references the deleted one with a cascade is
removed. -/
theorem erase_mem_deletion {r : Row} {k : Key} (hr : r ∈ d.rows)
    (href : (k, OnDelete.cascade) ∈ Schema.references r) :
    Write.erase (key r) ∈ d.deletion [k] :=
  Db.mem_deletion.mpr (Or.inl ⟨r, hr, Db.mem_gone_of_reference hr List.mem_cons_self href, rfl⟩)

/-- A stored row is removed by its deletion. -/
theorem erase_self_mem_deletion {r : Row} (hr : r ∈ d.rows) :
    Write.erase (key r) ∈ d.deletion [key r] :=
  Db.mem_deletion.mpr (Or.inl ⟨r, hr, Db.mem_gone_self List.mem_cons_self, rfl⟩)

-- ================================================================= assets

/-- Deleting a stored asset removes its transcription and attempts with
it. -/
theorem Discards.of_deletion {x : ReportAsset} (hx : Row.asset x ∈ d.rows) :
    Discards x.id (d.deletion [.asset x.id]) := by
  have hbound : ∀ k ∈ d.gone [.asset x.id], k = .asset x.id ∨ k = .transcription x.id ∨
      ∃ a : AttemptKey, a.assetId = some x.id ∧ k = .attempt a := by
    refine Db.doomed_subset (fun r hr ref href hcasc h => ?_) ?_
    · rcases cascade_cases href hcasc with ⟨u, hu⟩ | ⟨i, hi, -⟩ | ⟨g, hg, -⟩ | ⟨a, ha, hrow⟩
      · simp [hu] at h
      · simp [hi] at h
      · simp [hg] at h
      · have hax : a = x.id := by simpa [ha] using h
        rcases hrow with ⟨y, rfl, hy⟩ | ⟨y, rfl, hy⟩
        · exact Or.inr (Or.inl (congrArg Key.transcription (hy.trans hax)))
        · exact Or.inr (Or.inr ⟨y.id, hax ▸ hy, rfl⟩)
    · intro k hk
      exact Or.inl (by simpa using hk)
  refine ⟨erase_self_mem_deletion hx, fun w hw => ?_⟩
  rcases Db.mem_deletion.mp hw with ⟨r, hr, hin, rfl⟩ | ⟨r, hr, -, ⟨ref, href, hnull, hin⟩, rfl⟩
  · rcases hbound _ hin with hk | hk | ⟨a, ha, hk⟩
    · exact Or.inl (congrArg Write.erase hk)
    · exact Or.inr (Or.inl (congrArg Write.erase hk))
    · exact Or.inr (Or.inr ⟨a, ha, congrArg Write.erase hk⟩)
  · -- nothing that is removed here is referenced by a nullable column
    obtain ⟨l, rfl, ⟨g, -, hk⟩ | ⟨i, -, hk⟩⟩ := ledger_of_setNull href hnull
    · rw [hk] at hin
      simpa using hbound _ hin
    · rw [hk] at hin
      simpa using hbound _ hin

/-- A cleanup task is referenced by nothing. -/
theorem deletion_cleanupTask {k : StorageKey} {w : Write Row Key}
    (hw : w ∈ d.deletion [.cleanupTask k]) : w = .erase (.cleanupTask k) := by
  have hbound : ∀ k' ∈ d.gone [.cleanupTask k], k' = .cleanupTask k := by
    refine Db.doomed_subset (fun r hr ref href hcasc h => ?_) (by simp)
    rcases cascade_cases href hcasc with ⟨u, hu⟩ | ⟨i, hi, -⟩ | ⟨g, hg, -⟩ | ⟨a, ha, -⟩
    · cases hu.symm.trans h
    · cases hi.symm.trans h
    · cases hg.symm.trans h
    · cases ha.symm.trans h
  rcases Db.mem_deletion.mp hw with ⟨r, hr, hin, rfl⟩ | ⟨r, hr, -, ⟨ref, href, hnull, hin⟩, rfl⟩
  · rw [hbound _ hin]
  · obtain ⟨l, rfl, ⟨g, -, hk⟩ | ⟨i, -, hk⟩⟩ := ledger_of_setNull href hnull
    · rw [hk] at hin
      cases hbound _ hin
    · rw [hk] at hin
      cases hbound _ hin

end FastRep.Reports
