/-
The changes of the rows of assets and their transcriptions are all there
are.

`Effect.asset` lists what a commit does to one asset row: reserve it, copy it
with its report, confirm it, reject it, drop it, delete it, take it along with
its report, or nothing.
No change makes another upload of an asset (`AssetChange.upload`): the report,
the type, the key, the position and what was declared stay with the row as
long as it is stored (`SameUpload`).
-/
import FastRep.Reports.Proofs.Changes

namespace FastRep.Reports

open FastRep.Txn

variable {cfg : Config} {t : Tid} {s : Site} {S : RState} {ws : List (Write Row Key)}
  {d : Db Row}

-- ================================================================ assets

section Assets

variable {a : Id}

/-- A single write of an asset. -/
theorem asset?_of_write {w : Write Row Key} {x : ReportAsset} (hw : w.row? = some (.asset x)) :
    asset? (applyAll [w] d) a = if x.id = a then some x else asset? d a := by
  have hput : asset? (d.put (.asset x)) a = if x.id = a then some x else asset? d a := by
    by_cases hx : x.id = a
    · subst hx
      rw [if_pos rfl]
      exact asset?_eq_some.mpr (Db.find?_put_self d (Row.asset x))
    · rw [if_neg hx]
      exact asset?_congr (Db.find?_put_ne fun he => hx (Key.asset.inj he))
  cases w with
  | insert r => cases hw; exact hput
  | update r => cases hw; exact hput
  | erase k => cases hw

/-- What a commit that writes one asset does to the assets. -/
theorem asset_of_write {w : Write Row Key} {x : ReportAsset} {i : Id}
    {before : Option ReportAsset} (hw : w.row? = some (.asset x))
    (hchange : AssetChange cfg t S i s before (some x)) (hbefore : asset? S.db i = before)
    (hx : x.id = i) (a : Id) : asset? (applyAll [w] S.db) a = asset? S.db a ∨
      AssetChange cfg t S a s (asset? S.db a) (asset? (applyAll [w] S.db) a) := by
  rw [asset?_of_write hw]
  by_cases ha : x.id = a
  · subst hx
    rw [if_pos ha, ← ha, hbefore]
    exact Or.inr hchange
  · rw [if_neg ha]
    exact Or.inl rfl

/-- What discarding an asset does to the assets. -/
theorem Discards.asset {i : Id} (h : Discards i ws) (a : Id) :
    (a = i ∧ asset? (applyAll ws d) a = none) ∨
      (a ≠ i ∧ asset? (applyAll ws d) a = asset? d a) := by
  have herase : ∀ w ∈ ws, w.target = .asset a → w = .erase (.asset a) ∧ a = i := by
    intro w hw htarget
    rcases h.2 w hw with rfl | rfl | ⟨id, -, rfl⟩ <;> cases htarget
    exact ⟨rfl, rfl⟩
  by_cases ha : a = i
  · subst ha
    have hfind := find?_applyAll_of_erase (d := d) fun w hw ht => (herase w hw ht).1
    rw [if_pos h.1] at hfind
    exact Or.inl ⟨rfl, asset?_eq_none.mpr hfind⟩
  · exact Or.inr ⟨ha, asset?_congr (find?_applyAll_ne (fun w hw ht => ha (herase w hw ht).2) d)⟩

/-- A deletion takes the assets of the deleted reports and no others. -/
theorem Removes.asset {gone reports : Id → Prop} {d' : Db Row} (h : Removes gone reports d' ws)
    (a : Id) : asset? (applyAll ws d) a = asset? d a ∨
      (asset? (applyAll ws d) a = none ∧ ∃ x, asset? d' a = some x ∧ reports x.reportId) := by
  rcases find?_applyAll_cases (d := d) h.nodup (.asset a) with ⟨w, hw, htarget, hrow⟩ | hsame
  · refine Or.inr ?_
    rcases h.writes w hw with ⟨x, hx, hr, rfl⟩ | ⟨x, -, -, rfl⟩ | ⟨id, -, rfl⟩ | ⟨r, -, rfl⟩ |
      ⟨i, -, rfl⟩ | ⟨o, -, -, rfl⟩ | ⟨l, i, -, -, -, rfl⟩
    case inl =>
      cases htarget
      exact ⟨asset?_eq_none.mpr hrow, x, hx, hr⟩
    all_goals cases htarget
  · exact Or.inl (asset?_congr hsame)

/-- Creating a duplicate writes distinct rows. -/
theorem nodup_duplicate_writes (r : Report) (i : Id) (createdAt : Time) {copies : List AssetCopy}
    (h : (copies.map (·.id)).Nodup) :
    ((Write.insert (Row.report r) :: copies.map fun c =>
      Write.insert (Row.asset (c.row i createdAt))).map Write.target).Nodup := by
  rw [List.map_cons, List.map_map, List.nodup_cons]
  constructor
  · rintro hmem
    obtain ⟨c, -, htarget⟩ := List.mem_map.mp hmem
    cases htarget
  · have hkeys := h.map (f := Key.asset) fun _ _ he => Key.asset.inj he
    rwa [List.map_map] at hkeys

/-- An asset after a duplicate is created is one of the copies, or what it was.
-/
theorem asset?_duplicate (r : Report) (i : Id) (createdAt : Time) {copies : List AssetCopy}
    (h : (copies.map (·.id)).Nodup) (d : Db Row) (a : Id) :
    asset? (applyAll (.insert (.report r) ::
        copies.map fun c => .insert (.asset (c.row i createdAt))) d) a = asset? d a ∨
      ∃ c ∈ copies, c.id = a ∧
        asset? (applyAll (.insert (.report r) ::
          copies.map fun c => .insert (.asset (c.row i createdAt))) d) a
          = some (c.row i createdAt) := by
  rcases find?_applyAll_cases (d := d) (nodup_duplicate_writes r i createdAt h) (.asset a) with
    ⟨w, hw, htarget, hrow⟩ | hsame
  · rcases List.mem_cons.mp hw with rfl | hw
    · cases htarget
    · obtain ⟨c, hc, rfl⟩ := List.mem_map.mp hw
      exact Or.inr ⟨c, hc, Key.asset.inj htarget, asset?_eq_some.mpr hrow⟩
  · exact Or.inl (asset?_congr hsame)

/-- What a commit does to an asset. -/
theorem Effect.asset (h : Effect cfg t s ws S) (a : Id) :
    asset? (applyAll ws S.db) a = asset? S.db a ∨
      AssetChange cfg t S a s (asset? S.db a) (asset? (applyAll ws S.db) a) := by
  cases s with
  | createPendingAsset i =>
      have hall : Reserving cfg t i ws S := h
      obtain ⟨x, r, u, n, now, rfl, hid, -, -, -, -, -, hfresh, -⟩ := h
      exact asset_of_write rfl (.created x hall) hfresh hid a
  | markReady i =>
      obtain rfl | ⟨x, y, inspection, size, hx, hpending, hid, hlive, hinspected, rfl⟩ := h
      · exact Or.inl rfl
      · have hi : x.id = i := asset?_id hx
        exact asset_of_write rfl (.verified x y inspection size hpending hid hinspected hlive) hx
          hi a
  | markRejected i | markExpired i =>
      obtain rfl | ⟨x, reason, hx, hpending, rfl⟩ := h
      · exact Or.inl rfl
      · have hi : x.id = i := asset?_id hx
        exact asset_of_write rfl (.rejected _ x reason hpending (by simp)) hx hi a
  | dropPendingAsset i =>
      obtain rfl | ⟨hdiscards, x, hx, hpending⟩ := h
      · exact Or.inl rfl
      · rcases hdiscards.asset (d := S.db) a with ⟨rfl, hnone⟩ | ⟨-, hsame⟩
        · rw [hnone, hx]
          exact Or.inr (.dropped x hpending)
        · exact Or.inl hsame
  | deleteAsset i =>
      obtain ⟨x, w', removal, -, htask, rfl, hchecked, hlive, hremoval⟩ := h
      have hbefore : asset? (w'.apply S.db) a = asset? S.db a := by
        refine asset?_congr (Write.find?_apply_ne (fun he => ?_) S.db)
        have htable := htask.table
        rw [he] at htable
        cases htable
      rw [applyAll_cons]
      rcases hremoval with ⟨rfl, -⟩ | ⟨y, hy, hyr, hdiscards⟩
      · exact Or.inl hbefore
      · rcases hdiscards.asset (d := w'.apply S.db) a with ⟨rfl, hnone⟩ | ⟨-, hsame⟩
        · rw [hnone, hy]
          rw [← hyr] at hchecked hlive
          exact Or.inr (.deleted y hchecked hlive)
        · exact Or.inl (hsame.trans hbefore)
  | duplicateReport i =>
      obtain ⟨u, source, title, notes, createdAt, copies, rfl, hnew, -, -, hnodup, hcopies, -,
        honce⟩ := h
      rcases asset?_duplicate (newReport i u title notes createdAt) i createdAt hnodup S.db a with
        hsame | ⟨c, hc, rfl, hrow⟩
      · exact Or.inl hsame
      · obtain ⟨hfree, -, hkey⟩ := hcopies c hc
        rw [hrow, hfree]
        obtain ⟨e, he, hsources⟩ := honce
        refine Or.inr (.copied i u source createdAt c rfl hnew hkey ⟨e, he, ?_⟩)
        show c.source ∈ sourceAssets source e.before.db
        rw [← hsources]
        exact List.mem_map_of_mem hc
  | deleteReport i =>
      obtain ⟨r, side, removal, hr, hqueued, hprocessing, hside, -, rfl, -, -, -, hremoves⟩ := h
      have hbefore : asset? (applyAll side S.db) a = asset? S.db a := by
        refine asset?_congr (find?_applyAll_of_table fun w hw => ?_)
        obtain ⟨k, -, htask⟩ := hside w hw
        rw [htask.table]
        simp [Key.table]
      rw [applyAll_append]
      rcases hremoves.asset (d := applyAll side S.db) a with hsame | ⟨hnone, x, hx, rfl⟩
      · exact Or.inl (hsame.trans hbefore)
      · rw [hnone, hx]
        exact Or.inr (.removed x r hr hqueued hprocessing)
  | _ => exact Or.inl (asset?_congr (h.find?_eq (by simp [Site.tables, Key.table])))

/-- A commit that drops or deletes an asset, and changes anything but a
cleanup task, removes the asset. -/
theorem Effect.discarded {a : Id} (h : Effect cfg t s ws S)
    (hs : s = .dropPendingAsset a ∨ s = .deleteAsset a) {k : Key} (hk : k.table ≠ .cleanupTask)
    (hchange : (applyAll ws S.db).find? k ≠ S.db.find? k) : asset? (applyAll ws S.db) a = none := by
  have hgone : ∀ {l : List (Write Row Key)} {d : Db Row}, Discards a l →
      asset? (applyAll l d) a = none := by
    intro l d hl
    rcases hl.asset (d := d) a with ⟨-, hnone⟩ | ⟨hne, -⟩
    · exact hnone
    · exact absurd rfl hne
  rcases hs with rfl | rfl
  · obtain rfl | ⟨hdiscards, -⟩ := h
    · exact absurd rfl hchange
    · exact hgone hdiscards
  · obtain ⟨x, w', removal, -, htask, rfl, -, -, hremoval⟩ := h
    rcases hremoval with ⟨rfl, -⟩ | ⟨y, -, -, hdiscards⟩
    · refine absurd (Write.find?_apply_ne (fun he => hk ?_) S.db) hchange
      rw [← he]
      exact htask.table
    · rw [applyAll_cons]
      exact hgone hdiscards

/-- What stays with an asset as long as it is stored. -/
structure SameUpload (x y : ReportAsset) : Prop where
  id : y.id = x.id
  reportId : y.reportId = x.reportId
  type : y.type = x.type
  storageKey : y.storageKey = x.storageKey
  declaredMimeType : y.declaredMimeType = x.declaredMimeType
  declaredSize : y.declaredSize = x.declaredSize
  position : y.position = x.position
  createdAt : y.createdAt = x.createdAt

theorem SameUpload.refl (x : ReportAsset) : SameUpload x x :=
  ⟨rfl, rfl, rfl, rfl, rfl, rfl, rfl, rfl⟩

theorem SameUpload.trans {x y z : ReportAsset} (h : SameUpload x y) (h' : SameUpload y z) :
    SameUpload x z where
  id := h'.id.trans h.id
  reportId := h'.reportId.trans h.reportId
  type := h'.type.trans h.type
  storageKey := h'.storageKey.trans h.storageKey
  declaredMimeType := h'.declaredMimeType.trans h.declaredMimeType
  declaredSize := h'.declaredSize.trans h.declaredSize
  position := h'.position.trans h.position
  createdAt := h'.createdAt.trans h.createdAt

/-- No change makes another upload of an asset. -/
theorem AssetChange.upload {a : Id} {x y : ReportAsset}
    (h : AssetChange cfg t S a s (some x) (some y)) : SameUpload x y := by
  cases h with
  | verified => exact ⟨rfl, rfl, rfl, rfl, rfl, rfl, rfl, rfl⟩
  | rejected => exact ⟨rfl, rfl, rfl, rfl, rfl, rfl, rfl, rfl⟩

/-- An asset that is still stored after a commit is the same upload. -/
theorem Effect.upload (h : Effect cfg t s ws S) {x y : ReportAsset} (hx : asset? S.db a = some x)
    (hy : asset? (applyAll ws S.db) a = some y) : SameUpload x y := by
  rcases h.asset a with hsame | hchange
  · rw [hsame, hx] at hy
    cases hy
    exact SameUpload.refl x
  · rw [hx, hy] at hchange
    exact hchange.upload

end Assets

end FastRep.Reports
