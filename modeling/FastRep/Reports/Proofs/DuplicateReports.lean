/-
What a duplication leaves behind: nothing where it throws, unless a copy took
effect and was not verified, and a whole report where it returns.

# The statement

A duplication runs alone, and the outside makes of it what it wants: any
call may fail, take effect without an answer, and any transaction be refused.
`AllOrNothing` is what it has to leave by how it ends, and
`duplication_all_or_nothing` says exactly when it does: where no copy took
effect that was not verified (`Unverified`). Such a copy is not among the keys
that were recorded, so the rollback passes it by (`duplicate_copy_left`).

# The parts

The ids and keys come first, and are new (`FreshIds`, `Names`). The loop
over the copies is `Copies` of Duplication.lean. Then the report and its rows
are one statement, which inserts all of them or none (`of_create`). From the
copies on there are two ends: complete copies and their report
(`duplicated_of_created`), or the rollback (`leavesNothing_iff`). A rollback
deletes only what was recorded, so it decides nothing about the rest.
-/
import FastRep.Reports.Proofs.Duplication
import FastRep.Txn.Proofs.Writes
import Mathlib.Data.List.Forall2

namespace FastRep.Reports

open FastRep.Txn

variable {R R' : Rest Row Env} {l : List (Encounter Site Call Choice)} {userId id : Id}

-- ========================================================== the new ids

/-- What a duplication names its copies. -/
structure Names (userId duplicateId : Id) (ready : List ReportAsset) (first : Id)
    (copies : List AssetCopy) : Prop where
  sources : copies.map (·.source) = ready
  ids : (copies.map (·.id)).Nodup
  keys : ∀ c ∈ copies, first ≤ c.id ∧ ∃ nonce, c.storageKey = .asset userId duplicateId c.id nonce

/-- The copies are given ids and keys, nothing else happens. -/
theorem meets_assetCopies {duplicateId : Id} {ready : List ReportAsset}
    {r : Except Error (List AssetCopy)}
    (h : (assetCopies userId duplicateId ready).Meets R l r R') :
    ∃ copies n, l = [] ∧ r = .ok copies ∧ R' = { R with nextId := n } ∧
      Names userId duplicateId ready R.nextId copies := by
  induction ready generalizing R R' l r with
  | nil =>
      obtain ⟨rfl, hr, rfl⟩ := h.of_pure
      exact ⟨[], _, rfl, hr, rfl, ⟨rfl, List.nodup_nil, by simp⟩⟩
  | cons asset rest ih =>
      rcases h.of_bind with ⟨l₁, l₂, R₁, i, rfl, hid, h⟩ | ⟨e, hid, -⟩
      case inr => obtain ⟨-, he, -⟩ := hid.of_uuid; cases he
      obtain ⟨rfl, hi, rfl⟩ := hid.of_uuid
      cases hi
      rcases h.of_bind with ⟨l₁, l₂, R₁, i, rfl, hid, h⟩ | ⟨e, hid, -⟩
      case inr => obtain ⟨-, he, -⟩ := hid.of_uuid; cases he
      obtain ⟨rfl, hi, rfl⟩ := hid.of_uuid
      cases hi
      rcases h.of_bind with ⟨l₁, l₂, R₁, others, rfl, hothers, h⟩ | ⟨e, hothers, -⟩
      case inr => obtain ⟨copies, n, -, hr, -⟩ := ih hothers; cases hr
      obtain ⟨copies, n, rfl, hr, rfl, hnames⟩ := ih hothers
      cases hr
      obtain ⟨rfl, hr, rfl⟩ := h.of_pure
      refine ⟨_, n, rfl, hr, rfl, ?_, ?_, ?_⟩
      · exact congrArg (asset :: ·) hnames.sources
      · refine List.nodup_cons.mpr ⟨fun hmem => ?_, hnames.ids⟩
        obtain ⟨c, hc, he⟩ := List.mem_map.mp hmem
        have hle : R.nextId + 1 + 1 ≤ R.nextId :=
          (hnames.keys c hc).1.trans (le_of_eq he)
        exact Nat.not_succ_le_self _ (Nat.le_of_succ_le hle)
      · intro c hc
        rcases List.mem_cons.mp hc with rfl | hc
        · exact ⟨le_refl _, _, rfl⟩
        · obtain ⟨hle, hkey⟩ := hnames.keys c hc
          exact ⟨le_trans (Nat.le_add_right _ 2) hle, hkey⟩

/-- Different copies have different keys. -/
theorem Names.nodup {duplicateId first : Id} {ready : List ReportAsset} {copies : List AssetCopy}
    (h : Names userId duplicateId ready first copies) : (destinations copies).Nodup := by
  refine List.Nodup.map_on (fun c hc c' hc' he => ?_) h.ids.of_map
  obtain ⟨nonce, hkey⟩ := (h.keys c hc).2
  obtain ⟨nonce', hkey'⟩ := (h.keys c' hc').2
  have hid : c.id = c'.id := (StorageKey.asset.inj (hkey.symm.trans (he.trans hkey'))).2.2.1
  exact List.inj_on_of_nodup_map h.ids hc hc' hid

-- ============================================================ the creation

/-- The row is stored, and so it is after writes elsewhere. -/
theorem mem_put_of_new {d : Db Row} {x r : Row} (hx : x ∈ d.rows) (hnew : d.find? (key r) = none) :
    x ∈ (d.put r).rows := by
  refine Db.mem_put.mpr (Or.inr ⟨hx, fun he => ?_⟩)
  exact Db.find?_eq_none_iff.mp hnew x hx he

/-- What the nested `create` of the assets has checked and writes. -/
theorem TxEnds.insertAssets {n : Nat} {d : Db Row} {ws : List (Write Row Key)}
    (rows : List ReportAsset) (hkept : ∀ x ∈ d.rows, x ∈ (applyAll ws d).rows) :
    TxEnds n d (fun _ ws' => ws' = ws ++ rows.map (fun a => .insert (.asset a)) ∧
      ∀ a ∈ rows, ∀ x, asset? d x.id = some x → x.id ≠ a.id ∧ x.storageKey ≠ a.storageKey)
      (Reports.insertAssets rows) ws := by
  induction rows generalizing ws with
  | nil => exact TxEnds.pure ⟨by simp, by simp⟩
  | cons a rest ih =>
      refine TxEnds.insertRow fun hnew hviol => ?_
      have hkept' : ∀ x ∈ d.rows, x ∈ (applyAll (ws ++ [.insert (.asset a)]) d).rows := by
        intro x hx
        rw [applyAll_append]
        exact mem_put_of_new (hkept x hx) hnew
      refine (ih hkept').mono fun _ ws' ⟨hws, hchecked⟩ => ⟨?_, fun b hb x hx => ?_⟩
      · rw [hws, List.append_assoc]
        rfl
      · rcases List.mem_cons.mp hb with rfl | hb
        · have hrow := hkept _ (Db.mem_of_find? (asset?_eq_some.mp hx))
          have hne : key (Row.asset x) ≠ key (Row.asset b) :=
            fun he => Db.find?_eq_none_iff.mp hnew _ hrow he
          refine ⟨fun he => hne (congrArg Key.asset he), fun he => ?_⟩
          refine (Db.violation_eq_none_iff.mp hviol).1 _ hrow hne (.assetStorage b.storageKey)
            List.mem_cons_self ?_
          exact he ▸ List.mem_cons_self
        · exact hchecked b hb x hx

/-- The transaction of the duplicate inserts the report and one row for each
copy, or fails with a violation. -/
theorem TxEnds.createDuplicate {n : Nat} {d : Db Row} {duplicateId : Id} {title : String}
    {notes : Option String} (copies : List AssetCopy) :
    TxEnds n d (fun report ws => report = newReport duplicateId userId title notes n ∧
        ws = .insert (.report report) ::
          (copies.map (·.row duplicateId n)).map (fun a => .insert (.asset a)) ∧
        report? d duplicateId = none ∧
        ∀ a ∈ copies.map (·.row duplicateId n), ∀ x, asset? d x.id = some x →
          x.id ≠ a.id ∧ x.storageKey ≠ a.storageKey)
      (Reports.createDuplicate duplicateId userId title notes copies) [] := by
  refine TxEnds.clock (TxEnds.insertRow fun hnew hviol => ?_)
  refine TxEnds.bind (TxEnds.insertAssets _ fun x hx => mem_put_of_new hx hnew)
    fun _ ws ⟨hws, hchecked⟩ => TxEnds.pure ⟨rfl, hws, report?_eq_none.mpr hnew, hchecked⟩

-- ========================================================== what is left

/-- Nothing is left behind: no report or asset row changed, and an object that
was not there before is there under a cleanup task only. -/
structure LeavesNothing (R R' : Rest Row Env) : Prop where
  reports : ∀ i, report? R'.db i = report? R.db i
  assets : ∀ i, asset? R'.db i = asset? R.db i
  kept : ∀ k, R.env.object? k ≠ none → R'.env.object? k = R.env.object? k
  scheduled : ∀ k, R.env.object? k = none → R'.env.object? k ≠ none → Scheduled k R'.db

/-- A READY asset with the metadata and the position of another, under a key
that no asset had, with an object of the verified size. -/
structure CopyOf (R R' : Rest Row Env) (x y : ReportAsset) : Prop where
  ready : y.status = .ready
  fresh : ∀ z ∈ assets R.db, z.storageKey ≠ y.storageKey
  metadata : y.type = x.type ∧ y.originalFileName = x.originalFileName ∧
    y.declaredMimeType = x.declaredMimeType ∧ y.verifiedMimeType = x.verifiedMimeType ∧
    y.declaredSize = x.declaredSize ∧ y.verifiedSize = x.verifiedSize ∧ y.width = x.width ∧
    y.height = x.height ∧ y.durationSeconds = x.durationSeconds
  position : y.position = x.position
  stored : ∃ bytes, R'.env.object? y.storageKey = some bytes ∧
    bytes.length = x.verifiedSize.getD x.declaredSize

/-- A new DRAFT report with a copy of each READY asset of the source, which is
unchanged. -/
structure Duplicated (userId id : Id) (R R' : Rest Row Env) (report : Report) : Prop where
  draft : report.status = .draft ∧ report.userId = userId
  created : report? R.db report.id = none ∧ report? R'.db report.id = some report
  source : ∃ x, report? R.db id = some x ∧ x.status = .ready ∧ report? R'.db id = some x
  kept : ∀ x ∈ assets R.db, x ∈ assets R'.db
  objects : ∀ k, R.env.object? k ≠ none → R'.env.object? k = R.env.object? k
  copies : ∃ copies : List ReportAsset, (copies.map (·.id)).Nodup ∧
    (∀ y, y ∈ assets R'.db ∧ y.reportId = report.id ↔ y ∈ copies) ∧
    List.Forall₂ (CopyOf R R') (sourceAssets id R.db) copies

/-- What a duplication has to leave, by how it ends. -/
def AllOrNothing (userId id : Id) (R R' : Rest Row Env) : Except Error Report → Prop
  | .error _ => LeavesNothing R R'
  | .ok report => Duplicated userId id R R' report

/-- The ids from the next one on are in no key of a stored object or task. -/
structure FreshIds (R : Rest Row Env) : Prop where
  objects : ∀ u r a n, R.nextId ≤ a → R.env.object? (.asset u r a n) = none
  tasks : ∀ u r a n, R.nextId ≤ a → ¬ Scheduled (.asset u r a n) R.db

/-- Where nothing has changed, nothing is left. -/
theorem LeavesNothing.of_same (hdb : R'.db = R.db) (henv : R'.env = R.env) :
    LeavesNothing R R' where
  reports _ := by rw [hdb]
  assets _ := by rw [hdb]
  kept _ _ := by rw [henv]
  scheduled _ h h' := absurd (henv ▸ h) h'

/-- Nothing that deletes objects leaves a copy unverified. -/
theorem verified_of_deletes {α : Type} {p : Async α} {r : Except Error α}
    (hp : p.Calls fun x => ∃ k, x = .deleteObject k) (h : p.Meets R l r R') :
    ∀ x ∈ l, ¬ Unverified x := by
  intro x hx
  cases x with
  | refused s e => exact id
  | answered y c =>
      obtain ⟨k, rfl⟩ := hp.of_meets h hx
      exact id

/-- An attempt at a cleanup calls for deletions only. -/
theorem deletes_attempt {k : StorageKey} :
    (attempt k).Calls fun x => ∃ k, x = .deleteObject k := by
  refine Prog.Calls.catch ?_ fun _ => ?_
  · refine Prog.Calls.bind (Prog.Calls.bind (Prog.Calls.await ⟨k, rfl⟩) fun _ =>
      Prog.Calls.settle) fun _ => ?_
    exact Prog.Calls.bind Prog.Calls.transaction fun _ => Prog.Calls.pure
  · refine Prog.Calls.bind Prog.Calls.clock fun _ => ?_
    exact Prog.Calls.bind Prog.Calls.transaction fun _ => Prog.Calls.pure

theorem deletes_attemptAll {ks : List StorageKey} :
    (attemptAll ks).Calls fun x => ∃ k, x = .deleteObject k := by
  induction ks with
  | nil => exact Prog.Calls.pure
  | cons k ks ih =>
      exact Prog.Calls.bind (Prog.Calls.attempt deletes_attempt) fun _ =>
        Prog.Calls.bind ih fun _ => Prog.Calls.pure

theorem deletes_rollback {duplicateId : Id} {ks : List StorageKey} :
    (rollbackDuplicateCopies duplicateId ks).Calls fun x => ∃ k, x = .deleteObject k := by
  unfold rollbackDuplicateCopies
  split
  next => exact Prog.Calls.pure
  next =>
      refine Prog.Calls.catch (Prog.Calls.bind Prog.Calls.transaction fun _ => ?_)
        fun _ => Prog.Calls.pure
      exact Prog.Calls.bind deletes_attemptAll fun _ =>
        Prog.Calls.bind Prog.Calls.settle fun _ => Prog.Calls.pure

/-- A duplication that rolls its copies back leaves nothing exactly where it
verified what it copied. -/
theorem leavesNothing_iff {copies : List AssetCopy} {keys : List StorageKey}
    {result : Except Error Unit} {R₁ : Rest Row Env}
    (hunused : ∀ k ∈ destinations copies, R.env.object? k = none ∧ ¬ Scheduled k R.db)
    (hcopies : Copies copies l R R₁ keys result) (hcleans : Cleans keys R₁ R')
    (hclean : ∀ k ∈ keys, Scheduled k R'.db ∨ R'.env.object? k = none) :
    LeavesNothing R R' ↔ ∀ x ∈ l, ¬ Unverified x := by
  have houtside : ∀ k, k ∉ keys → R'.env.object? k = R₁.env.object? k := fun k hk =>
    (hcleans.objects k).resolve_right fun h => hk h.1
  constructor
  · intro hnothing x hx hunverified
    obtain ⟨k, hk, hkeys, hleft⟩ := hcopies.unrecorded ⟨x, hx, hunverified⟩
    obtain ⟨hnew, htask⟩ := hunused k hk
    have hscheduled := hnothing.scheduled k hnew (by rwa [houtside k hkeys])
    unfold Scheduled at hscheduled
    have hrow : R'.db.find? (.cleanupTask k) = R.db.find? (.cleanupTask k) := by
      rw [hcleans.rows _ fun k' hk' he => hkeys (by cases he; exact hk'), hcopies.db]
    exact htask (by rwa [Scheduled, ← hrow])
  · intro hverified
    refine ⟨fun i => ?_, fun i => ?_, fun k hk => ?_, fun k hnew hleft => ?_⟩
    · rw [report?_congr (hcleans.rows _ fun _ _ => nofun), hcopies.db]
    · rw [asset?_congr (hcleans.rows _ fun _ _ => nofun), hcopies.db]
    · have hdestination : k ∉ destinations copies := fun hmem => hk (hunused k hmem).1
      rw [houtside k fun hmem => hdestination (hcopies.known k hmem)]
      exact hcopies.other k hdestination
    · by_cases hkeys : k ∈ keys
      · exact (hclean k hkeys).resolve_right hleft
      · rw [houtside k hkeys, hcopies.recorded hverified k hkeys] at hleft
        exact absurd hnew hleft

-- ================================================================ the parts

/-- A query changes nothing and meets no copy. -/
theorem Meets.of_query {α : Type} {s : Site} {f : Db Row → α} {r : Except Error α}
    (h : (query s f).Meets R l r R') :
    R' = R ∧ (∀ x ∈ l, ¬ Unverified x) ∧ (r = .ok (f R.db) ∨ ∃ e, r = .error e) := by
  rcases h.of_tx with ⟨n, b, hb, rfl, hr, hR⟩ | ⟨n, e, -, rfl, hr, hR⟩ | ⟨e, rfl, hr, hR⟩
  · cases hb
    exact ⟨hR, by simp, Or.inl hr⟩
  · exact ⟨hR, by simp, Or.inr ⟨e, hr⟩⟩
  · exact ⟨hR, by simp [Unverified], Or.inr ⟨_, hr⟩⟩

/-- The report is created where the copies are complete, or nothing happens. -/
theorem of_create {duplicateId : Id} {title : String} {notes : Option String}
    {copies : List AssetCopy} {result : Except Error Unit} {a : Except Error (Except Error Report)}
    (h : (do
      Prog.settle result
      transaction (Site.duplicateReport duplicateId) (createDuplicate duplicateId userId title notes
        copies) : Async Report).attempt.Meets R l a R') :
    (∀ x ∈ l, ¬ Unverified x) ∧ ((R' = R ∧ ∃ e, a = .ok (.error e)) ∨
      result = .ok () ∧ ∃ n report ws, a = .ok (.ok report) ∧
        R' = { R with db := applyAll ws R.db } ∧
        report = newReport duplicateId userId title notes n ∧
        ws = .insert (.report report) ::
          (copies.map (·.row duplicateId n)).map (fun a => .insert (.asset a)) ∧
        report? R.db duplicateId = none ∧
        ∀ a ∈ copies.map (·.row duplicateId n), ∀ x, asset? R.db x.id = some x →
          x.id ≠ a.id ∧ x.storageKey ≠ a.storageKey) := by
  refine ⟨verified_of_deletes (p := (do
      Prog.settle result
      transaction (Site.duplicateReport duplicateId) (createDuplicate duplicateId userId title notes
        copies) : Async Report).attempt)
    (Prog.Calls.attempt (Prog.Calls.bind Prog.Calls.settle fun _ => Prog.Calls.transaction)) h, ?_⟩
  obtain ⟨b, rfl, hinner⟩ := h.of_attempt
  rcases hinner.of_bind with ⟨first, rest, R₁, u, rfl, hsettle, htx⟩ | ⟨e, hsettle, rfl⟩
  · obtain ⟨rfl, hresult, rfl⟩ := hsettle.of_settle
    rcases htx.of_tx with ⟨n, report, hb, -, rfl, rfl⟩ | ⟨n, e, -, -, rfl, rfl⟩ | ⟨e, -, rfl, rfl⟩
    · obtain ⟨hreport, hws, hnew, hchecked⟩ := (TxEnds.createDuplicate copies).run hb
      exact Or.inr ⟨hresult.symm, n, report, _, rfl, rfl, hreport, hws, hnew, hchecked⟩
    · exact Or.inl ⟨rfl, e, rfl⟩
    · exact Or.inl ⟨rfl, _, rfl⟩
  · obtain ⟨-, -, rfl⟩ := hsettle.of_settle
    exact Or.inl ⟨rfl, e, rfl⟩

/-- Complete copies and their report, which the database took. -/
theorem duplicated_of_created {duplicateId : Id} {title : String} {notes : Option String}
    {n : Nat} {copies : List AssetCopy} {keys : List StorageKey} {source : Report}
    {R₁ : Rest Row Env} (hR : R.db.Consistent) (hsource : report? R.db id = some source)
    (hready : source.status = .ready) (hids : (copies.map (·.id)).Nodup)
    (hsources : copies.map (·.source) = sourceAssets id R.db)
    (hunused : ∀ k ∈ destinations copies, R.env.object? k = none)
    (hcopies : Copies copies l R R₁ keys (.ok ()))
    (hnew : report? R.db duplicateId = none)
    (hchecked : ∀ a ∈ copies.map (·.row duplicateId n), ∀ x, asset? R.db x.id = some x →
      x.id ≠ a.id ∧ x.storageKey ≠ a.storageKey) :
    Duplicated userId id R { R₁ with
      db := applyAll (.insert (.report (newReport duplicateId userId title notes n)) ::
        (copies.map (·.row duplicateId n)).map (fun a => .insert (.asset a))) R₁.db }
      (newReport duplicateId userId title notes n) := by
  rw [hcopies.db]
  generalize hrows : copies.map (·.row duplicateId n) = rows at hchecked ⊢
  generalize hws : Write.insert (.report (newReport duplicateId userId title notes n)) ::
    rows.map (fun a => Write.insert (Row.asset a)) = ws
  have hrowids : rows.map (·.id) = copies.map (·.id) := by
    rw [← hrows, List.map_map]
    rfl
  have htargets : ws.map Write.target = .report duplicateId :: rows.map (Key.asset ·.id) := by
    rw [← hws, List.map_cons, List.map_map]
    rfl
  have hnodup : (ws.map Write.target).Nodup := by
    rw [htargets, List.nodup_cons]
    refine ⟨by simp, ?_⟩
    rw [show rows.map (Key.asset ·.id) = (rows.map (·.id)).map Key.asset from
      (List.map_map ..).symm, hrowids]
    exact hids.map fun _ _ he => Key.asset.inj he
  have hstored : ∀ a ∈ rows, asset? (applyAll ws R.db) a.id = some a := fun a ha =>
    asset?_eq_some.mpr (find?_applyAll_of_mem (w := .insert (.asset a)) hnodup
      (hws ▸ List.mem_cons_of_mem _ (List.mem_map_of_mem ha)))
  have hid : id ≠ duplicateId := fun he => by
    rw [← he, hsource] at hnew
    cases hnew
  refine ⟨⟨rfl, rfl⟩, ⟨hnew, ?_⟩, ⟨source, hsource, hready, ?_⟩, fun x hx => ?_, fun k hk => ?_,
    rows, ?_, fun y => ⟨fun hy => ?_, fun hy => ?_⟩, ?_⟩
  · exact report?_eq_some.mpr (find?_applyAll_of_mem (w := .insert (.report _)) hnodup
      (hws ▸ List.mem_cons_self))
  · rw [← hsource]
    refine report?_congr (find?_applyAll_ne (fun w hw => ?_) _)
    have hmem : w.target ∈ ws.map Write.target := List.mem_map_of_mem hw
    rw [htargets] at hmem
    rintro he
    simp [he, hid] at hmem
  · have hfind := asset?_eq_some.mp (mem_assets.mp hx)
    refine mem_assets.mpr (asset?_eq_some.mpr ((find?_applyAll_ne (fun w hw he => ?_) _).trans
      hfind))
    have hmem : w.target ∈ ws.map Write.target := List.mem_map_of_mem hw
    rw [htargets, he] at hmem
    rcases List.mem_cons.mp hmem with hmem | hmem
    · cases hmem
    · obtain ⟨a, ha, hkey⟩ := List.mem_map.mp hmem
      exact (hchecked a ha x (mem_assets.mp hx)).1 (Key.asset.inj hkey).symm
  · exact hcopies.other k fun hmem => hk (hunused k hmem)
  · exact hrowids ▸ hids
  · obtain ⟨hmem, hreport⟩ := hy
    have hrow := Db.mem_of_find? (asset?_eq_some.mp (mem_assets.mp hmem))
    rcases mem_applyAll hrow with ⟨w, hw, hrow⟩ | hrow
    · rw [← hws] at hw
      rcases List.mem_cons.mp hw with rfl | hw
      · cases hrow
      · obtain ⟨a, ha, rfl⟩ := List.mem_map.mp hw
        cases hrow
        exact ha
    · -- no asset refers to a report that is not there
      have href : (R.db.find? (.report y.reportId)).isSome = true :=
        (Db.violation_eq_none_iff.mp (hR _ hrow)).2.2 _ List.mem_cons_self
      rw [hreport] at href
      cases href.symm.trans (congrArg Option.isSome (report?_eq_none.mp hnew))
  · refine ⟨mem_assets.mpr (hstored y hy), ?_⟩
    rw [← hrows] at hy
    obtain ⟨c, -, rfl⟩ := List.mem_map.mp hy
    rfl
  · rw [← hsources, ← hrows, List.forall₂_map_left_iff, List.forall₂_map_right_iff,
      List.forall₂_same]
    intro c hc
    refine ⟨rfl, fun z hz => ?_, ⟨rfl, rfl, rfl, rfl, rfl, rfl, rfl, rfl, rfl⟩, rfl, ?_⟩
    · exact (hchecked _ (hrows ▸ List.mem_map_of_mem hc) z (mem_assets.mp hz)).2
    · exact (hcopies.complete rfl).2 c hc

-- ================================================================ the result

/-- What is duplicated is the report with its READY assets. -/
theorem of_duplicationSource {d : Db Row} {source : Report} {language : String}
    {ready : List ReportAsset} (h : duplicationSource userId id d = some (source, language, ready)) :
    report? d id = some source ∧ ready = sourceAssets id d := by
  obtain ⟨x, hx, h⟩ := Option.bind_eq_some_iff.mp h
  obtain ⟨u, -, h⟩ := Option.bind_eq_some_iff.mp h
  cases h
  exact ⟨(Option.filter_eq_some_iff.mp hx).1, rfl⟩

/-- Where nothing was copied, a throw leaves nothing. -/
theorem allOrNothing_iff_of_error {r : Except Error Report} (hr : ∃ e, r = .error e)
    (hdb : R'.db = R.db) (henv : R'.env = R.env) (hl : ∀ x ∈ l, ¬ Unverified x) :
    AllOrNothing userId id R R' r ↔ ∀ x ∈ l, ¬ Unverified x := by
  obtain ⟨e, rfl⟩ := hr
  exact iff_of_true (LeavesNothing.of_same hdb henv) hl

/-- Whether all is verified is decided where copies are made. -/
theorem unverified_append_iff {l' : List (Encounter Site Call Choice)}
    (hl : ∀ x ∈ l, ¬ Unverified x) :
    (∀ x ∈ l ++ l', ¬ Unverified x) ↔ ∀ x ∈ l', ¬ Unverified x := by
  simp only [List.mem_append, or_imp, forall_and, and_iff_right hl]

/-- From the copies on: the report is created, or the copies are rolled back. -/
theorem allOrNothing_iff_of_copies {duplicateId : Id} {title : String} {notes : Option String}
    {copies : List AssetCopy} {source : Report} {keys : List StorageKey}
    {result : Except Error Unit} {R₁ : Rest Row Env} {l₁ l₂ : List (Encounter Site Call Choice)}
    {r : Except Error Report} (hR : R.db.Consistent) (hsource : report? R.db id = some source)
    (hready : source.status = .ready) (hids : (copies.map (·.id)).Nodup)
    (hsources : copies.map (·.source) = sourceAssets id R.db)
    (hunused : ∀ k ∈ destinations copies, R.env.object? k = none ∧ ¬ Scheduled k R.db)
    (hcopies : Copies copies l₁ R R₁ keys result)
    (h : ((do
        Prog.settle result
        transaction (Site.duplicateReport duplicateId) (createDuplicate duplicateId userId title
          notes copies) : Async Report).attempt >>= fun created =>
      match created with
      | .ok duplicate => pure duplicate
      | .error _ => do
          rollbackDuplicateCopies duplicateId keys
          .throw (unavailable "REPORT_DUPLICATION_FAILED"
            "The report could not be duplicated; retry the request")).Meets R₁ l₂ r R')
    (hscheduled : ∀ e, .refused (.rollbackDuplicateCopies duplicateId) e ∉ l₂) :
    AllOrNothing userId id R R' r ↔ ∀ x ∈ l₁ ++ l₂, ¬ Unverified x := by
  rcases h.of_bind with ⟨first, rest, R₂, created, rfl, hcreate, h⟩ | ⟨e, hcreate, -⟩
  case inr => obtain ⟨a, ha, -⟩ := hcreate.of_attempt; cases ha
  obtain ⟨hfirst, ⟨rfl, e, he⟩ | ⟨rfl, n, report, ws, hok, rfl, rfl, rfl, hnew, hchecked⟩⟩ :=
    of_create hcreate
  · cases he
    rcases h.of_bind with ⟨second, last, R₃, u, rfl, hrollback, h⟩ | ⟨e', hrollback, -⟩
    · obtain ⟨rfl, rfl, rfl⟩ := h.of_throw
      obtain ⟨-, hcleans, hclean⟩ := rollback_cleans hrollback fun e' he' =>
        hscheduled e' (by simp [he'])
      have hsecond := verified_of_deletes deletes_rollback hrollback
      refine (leavesNothing_iff hunused hcopies hcleans hclean).trans ?_
      simp only [List.append_nil, List.mem_append, or_imp, forall_and]
      exact ⟨fun h => ⟨h, hfirst, hsecond⟩, fun h => h.1⟩
    · obtain ⟨hr, -⟩ := rollback_cleans hrollback fun e' he' => hscheduled e' (by simp [he'])
      cases hr
  · cases hok
    obtain ⟨rfl, rfl, rfl⟩ := h.of_pure
    have hverified := (hcopies.complete rfl).1
    refine iff_of_true ?_ ?_
    · rw [hcopies.db] at hnew hchecked
      exact duplicated_of_created hR hsource hready hids hsources (fun k hk => (hunused k hk).1)
        hcopies hnew hchecked
    · simp only [List.append_nil, List.mem_append, or_imp, forall_and]
      exact ⟨hverified, hfirst⟩

/-- A duplication is all or nothing exactly where every copy that took effect
was verified. -/
theorem duplication_all_or_nothing (hR : R.db.Consistent) (hfresh : FreshIds R)
    {r : Except Error Report} (h : (duplicate userId id).Meets R l r R')
    (hscheduled : ∀ reportId e, .refused (.rollbackDuplicateCopies reportId) e ∉ l) :
    AllOrNothing userId id R R' r ↔ ∀ x ∈ l, ¬ Unverified x := by
  rcases h.of_bind with ⟨l₁, l₂, R₁, found, rfl, hquery, h⟩ | ⟨e, hquery, rfl⟩
  case inr =>
    obtain ⟨rfl, hl, -⟩ := Meets.of_query hquery
    exact allOrNothing_iff_of_error ⟨e, rfl⟩ rfl rfl hl
  obtain ⟨rfl, hl₁, hfound⟩ := Meets.of_query hquery
  rw [unverified_append_iff hl₁]
  obtain hfound | ⟨e, he⟩ := hfound
  case inr => cases he
  cases found with
  | none =>
      obtain ⟨rfl, rfl, rfl⟩ := h.of_throw
      exact allOrNothing_iff_of_error ⟨_, rfl⟩ rfl rfl (by simp)
  | some found =>
      obtain ⟨source, language, ready⟩ := found
      obtain ⟨hsource, rfl⟩ := of_duplicationSource (Except.ok.inj hfound).symm
      dsimp only at h
      split at h
      next =>
          obtain ⟨rfl, rfl, rfl⟩ := h.of_throw
          exact allOrNothing_iff_of_error ⟨_, rfl⟩ rfl rfl (by simp)
      next hready =>
          rcases h.of_bind with ⟨first, rest, R₂, duplicateId, rfl, hid, h⟩ | ⟨e, hid, -⟩
          case inr => obtain ⟨-, he, -⟩ := hid.of_uuid; cases he
          obtain ⟨rfl, -, rfl⟩ := hid.of_uuid
          rcases h.of_bind with ⟨first, rest, R₂, copies, rfl, hnames, h⟩ | ⟨e, hnames, -⟩
          case inr => obtain ⟨copies, n, -, hr, -⟩ := meets_assetCopies hnames; cases hr
          obtain ⟨copies', n, rfl, hr, rfl, hnames⟩ := meets_assetCopies hnames
          cases hr
          rcases h.of_bind with ⟨first, rest, R₂, copied, rfl, hcopy, h⟩ | ⟨e, hcopy, -⟩
          case inr =>
            obtain ⟨keys, result, hr, -⟩ := copies_copyAssets hnames.nodup hcopy
            cases hr
          obtain ⟨keys, result, hr, hcopies⟩ := copies_copyAssets hnames.nodup hcopy
          cases hr
          have hunused : ∀ k ∈ destinations copies,
              R₁.env.object? k = none ∧ ¬ Scheduled k R₁.db := by
            intro k hk
            obtain ⟨c, hc, rfl⟩ := List.mem_map.mp hk
            obtain ⟨hle, nonce, hkey⟩ := hnames.keys c hc
            have hnext : R₁.nextId ≤ c.id := (Nat.le_succ _).trans hle
            rw [hkey]
            exact ⟨hfresh.objects _ _ _ _ hnext, hfresh.tasks _ _ _ _ hnext⟩
          have hcopies' : Copies copies first R₁ R₂ keys result :=
            ⟨hcopies.db, hcopies.known, hcopies.other, hcopies.recorded, hcopies.unrecorded,
              hcopies.complete⟩
          rw [List.nil_append, List.nil_append]
          refine allOrNothing_iff_of_copies hR hsource (not_not.mp hready) hnames.ids hnames.sources
            hunused hcopies' h fun e he => hscheduled duplicateId e ?_
          simp only [List.nil_append, List.mem_append]
          exact Or.inr (Or.inr he)

-- ======================================================= a concrete report

/-- The READY report 10 with two images. -/
def albumReport : Report := { newReport 10 1 "t" none 0 with status := .ready }

/-- An image of it, of two bytes. -/
def albumAsset (id position : Nat) : ReportAsset where
  id
  reportId := 10
  type := .image
  status := .ready
  storageKey := .asset 1 10 id 0
  originalFileName := "photo.png"
  declaredMimeType := "image/png"
  verifiedMimeType := some "image/png"
  declaredSize := 2
  verifiedSize := some 2
  position
  width := some 1
  height := some 1
  durationSeconds := none
  rejectionReason := none
  createdAt := 0

/-- The report with its images and their objects. -/
def albumRest : Rest Row Env where
  db := (((Db.empty.put (.user sampleUser)).put (.report albumReport)).put
    (.asset (albumAsset 11 0))).put (.asset (albumAsset 12 1))
  env := ⟨[], [(.asset 1 10 11 0, [1, 2]), (.asset 1 10 12 0, [3, 4])], []⟩
  nextId := 13

theorem consistent_albumRest : albumRest.db.Consistent := by
  refine Db.Consistent.insert (Db.Consistent.insert (Db.Consistent.insert
    (Db.Consistent.insert ?_ ?_ ?_) ?_ ?_) ?_ ?_) ?_ ?_
  · exact fun x hx => absurd hx List.not_mem_nil
  all_goals decide +kernel

/-- No id is taken that will be drawn. -/
theorem freshIds_albumRest : FreshIds albumRest where
  objects u r a n hle := by
    have hne : ∀ id < 13, StorageKey.asset 1 10 id 0 ≠ .asset u r a n := by
      rintro id hid he
      cases he
      exact absurd hle (Nat.not_le_of_lt hid)
    simp [Env.object?, albumRest, hne 11, hne 12]
  tasks u r a n _ := by
    have hnone : albumRest.db.find? (.cleanupTask (.asset u r a n)) = none := rfl
    rw [Scheduled, hnone]
    exact Bool.false_ne_true

/-- Everything works. -/
def albumVisit : Visit Call Choice := ⟨fun _ => .done, fun _ => 5, monotone_const⟩

/-- The report is duplicated, with both images. -/
theorem duplication_all_or_nothing_album : ∃ l report R',
    (duplicate 1 10).Meets albumRest l (.ok report) R' ∧ Duplicated 1 10 albumRest R' report := by
  obtain ⟨r, i', R', hends, hok⟩ := Prog.exists_ends (q := fun x => x.1.isOk)
    (p := duplicate 1 10) (v := albumVisit) (i := 0) (R := albumRest) (by decide +kernel)
  cases r with
  | error e => cases hok
  | ok report =>
      refine ⟨_, report, R', hends.meets, (duplication_all_or_nothing consistent_albumRest
        freshIds_albumRest hends.meets fun _ e he => ?_).mpr fun x hx => ?_⟩
      · obtain ⟨y, hy⟩ := Visit.mem_encounters he
        cases hy
      · obtain ⟨y, rfl⟩ := Visit.mem_encounters hx
        cases y <;> exact id

/-- Every HEAD fails. -/
def headlessVisit : Visit Call Choice where
  answer
    | .headObject _ => .failed (.other "timeout")
    | _ => .done
  times _ := 5
  mono := monotone_const

/-- The copy of an image whose HEAD fails stays, and nothing deletes it. -/
theorem duplicate_copy_left : ∃ l e R',
    albumRest.db.Consistent ∧ FreshIds albumRest ∧
      (duplicate 1 10).Meets albumRest l (.error e) R' ∧
      (∀ reportId e, .refused (.rollbackDuplicateCopies reportId) e ∉ l) ∧
      ¬ LeavesNothing albumRest R' := by
  obtain ⟨r, i', R', hends, hq⟩ := Prog.exists_ends (q := fun x =>
      !x.1.isOk && (x.2.2.env.object? (.asset 1 13 14 15)).isSome
        && (x.2.2.db.find? (.cleanupTask (.asset 1 13 14 15))).isNone)
    (p := duplicate 1 10) (v := headlessVisit) (i := 0) (R := albumRest) (by decide +kernel)
  simp only [Bool.and_eq_true] at hq
  obtain ⟨⟨hr, hobject⟩, htask⟩ := hq
  cases r with
  | ok report => cases hr
  | error e =>
      refine ⟨_, e, R', consistent_albumRest, freshIds_albumRest, hends.meets, fun _ e he => ?_,
        fun hnothing => ?_⟩
      · obtain ⟨y, hy⟩ := Visit.mem_encounters he
        cases hy
      · have hscheduled := hnothing.scheduled (.asset 1 13 14 15) rfl fun hnone => by
          rw [hnone] at hobject
          cases hobject
        rw [Scheduled, Option.isNone_iff_eq_none.mp htask] at hscheduled
        cases hscheduled

end FastRep.Reports
