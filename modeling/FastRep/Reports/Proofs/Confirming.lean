/-
The confirmation of an upload that runs alone: which verdict of the
inspection makes the asset READY, and which rejects it.

`Deposited` is the state a client leaves behind: a pending asset of an
editable report, its object stored with the declared size, within the limits.
`Timely` is a visit in which the services answer and the upload has not
expired. Then a confirmation is decided by the inspection of the first bytes
alone (`becomesReady_iff`, `becomesRejected`), and a statement about a file
format has nothing else to look at.

The program is walked in three parts: up to the first look at the object, up
to the verdict, and what each verdict does. A rejection also deletes the
object with its cleanup task.
-/
import FastRep.Reports.Proofs.Reached
import FastRep.Txn.Proofs.Alone

namespace FastRep.Reports

open FastRep.Txn

variable {cfg : Config} {v : Visit Call Choice} {i : Nat} {R : Rest Row Env}
  {userId reportId : Id} {asset : ReportAsset} {bytes : Bytes}

/-- A pending asset of an editable report, its object stored with the declared
size, and within the limits that the size alone decides. -/
structure Deposited (cfg : Config) (R : Rest Row Env) (userId : Id) (asset : ReportAsset)
    (bytes : Bytes) : Prop where
  consistent : R.db.Consistent
  row : asset? R.db asset.id = some asset
  editable : ∃ report, ownedReport userId asset.reportId R.db = some report
    ∧ reportNotEditable report.status = none
  pending : asset.status = .pendingUpload
  stored : R.env.object? asset.storageKey = some bytes
  exact : bytes.length = asset.declaredSize
  nonempty : bytes ≠ []
  fits : bytes.length ≤ cfg.maximumBytes asset.type

/-- The services answer, and the upload has not expired when the clock is
read. -/
structure Timely (cfg : Config) (v : Visit Call Choice) (i : Nat) (asset : ReportAsset) :
    Prop where
  answers : ∀ x, v.answer x = .done
  recent : cfg.pendingCutoff (v.times (i + 2)) ≤ asset.createdAt

/-- What the inspection of an upload says: its first bytes against the declared
type and the limits. -/
def verdict (cfg : Config) (asset : ReportAsset) (bytes : Bytes) :
    Except (String × String) AssetInspection :=
  inspectionRejection cfg asset
    (inspectAssetBytes (bytes.take inspectionRangeBytes) bytes.length)

-- ============================================================== the parts

/-- A query is one step, and reads the database. -/
theorem Ends.query {α : Type} {s : Site} (f : Db Row → α) :
    (query s f : Async α).Ends v i R (.ok (f R.db)) (i + 1) R :=
  Prog.Ends.commits ⟨rfl, rfl⟩

/-- A call of the storage that is served is one step. -/
theorem Ends.awaitOk {x : Call} {a : x.Value} {env : Env} (hanswer : v.answer x = .done)
    (h : x.serve (v.times i) R.env .done = some (a, env)) :
    (awaitOk x).Ends v i R (.ok a) (i + 1) { R with env } := by
  have hawait : (await x : Async (Except Error x.Value)).Ends v i R (.ok (.ok a)) (i + 1)
      { R with env } := by
    refine Prog.Ends.await ?_
    rw [hanswer]
    simp only [Services.perform, h]
    rfl
  exact Prog.Ends.bind hawait Prog.Ends.settle

/-- The guarded step of a pending asset. -/
theorem Ends.settlePending {s : Site} {f : ReportAsset → ReportAsset} {d : Db Row}
    (hd : d.Consistent) (hrow : asset? d asset.id = some asset)
    (hpending : asset.status = .pendingUpload) (hid : (f asset).id = asset.id)
    (hreport : (f asset).reportId = asset.reportId)
    (hkey : (f asset).storageKey = asset.storageKey) (hR : R.db = d) :
    (settlePending s asset.id f).Ends v i R (.ok 1) (i + 1)
      { R with db := d.put (.asset (f asset)) } := by
  subst hR
  have hfind := asset?_eq_some.mp hrow
  have hviol : R.db.violation (.asset (f asset)) = none := by
    refine hd.violation_of_update (Db.mem_of_find? hfind) ?_ ?_ ?_ rfl
    · simp only [key, Schema.key, hid]
    · simp only [Schema.indexes, hkey]
    · simp only [Schema.references, hreport]
  have hyields : (updateRow (.asset asset.id) (onAsset fun a => a.status = .pendingUpload)
      (setAsset f) : InTransaction Nat).Yields (v.times i) R.db 1
      [.update (.asset (f asset))] :=
    Tx.Yields.updateRow hfind (decide_eq_true hpending) hviol Tx.Yields.pure
  exact Prog.Ends.commits hyields

-- ============================================================ the outcomes

/-- The asset a confirmation finds, up to the first look at the object. -/
theorem Ends.confirmUpload {r : Except Error ReportAsset} {i' : Nat} {R' : Rest Row Env}
    (h : Deposited cfg R userId asset bytes) (ht : Timely cfg v i asset)
    (hverify : (verifyUpload cfg userId asset.reportId asset).Ends v (i + 3) R r i' R') :
    (confirmUpload cfg userId asset.reportId asset.id).Ends v i R r i' R' := by
  obtain ⟨report, howned, heditable⟩ := h.editable
  have hfind : (findOwnedAsset userId asset.reportId asset.id).Ends v i R (.ok asset)
      (i + 1) R := by
    refine Prog.Ends.bind (Ends.query _) ?_
    rw [h.row, howned]
    simp only [Option.filter_some, decide_true, Option.isSome_some, Bool.and_self, if_true]
    exact Prog.Ends.pure
  have hassert : (assertEditableReport userId asset.reportId).Ends v (i + 1) R (.ok ())
      (i + 2) R := by
    refine Prog.Ends.bind (Ends.query _) ?_
    rw [howned]
    simp only [heditable]
    exact Prog.Ends.pure
  refine Prog.Ends.bind hfind ?_
  rw [h.pending, if_neg (by simp), if_neg (by simp)]
  refine Prog.Ends.bind hassert (Prog.Ends.bind Prog.Ends.clock ?_)
  rw [if_neg (Nat.not_lt.mpr ht.recent)]
  exact hverify

/-- An object of the declared size within the limits is not rejected for its
size. -/
theorem sizeRejection_eq_none (h : Deposited cfg R userId asset bytes) :
    sizeRejection cfg asset bytes.length = none := by
  rw [sizeRejection, if_neg (Nat.not_lt.mpr h.fits), if_neg]
  rintro (h0 | hne)
  · exact h.nonempty (List.length_eq_zero_iff.mp h0)
  · exact hne h.exact

/-- Up to the verdict. -/
theorem Ends.verifyUpload {r : Except Error ReportAsset} {i' : Nat} {R' : Rest Row Env}
    (h : Deposited cfg R userId asset bytes) (ht : ∀ x, v.answer x = .done)
    (hverdict : (match verdict cfg asset bytes with
      | .error rejection => rejectUpload asset rejection.1 rejection.2
      | .ok inspection =>
          publishAsset userId reportId asset inspection bytes.length).Ends v (i + 2) R r i' R') :
    (verifyUpload cfg userId reportId asset).Ends v i R r i' R' := by
  have hhead : (headObject asset.storageKey).Ends v i R (.ok (some bytes.length)) (i + 1) R :=
    Ends.awaitOk (ht _) (by simp only [Call.serve, h.stored]; rfl)
  have hget : (readInspectionBytes asset.storageKey).Ends v (i + 1) R
      (.ok (bytes.take inspectionRangeBytes)) (i + 2) R :=
    Ends.awaitOk (ht _) (by simp only [Call.serve, h.stored])
  refine Prog.Ends.bind hhead.attempt ?_
  simp only [sizeRejection_eq_none h]
  exact Prog.Ends.bind hget.attempt hverdict

/-- An asset that was put is found. -/
theorem asset?_put_asset (d : Db Row) (a : ReportAsset) :
    asset? (d.put (.asset a)) a.id = some a :=
  asset?_eq_some.mpr (Db.find?_put_self d (.asset a))

/-- An accepted upload becomes READY. -/
theorem confirmUpload_accepts {inspection : AssetInspection}
    (h : Deposited cfg R userId asset bytes) (ht : Timely cfg v i asset)
    (hverdict : verdict cfg asset bytes = .ok inspection) :
    (confirmUpload cfg userId asset.reportId asset.id).Ends v i R
      (.ok (asset.verified inspection bytes.length)) (i + 7)
      { R with db := R.db.put (.asset (asset.verified inspection bytes.length)) } := by
  refine Ends.confirmUpload h ht (Ends.verifyUpload h ht.answers ?_)
  rw [hverdict]
  have hsettle := Ends.settlePending (v := v) (i := i + 5) (s := .markReady asset.id)
    (f := (·.verified inspection bytes.length)) h.consistent h.row h.pending rfl rfl rfl rfl
  refine Prog.Ends.bind hsettle ?_
  rw [if_neg (by decide)]
  have hread := asset?_put_asset R.db (asset.verified inspection bytes.length)
  exact Prog.Ends.commits (Tx.Yields.selectOrThrow hread Tx.Yields.pure)

-- ============================================================ the cleanup

theorem violation_cleanupTask {d : Db Row} {task : StorageCleanupTask} :
    d.violation (.cleanupTask task) = none := by
  refine Db.violation_eq_none_iff.mpr ⟨fun x hx hk i hi => ?_, rfl, fun ref hr => ?_⟩
  · cases hi
  · cases hr

/-- What is found under the key of a task is the task. -/
theorem exists_cleanupTask {r : Row} {k : StorageKey} (h : key r = Key.cleanupTask k) :
    ∃ task, r = .cleanupTask task ∧ task.storageKey = k := by
  cases r <;> simp_all [key, Schema.key]

/-- Scheduling an object for deletion stores a task. -/
theorem upsertCleanupTask_yields {d : Db Row} (hd : d.Consistent) (now : Time) (k : StorageKey)
    (reason : StorageCleanupReason) :
    ∃ (task : StorageCleanupTask) (w : Write Row Key), task.storageKey = k
      ∧ (upsertCleanupTask k reason).Yields now d () [w]
      ∧ w.apply d = d.put (.cleanupTask task) ∧ (d.put (.cleanupTask task)).Consistent := by
  cases hfind : d.rows.find? fun r => decide (key r = Key.cleanupTask k) with
  | some r =>
      have hr := List.mem_of_find?_eq_some hfind
      have hkey : key r = Key.cleanupTask k := by simpa using List.find?_some hfind
      obtain ⟨task, rfl, htask⟩ := exists_cleanupTask hkey
      exact ⟨{ task with reason }, _, htask,
        Tx.Yields.clock (Tx.Yields.upsertRow_update hfind Tx.Yields.pure), rfl,
        hd.update hr rfl rfl rfl rfl⟩
  | none =>
      have hnew : d.find? (Key.cleanupTask k) = none :=
        Db.find?_eq_none_iff.mpr fun r hr => by simpa using List.find?_eq_none.mp hfind r hr
      exact ⟨⟨k, reason, 0, none, now⟩, _, rfl,
        Tx.Yields.clock (Tx.Yields.upsertRow_insert hfind hnew violation_cleanupTask
          Tx.Yields.pure), rfl, hd.insert violation_cleanupTask hnew⟩

/-- No row references a task. -/
theorem ne_cleanupTask_of_reference {k : StorageKey} {r : Row} :
    ∀ ref ∈ Schema.references r, ref.1 ≠ Key.cleanupTask k := by
  intro ref href h
  cases r <;> simp only [Schema.references] at href <;> grind

theorem consistent_erasures {d : Db Row} {k : StorageKey} {ws : List (Write Row Key)}
    (hd : d.Consistent) (hws : ∀ w ∈ ws, w = .erase (.cleanupTask k)) :
    (applyAll ws d).Consistent := by
  induction ws generalizing d with
  | nil => exact hd
  | cons w ws ih =>
      obtain rfl := hws w List.mem_cons_self
      exact ih (hd.erase fun x _ => ne_cleanupTask_of_reference)
        fun w hw => hws w (List.mem_cons_of_mem _ hw)

/-- The object is deleted, and so is its task. -/
theorem Ends.enqueueAndAttempt (hd : R.db.Consistent) (ht : ∀ x, v.answer x = .done)
    (k : StorageKey) (reason : StorageCleanupReason) :
    ∃ d, (enqueueAndAttempt k reason).Ends v i R (.ok true) (i + 3)
        ⟨d, R.env.deleteObject k, R.nextId⟩
      ∧ d.Consistent ∧ ∀ a, asset? d a = asset? R.db a := by
  obtain ⟨task, w, rfl, hyields, happly, hd₁⟩ := upsertCleanupTask_yields hd (v.times i) k
    reason
  generalize hd' : R.db.put (.cleanupTask task) = d at happly hd₁
  have herase : ∀ w ∈ d.deletion [.cleanupTask task.storageKey],
      w = .erase (.cleanupTask task.storageKey) := fun w hw => deletion_cleanupTask hw
  have henqueue : (transaction (.enqueueCleanup task.storageKey)
      (upsertCleanupTask task.storageKey reason) : Async Unit).Ends v i R (.ok ()) (i + 1)
      { R with db := d } := by
    rw [← happly]
    exact Prog.Ends.commits hyields
  have hdelete : (Reports.awaitOk (.deleteObject task.storageKey)).Ends v (i + 1) { R with db := d }
      (.ok ()) (i + 2) ⟨d, R.env.deleteObject task.storageKey, R.nextId⟩ :=
    Ends.awaitOk (ht _) rfl
  have hfind : d.find? (.cleanupTask task.storageKey) = some (.cleanupTask task) :=
    hd' ▸ Db.find?_put_self R.db (.cleanupTask task)
  have hfinish : (transaction (.finishCleanup task.storageKey)
      (deleteRow (.cleanupTask task.storageKey) fun _ => true) : Async Nat).Ends v (i + 2)
      ⟨d, R.env.deleteObject task.storageKey, R.nextId⟩ (.ok 1) (i + 3)
      ⟨applyAll (d.deletion [.cleanupTask task.storageKey]) d,
        R.env.deleteObject task.storageKey, R.nextId⟩ := by
    have hdeletes : (deleteRow (.cleanupTask task.storageKey) fun _ => true :
        InTransaction Nat).Yields (v.times (i + 2)) d 1
        (d.deletion [.cleanupTask task.storageKey] ++ []) :=
      Tx.Yields.deleteRow hfind rfl Tx.Yields.pure
    rw [List.append_nil] at hdeletes
    exact Prog.Ends.commits hdeletes
  refine ⟨applyAll (d.deletion [.cleanupTask task.storageKey]) d, ?_,
    consistent_erasures hd₁ herase, fun a => asset?_congr ?_⟩
  · exact Prog.Ends.bind henqueue
      (Prog.Ends.catch (Prog.Ends.bind hdelete (Prog.Ends.bind hfinish Prog.Ends.pure)))
  · rw [find?_applyAll_ne fun w hw => by rw [herase w hw]; simp [Write.target], ← hd',
      Db.find?_put_ne (by simp [key, Schema.key])]

/-- A rejected upload becomes REJECTED. -/
theorem confirmUpload_rejects {rejection : String × String}
    (h : Deposited cfg R userId asset bytes) (ht : Timely cfg v i asset)
    (hverdict : verdict cfg asset bytes = .error rejection) :
    ∃ d, (confirmUpload cfg userId asset.reportId asset.id).Ends v i R
        (.error (badRequest rejection.1 rejection.2)) (i + 9)
        ⟨d, R.env.deleteObject asset.storageKey, R.nextId⟩
      ∧ asset? d asset.id = some (asset.rejected rejection.1) := by
  obtain ⟨d, hclean, hd, hkept⟩ := Ends.enqueueAndAttempt (v := v) (i := i + 5)
    h.consistent ht.answers asset.storageKey .rejectedUpload
  refine ⟨d.put (.asset (asset.rejected rejection.1)), ?_,
    asset?_put_asset d (asset.rejected rejection.1)⟩
  refine Ends.confirmUpload h ht (Ends.verifyUpload h ht.answers ?_)
  rw [hverdict]
  have hsettle := Ends.settlePending (v := v) (i := i + 8) (s := .markRejected asset.id)
    (R := ⟨d, R.env.deleteObject asset.storageKey, R.nextId⟩)
    (f := (·.rejected rejection.1)) hd ((hkept asset.id).trans h.row) h.pending rfl rfl rfl rfl
  exact Prog.Ends.enter (Prog.Ends.bind hclean (Prog.Ends.bind hsettle Prog.Ends.throw))

-- ============================================================ the verdict

/-- The confirmation makes the asset READY. -/
def BecomesReady (cfg : Config) (v : Visit Call Choice) (i : Nat) (R : Rest Row Env)
    (userId : Id) (asset : ReportAsset) : Prop :=
  ∃ ready i' R', (confirmUpload cfg userId asset.reportId asset.id).Ends v i R (.ok ready) i' R'
    ∧ ready.status = .ready ∧ asset? R'.db asset.id = some ready

/-- The confirmation throws and makes the asset REJECTED. -/
def BecomesRejected (cfg : Config) (v : Visit Call Choice) (i : Nat) (R : Rest Row Env)
    (userId : Id) (asset : ReportAsset) : Prop :=
  ∃ e i' R' code, (confirmUpload cfg userId asset.reportId asset.id).Ends v i R (.error e) i' R'
    ∧ asset? R'.db asset.id = some (asset.rejected code)

/-- An upload that the inspection rejects becomes REJECTED, and its object
goes. -/
theorem becomesRejected (h : Deposited cfg R userId asset bytes) (ht : Timely cfg v i asset)
    {rejection : String × String} (hverdict : verdict cfg asset bytes = .error rejection) :
    BecomesRejected cfg v i R userId asset := by
  obtain ⟨d, hends, hrow⟩ := confirmUpload_rejects h ht hverdict
  exact ⟨_, _, _, rejection.1, hends, hrow⟩

/-- An upload becomes READY exactly if the inspection accepts it. -/
theorem becomesReady_iff (h : Deposited cfg R userId asset bytes) (ht : Timely cfg v i asset) :
    BecomesReady cfg v i R userId asset
      ↔ ∃ inspection, verdict cfg asset bytes = .ok inspection := by
  cases hverdict : verdict cfg asset bytes with
  | ok inspection =>
      refine iff_of_true ?_ ⟨inspection, rfl⟩
      exact ⟨_, _, _, confirmUpload_accepts h ht hverdict, rfl, asset?_put_asset _ _⟩
  | error rejection =>
      refine iff_of_false ?_ (by simp)
      rintro ⟨ready, i', R', hready, -, -⟩
      obtain ⟨d, hends, -⟩ := confirmUpload_rejects h ht hverdict
      cases hready.symm.trans hends

-- ====================================================== a concrete upload

/-- Asset 11 of report 10, with an object of the bytes. -/
def sampleUpload (type : ReportAssetType) (mimeType : String) (bytes : Bytes) : ReportAsset where
  id := 11
  reportId := 10
  type
  status := .pendingUpload
  storageKey := .asset 1 10 11 12
  originalFileName := "notes.txt"
  declaredMimeType := mimeType
  verifiedMimeType := none
  declaredSize := bytes.length
  verifiedSize := none
  position := 0
  width := none
  height := none
  durationSeconds := none
  rejectionReason := none
  createdAt := 0

def sampleRest (asset : ReportAsset) (bytes : Bytes) : Rest Row Env where
  db := (((Db.empty.put (.user sampleUser)).put (.report (newReport 10 1 "t" none 0))).put
    (.asset asset))
  env := ⟨[], [(asset.storageKey, bytes)], []⟩
  nextId := 13

/-- Everything is answered, and the clock stands still. -/
def promptVisit : Visit Call Choice := ⟨fun _ => .done, fun _ => 0, monotone_const⟩

/-- A visit without delay is in time. -/
theorem timely_sample (asset : ReportAsset) : Timely defaults promptVisit 0 asset :=
  ⟨fun _ => rfl, Nat.zero_le _⟩

/-- An upload of the declared size, deposited in an otherwise empty store. -/
theorem deposited_sample (type : ReportAssetType) (mimeType : String) {bytes : Bytes}
    (hne : bytes ≠ []) (hfits : bytes.length ≤ defaults.maximumBytes type) :
    Deposited defaults (sampleRest (sampleUpload type mimeType bytes) bytes) 1
      (sampleUpload type mimeType bytes) bytes where
  consistent := by
    have hempty : (Db.empty : Db Row).Consistent := fun r hr => nomatch hr
    have huser := hempty.insert (r := .user sampleUser) rfl rfl
    have hreport := huser.insert (r := .report (newReport 10 1 "t" none 0)) rfl rfl
    exact hreport.insert rfl rfl
  row := asset?_put_asset _ (sampleUpload type mimeType bytes)
  editable := ⟨newReport 10 1 "t" none 0, rfl, rfl⟩
  pending := rfl
  stored := by
    simp [sampleRest, Env.object?]
  exact := rfl
  nonempty := hne
  fits := hfits

end FastRep.Reports
